import WikiEcon.Ingest.CompactionShards
import WikiEcon.Lib.Transition

/-!
# Compaction through crashes

A generation is bare, prepared once its transaction is there, and committed once its manifest is
(`Phase`). Every call of `compact_generation` and of `retire_source_fragments`, cut off anywhere
and with any of its calls failing before or after they had their effect, leads from a phase to
the same or a later one, with the same manifest (`compactGeneration_safe`,
`retireSourceFragments_safe`).

So no fragment goes before shards that are committed hold its rows (`nothing_lost`), what one call
returned all later ones return (`returned_stays`), and what was prepared when a process died the
next call finishes (`recovers`).
-/

namespace WikiEcon.Ingest.Compaction

open Programs Transition

variable {Row : Type} [LinearOrder Row] (lib : Library Row) (target : Target)
  (original : Path → Option Bytes) (markers : String → Option Bytes)

/-! ## Phases -/

/-- The transaction owns the shards, staged or renamed. -/
structure Prepared (manifest : CompactionManifest) (d : Disk) : Prop where
  fragments : d.fragments = original
  marker : d.marker = markers
  transaction : d.transaction = some (transactionOf target manifest)
  uncommitted : d.manifest = none
  receipt : d.receipt = none
  durable : Durable lib target markers manifest
  place : ∃ directory, Lossless lib target original directory manifest ∧
    ((d.staging = some directory ∧ d.final = none) ∨ (d.staging = none ∧ d.final = some directory))

/-- The manifest vouches for the shards; only fragments it accounts for may be gone. -/
structure Committed (manifest : CompactionManifest) (d : Disk) : Prop where
  marker : d.marker = markers
  committed : d.manifest = some manifest
  receipt : d.receipt = none ∨ d.receipt = some manifest
  durable : Durable lib target markers manifest
  place : ∃ directory, d.staging = none ∧ d.final = some directory ∧
    Lossless lib target original directory manifest
  fragments : ∀ path, d.fragments path = original path ∨
    d.fragments path = none ∧ path ∈ manifest.sourceFragments.map GenerationFragment.path

inductive Phase
  | bare
  | prepared (manifest : CompactionManifest)
  | committed (manifest : CompactionManifest)

def Phase.Holds : Phase → Disk → Prop
  | .bare => Bare original markers
  | .prepared manifest => Prepared lib target original markers manifest
  | .committed manifest => Committed lib target original markers manifest

/-- The first phase can become the second. -/
def Phase.Leads : Phase → Phase → Prop
  | .bare, _ => True
  | .prepared manifest, later => later = .prepared manifest ∨ later = .committed manifest
  | .committed manifest, later => later = .committed manifest

theorem Phase.Leads.refl (phase : Phase) : phase.Leads phase := by
  cases phase with
  | bare => trivial
  | prepared manifest => exact Or.inl rfl
  | committed manifest => rfl

theorem Phase.Leads.trans {first second third : Phase} (h : first.Leads second)
    (h' : second.Leads third) : first.Leads third := by
  cases first with
  | bare => trivial
  | prepared manifest =>
    rcases h with rfl | rfl
    · exact h'
    · exact Or.inr h'
  | committed manifest =>
    obtain rfl := h
    exact h'

/-- The phase is one that the given one leads to. -/
def After (phase : Phase) (d : Disk) : Prop :=
  ∃ later : Phase, phase.Leads later ∧ later.Holds lib target original markers d

variable {lib target original markers} {d : Disk} {phase : Phase} {manifest : CompactionManifest}

theorem After.trans {first : Phase} (h : first.Leads phase)
    (hd : After lib target original markers phase d) :
    After lib target original markers first d := by
  obtain ⟨later, hlater, hholds⟩ := hd
  exact ⟨later, h.trans hlater, hholds⟩

/-- The phase a disk is in, if it is in any. -/
def phaseOf (d : Disk) : Phase :=
  match d.manifest, d.transaction with
  | some manifest, _ => .committed manifest
  | none, some transaction => .prepared transaction.manifest
  | none, none => .bare

theorem Phase.Holds.eq (h : phase.Holds lib target original markers d) : phaseOf d = phase := by
  unfold phaseOf
  cases phase with
  | bare => rw [h.manifest, h.transaction]
  | prepared manifest => rw [h.uncommitted, h.transaction]; rfl
  | committed manifest => rw [h.committed]

theorem After.leads {later : Phase} (h : After lib target original markers phase d)
    (hlater : later.Holds lib target original markers d) : phase.Leads later := by
  obtain ⟨found, hfound, hholds⟩ := h
  rwa [← hlater.eq, hholds.eq]

theorem Phase.Holds.after (h : phase.Holds lib target original markers d) :
    After lib target original markers phase d :=
  ⟨phase, .refl phase, h⟩

/-! ## What the calls do -/

theorem Bare.prepare {directory : Directory} (hd : Bare original markers d)
    (hstaging : d.staging = some directory)
    (hlossless : Lossless lib target original directory manifest)
    (hdurable : Durable lib target markers manifest) :
    Prepared lib target original markers manifest
      (d.perform (.writeTransaction (transactionOf target manifest))).2 :=
  ⟨hd.fragments, hd.marker, rfl, hd.manifest, hd.receipt, hdurable,
    directory, hlossless, Or.inl ⟨hstaging, hd.final⟩⟩

theorem Prepared.rename {directory : Directory}
    (hd : Prepared lib target original markers manifest d) (hstaging : d.staging = some directory)
    (hlossless : Lossless lib target original directory manifest) :
    Prepared lib target original markers manifest (d.perform .renameStaging).2 :=
  ⟨hd.fragments, hd.marker, hd.transaction, hd.uncommitted, hd.receipt, hd.durable,
    directory, hlossless, Or.inr ⟨rfl, hstaging⟩⟩

theorem Prepared.commit {directory : Directory}
    (hd : Prepared lib target original markers manifest d)
    (hlossless : Lossless lib target original directory manifest)
    (hstaging : d.staging = none) (hfinal : d.final = some directory) :
    Committed lib target original markers manifest (d.perform (.writeManifest manifest)).2 :=
  ⟨hd.marker, rfl, Or.inl hd.receipt, hd.durable, ⟨directory, hstaging, hfinal, hlossless⟩,
    fun path => Or.inl (congrFun hd.fragments path)⟩

theorem Committed.finish (hd : Committed lib target original markers manifest d) :
    Committed lib target original markers manifest (d.perform .removeTransaction).2 :=
  ⟨hd.marker, hd.committed, hd.receipt, hd.durable, hd.place, hd.fragments⟩

theorem Committed.retire {path : Path} (hd : Committed lib target original markers manifest d)
    (hpath : path ∈ manifest.sourceFragments.map GenerationFragment.path) :
    Committed lib target original markers manifest (d.perform (.removeFragment path)).2 := by
  refine ⟨hd.marker, hd.committed, hd.receipt, hd.durable, hd.place, fun other => ?_⟩
  by_cases hother : other = path
  · rw [hother]
    exact Or.inr ⟨Function.update_self .., hpath⟩
  · rw [show (d.perform (.removeFragment path)).2.fragments other = d.fragments other from
      Function.update_of_ne hother ..]
    exact hd.fragments other

/-! ## Compacting -/

/-- The end of every path to a committed manifest. -/
theorem finish_safe {α : Type} (result : α) (hphase : phase.Leads (.prepared manifest))
    {directory : Directory} (hd : Prepared lib target original markers manifest d)
    (hlossless : Lossless lib target original directory manifest)
    (hstaging : d.staging = none) (hfinal : d.final = some directory) :
    Safe (After lib target original markers phase)
      (fun found d' => found = result ∧ Committed lib target original markers manifest d')
      (do
        ask (.writeManifest manifest)
        ask .removeTransaction
        return result) d := by
  have hbefore : After lib target original markers phase d := ⟨_, hphase, hd⟩
  have hcommit : phase.Leads (.committed manifest) :=
    hphase.trans (show (Phase.prepared manifest).Leads (.committed manifest) from Or.inr rfl)
  have hcommitted := hd.commit hlossless hstaging hfinal
  refine (ask_safe hbefore (.writeManifest manifest) ⟨_, hcommit, hcommitted⟩).bind ?_
  rintro _ _ - ⟨rfl, -⟩
  refine (ask_safe ⟨_, hcommit, hcommitted⟩ .removeTransaction
    ⟨_, hcommit, hcommitted.finish⟩).bind ?_
  rintro _ _ - ⟨rfl, -⟩
  exact .done ⟨_, hcommit, hcommitted.finish⟩ ⟨rfl, hcommitted.finish⟩

theorem commit_safe {directory : Directory} (hd : Bare original markers d)
    (hstaging : d.staging = some directory)
    (hlossless : Lossless lib target original directory manifest)
    (hdurable : Durable lib target markers manifest) :
    Safe (After lib target original markers .bare)
      (fun found d' => Committed lib target original markers found d')
      (commit target manifest) d := by
  have hbare : After lib target original markers .bare d := ⟨.bare, trivial, hd⟩
  have hprepared := hd.prepare hstaging hlossless hdurable
  refine (ask_safe hbare (.writeTransaction (transactionOf target manifest))
    ⟨.prepared manifest, trivial, hprepared⟩).bind ?_
  rintro _ _ - ⟨rfl, -⟩
  have hrenamed := hprepared.rename hstaging hlossless
  refine (ask_safe ⟨.prepared manifest, trivial, hprepared⟩ .renameStaging
    ⟨.prepared manifest, trivial, hrenamed⟩).bind ?_
  rintro _ _ - ⟨rfl, -⟩
  refine (read_safe ⟨.prepared manifest, trivial, hrenamed⟩ .syncParent rfl).bind ?_
  rintro _ _ - ⟨rfl, -⟩
  have hleads : Phase.bare.Leads (.prepared manifest) := trivial
  refine (finish_safe manifest hleads hrenamed hlossless rfl hstaging).mono ?_
  rintro _ d' ⟨rfl, hcommitted⟩
  exact hcommitted

/-- A committed generation is read. -/
theorem readManifest_safe (hd : Committed lib target original markers manifest d) :
    Safe (After lib target original markers (.committed manifest))
      (fun found d' => Committed lib target original markers found d')
      (readManifest lib target) d := by
  have hinv : After lib target original markers (.committed manifest) d := ⟨_, rfl, hd⟩
  refine (read_safe hinv .readManifest rfl).bind ?_
  rintro found d - ⟨rfl, hfound⟩
  have hfound := context_eq_ok.mp hfound
  rw [hd.committed] at hfound
  obtain rfl := Option.some.inj hfound
  refine (validateStructure_safe target hinv manifest).bind ?_
  rintro _ d - ⟨rfl, -⟩
  refine (validateSourceMarkerHashes_safe lib hinv manifest).bind ?_
  rintro _ d - rfl
  refine (validateOutputsAt_safe lib hinv .final manifest).bind ?_
  rintro _ d - ⟨rfl, -⟩
  exact .done hinv hd

/-- A prepared generation is taken up where it was left. -/
theorem recoverPreparedTransaction_safe (hd : Prepared lib target original markers manifest d) :
    Safe (After lib target original markers (.prepared manifest))
      (fun found d' => found = some manifest ∧ Committed lib target original markers manifest d')
      (recoverPreparedTransaction lib target) d := by
  have hinv : After lib target original markers (.prepared manifest) d := ⟨_, Or.inl rfl, hd⟩
  refine (read_safe hinv .transactionIsFile rfl).bind ?_
  rintro present d - ⟨rfl, hpresent⟩
  rw [← Except.ok.inj (show Except.ok d.transaction.isSome = .ok present from hpresent),
    hd.transaction, Option.isSome_some, if_pos rfl]
  refine (read_safe hinv .readTransaction rfl).bind ?_
  rintro transaction d - ⟨rfl, htransaction⟩
  have htransaction := context_eq_ok.mp htransaction
  rw [hd.transaction] at htransaction
  obtain rfl := Option.some.inj htransaction
  refine (check_safe hinv _).bind ?_
  rintro _ d - ⟨rfl, -⟩
  refine (validateStructure_safe target hinv manifest).bind ?_
  rintro _ d - ⟨rfl, -⟩
  refine (validateSourceMarkerHashes_safe lib hinv manifest).bind ?_
  rintro _ d - rfl
  refine (check_safe hinv _).bind ?_
  rintro _ d - ⟨rfl, -⟩
  refine (check_safe hinv _).bind ?_
  rintro _ d - ⟨rfl, -⟩
  refine (read_safe hinv (.isDirectory .staging) rfl).bind ?_
  rintro staged d - ⟨rfl, hstaged⟩
  refine (read_safe hinv (.isDirectory .final) rfl).bind ?_
  rintro renamed d - ⟨rfl, -⟩
  refine (check_safe hinv _).bind ?_
  rintro _ d - ⟨rfl, -⟩
  obtain rfl := Except.ok.inj (show Except.ok d.staging.isSome = .ok staged from hstaged)
  -- The outputs are still staged, or were renamed before the kill.
  obtain ⟨directory, hlossless, ⟨hstaging, hfinal⟩ | ⟨hstaging, hfinal⟩⟩ := hd.place
  · rw [hstaging, Option.isSome_some, placeOutputs, if_pos rfl]
    have hrenamed := hd.rename hstaging hlossless
    have hplaced : Safe (After lib target original markers (.prepared manifest))
        (fun _ d' => d' = (d.perform .renameStaging).2)
        (do
          validateOutputsAt lib .staging manifest
          ask .renameStaging
          ask .syncParent) d := by
      refine (validateOutputsAt_safe lib hinv .staging manifest).bind ?_
      rintro _ d - ⟨rfl, -⟩
      refine (ask_safe hinv .renameStaging ⟨_, Or.inl rfl, hrenamed⟩).bind ?_
      rintro _ _ - ⟨rfl, -⟩
      exact (read_safe ⟨_, Or.inl rfl, hrenamed⟩ .syncParent rfl).mono fun _ d' h => h.1
    refine hplaced.bind ?_
    rintro _ _ - rfl
    exact finish_safe _ (.refl _) hrenamed hlossless rfl hstaging
  · rw [hstaging, Option.isSome_none, placeOutputs, if_neg (by simp)]
    refine (validateOutputsAt_safe lib hinv .final manifest).bind ?_
    rintro _ d - ⟨rfl, -⟩
    exact finish_safe _ (.refl _) hd hlossless hstaging hfinal

/-- What a failed attempt may remove is owned by nobody. -/
theorem cleanUp_safe (message : String) (hd : After lib target original markers .bare d) :
    Safe (After lib target original markers .bare)
      (fun found d' => Committed lib target original markers found d') (cleanUp message) d := by
  refine (read_safe hd (.isDirectory .staging) rfl).bind ?_
  rintro staged d - ⟨rfl, hstaged⟩
  refine (read_safe hd .transactionIsFile rfl).bind ?_
  rintro owned d - ⟨rfl, howned⟩
  obtain rfl := Except.ok.inj (show Except.ok d.staging.isSome = .ok staged from hstaged)
  obtain rfl := Except.ok.inj (show Except.ok d.transaction.isSome = .ok owned from howned)
  by_cases hunowned : (d.staging.isSome && !d.transaction.isSome) = true
  · rw [if_pos hunowned]
    rw [Bool.and_eq_true, Bool.not_eq_true'] at hunowned
    have hremoved : After lib target original markers .bare (d.perform .removeStaging).2 := by
      obtain ⟨later, -, hlater⟩ := hd
      cases later with
      | bare => exact ⟨.bare, trivial, Bare.restaged hlater none⟩
      | prepared manifest =>
        rw [Prepared.transaction hlater] at hunowned
        exact absurd hunowned.2 (by simp)
      | committed manifest =>
        obtain ⟨_, hstaging, -⟩ := Committed.place hlater
        rw [hstaging] at hunowned
        exact absurd hunowned.1 (by simp)
    refine (ask_safe hd .removeStaging hremoved).attempt.bind ?_
    exact fun _ d' hd' _ => .fail hd'
  · rw [if_neg hunowned]
    exact .fail hd

theorem compactFresh_safe (hreads : ReadsBack lib) (source : GenerationManifest)
    (hd : Bare original markers d) :
    Safe (After lib target original markers .bare)
      (fun found d' => Committed lib target original markers found d')
      (compactFresh lib target source) d := by
  have hbare : ∀ t, Bare original markers t → After lib target original markers .bare t :=
    fun t ht => ⟨.bare, trivial, ht⟩
  have hinv := hbare d hd
  refine (check_safe hinv _).bind ?_
  rintro _ d - ⟨rfl, -⟩
  refine (check_safe hinv (CompactionPolicy.fromValues target.targetBytes target.maximumBytes)).bind
    ?_
  rintro policy d - ⟨rfl, -⟩
  refine (read_safe hinv (.isDirectory .staging) rfl).bind ?_
  rintro staged d - ⟨rfl, -⟩
  refine (read_safe hinv (.isDirectory .final) rfl).bind ?_
  rintro renamed d - ⟨rfl, -⟩
  refine (check_safe hinv _).bind ?_
  rintro _ d - ⟨rfl, -⟩
  have hcreated : Bare original markers (d.perform .createStaging).2 := hd.restaged _
  refine (ask_safe hinv .createStaging (hbare _ hcreated)).bind ?_
  rintro _ _ - ⟨rfl, -⟩
  have hbody : Safe (After lib target original markers .bare)
      (fun found d' => Committed lib target original markers found d')
      (do
        let manifest ← stage lib target source policy
        commit target manifest) (d.perform .createStaging).2 := by
    -- a bare disk until all is staged
    have hstage := @stage_safe _ _ lib target _ _ _ _ hreads source policy hcreated rfl
    refine (hstage.keeps.weaken hbare).bind ?_
    rintro manifest d' - ⟨hd', directory, hstaging, hlossless, hdurable⟩
    exact commit_safe hd' hstaging hlossless hdurable
  refine hbody.attempt.bind ?_
  intro result d' hd' hresult
  cases result with
  | ok manifest => exact .done hd' (hresult manifest rfl)
  | error message => exact cleanUp_safe message hd'

/-- **A call of `compact_generation` keeps to the phases**, and what it returns is committed. -/
theorem compactGeneration_safe (hreads : ReadsBack lib) (source : GenerationManifest)
    (hd : phase.Holds lib target original markers d) :
    Safe (After lib target original markers phase)
      (fun found d' => Committed lib target original markers found d')
      (compactGeneration lib target source) d := by
  refine (read_safe hd.after .manifestIsFile rfl).bind ?_
  rintro committed d - ⟨rfl, hcommitted⟩
  rw [← Except.ok.inj (show Except.ok d.manifest.isSome = .ok committed from hcommitted)]
  cases phase with
  | bare =>
    rw [Bare.manifest hd, Option.isSome_none, if_neg (by simp)]
    have hnothing : Safe (After lib target original markers .bare)
      (fun found d' => d' = d ∧ found = none)
        (recoverPreparedTransaction lib target) d := by
      refine (read_safe (Phase.Holds.after hd) .transactionIsFile rfl).bind ?_
      rintro present d - ⟨rfl, hpresent⟩
      rw [← Except.ok.inj (show Except.ok d.transaction.isSome = .ok present from hpresent),
        Bare.transaction hd, Option.isSome_none, if_neg (by simp)]
      exact .done (Phase.Holds.after hd) ⟨rfl, rfl⟩
    refine hnothing.bind ?_
    rintro _ d - ⟨rfl, rfl⟩
    exact compactFresh_safe hreads source hd
  | prepared manifest =>
    rw [Prepared.uncommitted hd, Option.isSome_none, if_neg (by simp)]
    refine (recoverPreparedTransaction_safe hd).bind ?_
    rintro _ d' hd' ⟨rfl, hcommitted⟩
    exact .done hd' hcommitted
  | committed manifest =>
    rw [Committed.committed hd, Option.isSome_some, if_pos rfl]
    exact readManifest_safe hd

/-! ## Retiring -/

theorem receiptedManifest_safe (hd : After lib target original markers phase d) :
    Safe (After lib target original markers phase)
      (fun found d' => d' = d ∧ ∀ manifest, found = some manifest →
        d.receipt = some manifest ∧ d.manifest = some manifest)
      (receiptedManifest target) d := by
  refine (read_safe hd .receiptMatches rfl).bind ?_
  rintro vouched d - ⟨rfl, hvouched⟩
  have hvouched := Except.ok.inj
    (show Except.ok (d.receipt.isSome && decide (d.receipt = d.manifest)) =
      .ok vouched from hvouched)
  by_cases htrue : vouched = true
  · rw [if_pos htrue]
    rw [htrue, Bool.and_eq_true, decide_eq_true_eq] at hvouched
    refine (read_safe hd .readManifest rfl).bind ?_
    rintro manifest d - ⟨rfl, hmanifest⟩
    have hmanifest := context_eq_ok.mp hmanifest
    refine (validateStructure_safe target hd manifest).bind ?_
    rintro _ d - ⟨rfl, -⟩
    have hsizes : Safe (After lib target original markers phase)
        (fun _ d' => d' = d ∧ ∀ fragment ∈ manifest.compactedFragments, True)
        (forEach manifest.compactedFragments fun fragment => do
          let _ ← check (checkedPath fragment.path)
          let path ← check (compactedRelative fragment)
          let bytes ← ask (.readShard .final path)
          check (ensure (bytes.length = fragment.bytes)
            "receipted compacted fragment size changed"))
        d := by
      refine forEach_safe hd fun fragment _ => ?_
      refine (check_safe hd (checkedPath fragment.path)).bind ?_
      rintro _ d - ⟨rfl, -⟩
      refine (check_safe hd (compactedRelative fragment)).bind ?_
      rintro path d - ⟨rfl, -⟩
      refine (read_safe hd (.readShard .final path) rfl).bind ?_
      rintro bytes d - ⟨rfl, -⟩
      exact (check_safe hd _).mono fun _ d' h => ⟨h.1, trivial⟩
    refine hsizes.bind ?_
    rintro _ d - ⟨rfl, -⟩
    refine .done hd ⟨rfl, ?_⟩
    rintro _ ⟨⟩
    exact ⟨hvouched.2.trans hmanifest, hmanifest⟩
  · rw [if_neg htrue]
    exact .done hd ⟨rfl, fun manifest h => by cases h⟩

/-- **Only fragments that the committed shards account for are removed.** -/
theorem retireSourceFragments_safe (hd : phase.Holds lib target original markers d) :
    Safe (After lib target original markers phase) (fun _ _ => True)
      (retireSourceFragments lib target) d := by
  refine (receiptedManifest_safe hd.after).bind ?_
  rintro found d - ⟨rfl, hfound⟩
  cases found with
  | none => exact .done hd.after trivial
  | some manifest =>
    obtain ⟨-, hmanifest⟩ := hfound manifest rfl
    obtain rfl : phase = .committed manifest := by
      rw [← hd.eq, phaseOf, hmanifest]
    refine (validateOutputsAt_safe lib hd.after .final manifest).bind ?_
    rintro _ d - ⟨rfl, -⟩
    have hloop := @Withstands.foldlM _ _ _ _ Call.fallible Disk.perform "I/O error" _
      (After lib target original markers (.committed manifest)) d _
      (fun (_ : List GenerationFragment) (_ : ℕ) d' =>
        Committed lib target original markers manifest d')
      retireFragment manifest.sourceFragments 0
      (fun done fragment rest hdone t removed ht hcommitted => ?_) hd.after hd
    · exact hloop.mono fun _ _ _ => trivial
    · have hmem : fragment.path ∈ manifest.sourceFragments.map GenerationFragment.path := by
        rw [hdone]
        exact List.mem_map_of_mem (List.mem_append_right _ List.mem_cons_self)
      refine (check_safe ht (checkedPath fragment.path)).bind ?_
      rintro path t - ⟨rfl, hpath⟩
      obtain rfl := checkedPath_eq_ok hpath
      refine (read_safe ht (.fragmentIsFile fragment.path) rfl).bind ?_
      rintro present t - ⟨rfl, -⟩
      by_cases hpresent : present = true
      · rw [if_pos hpresent]
        have hretired := hcommitted.retire hmem
        refine (ask_safe ht (.removeFragment fragment.path) ⟨_, rfl, hretired⟩).bind ?_
        rintro _ _ ht' ⟨rfl, -⟩
        exact .done ht' hretired
      · rw [if_neg hpresent]
        exact .done ht hcommitted

/-! ## Undisturbed -/

theorem run_check {α : Type} {x : Except String α} {a : α} (h : x = .ok a) :
    (check x).run Disk.perform d = (.ok a, d) :=
  (Programs.run_check x d).trans (by rw [h])

theorem run_ask {c : Call} {a : c.Answer} {d' : Disk} (h : d.perform c = (.ok a, d')) :
    (ask c).run Disk.perform d = (.ok a, d') :=
  (run_asked c d).trans h

theorem run_forEach {α : Type} {l : List α} {body : α → Action Unit}
    (hbody : ∀ a ∈ l, (body a).run Disk.perform d = (.ok (), d)) :
    (forEach l body).run Disk.perform d = (.ok (), d) := by
  induction l with
  | nil => rfl
  | cons a l ih =>
    show ((body a) >>= fun _ => forEach l body).run Disk.perform d = _
    rw [Program.run_bind_ok _ (hbody a List.mem_cons_self)]
    exact ih fun b hb => hbody b (List.mem_cons_of_mem _ hb)

omit [LinearOrder Row] in
theorem validateStructure_run (hdurable : Durable lib target markers manifest)
    (hmarker : d.marker = markers) :
    (validateStructure target manifest).run Disk.perform d = (.ok (), d) := by
  show (check _ >>= fun _ => forEach _ _).run Disk.perform d = _
  rw [Program.run_bind_ok _ (run_check hdurable.checked)]
  refine run_forEach fun source hsource => ?_
  obtain ⟨hpath, ⟨hlength, hhex⟩, bytes, hbytes, -⟩ := hdurable.markers source hsource
  show (check _ >>= fun _ => ask _ >>= fun _ => check _).run Disk.perform d = _
  rw [Program.run_bind_ok _ (run_check hpath), Program.run_bind_ok _ (run_ask rfl)]
  refine run_check (ensure_eq_ok.mpr ⟨hlength, hhex, rfl, ?_⟩)
  rw [hmarker, hbytes]
  rfl

omit [LinearOrder Row] in
theorem validateSourceMarkerHashes_run (hdurable : Durable lib target markers manifest)
    (hmarker : d.marker = markers) :
    (validateSourceMarkerHashes lib manifest).run Disk.perform d = (.ok (), d) := by
  refine run_forEach fun source hsource => ?_
  obtain ⟨hpath, -, bytes, hbytes, hhash⟩ := hdurable.markers source hsource
  show (check _ >>= fun _ => ask _ >>= fun _ => check _).run Disk.perform d = _
  rw [Program.run_bind_ok _ (run_check hpath), Program.run_bind_ok _ (run_ask (a := bytes) ?_)]
  · exact run_check (ensure_eq_ok.mpr hhash)
  · show (context (d.marker source.sourceId) _, d) = _
    rw [hmarker, hbytes]
    rfl

theorem validateOutputsAt_run {directory : Directory} {root : Root}
    (hlossless : Lossless lib target original directory manifest)
    (hdirectory : d.directory root = some directory) :
    (validateOutputsAt lib root manifest).run Disk.perform d = (.ok (), d) := by
  refine run_forEach fun shard hshard => ?_
  obtain ⟨hpath, bytes, hbytes, hvalid⟩ := hlossless.present shard hshard
  show (check _ >>= fun _ => ask _ >>= fun _ => check _).run Disk.perform d = _
  rw [Program.run_bind_ok _ (run_check hpath), Program.run_bind_ok _ (run_ask (a := bytes) ?_)]
  · exact run_check hvalid
  · show (context ((d.directory root).bind fun directory => directory _) _, d) = _
    rw [hdirectory, Option.bind_some, hbytes]
    rfl

theorem readManifest_run (hd : Committed lib target original markers manifest d) :
    (readManifest lib target).run Disk.perform d = (.ok manifest, d) := by
  obtain ⟨directory, -, hfinal, hlossless⟩ := hd.place
  show (ask _ >>= fun _ => validateStructure target _ >>= fun _ =>
    validateSourceMarkerHashes lib _ >>= fun _ => validateOutputsAt lib _ _ >>= fun _ => _).run
      Disk.perform d = _
  rw [Program.run_bind_ok _ (run_ask (a := manifest) ?_),
    Program.run_bind_ok _ (validateStructure_run hd.durable hd.marker),
    Program.run_bind_ok _ (validateSourceMarkerHashes_run hd.durable hd.marker),
    Program.run_bind_ok _
      (validateOutputsAt_run hlossless (show d.directory .final = some directory from hfinal))]
  · rfl
  · show (context d.manifest _, d) = _
    rw [hd.committed]
    rfl

theorem checkedPath_eq_ok_iff {path : Path} :
    checkedPath path = .ok path ↔ ∀ component ∈ path,
      component ≠ ".." ∧ component ≠ "." ∧ component ≠ "" := by
  unfold checkedPath
  constructor
  · intro h
    obtain ⟨_, hsafe, -⟩ := bind_eq_ok.mp h
    exact ensure_eq_ok.mp hsafe
  · intro h
    rw [(ensure_eq_ok (u := ())).mpr h]
    rfl

omit [LinearOrder Row] in
/-- The names of the generation are safe: they stand in the path of a marker. -/
theorem Durable.checkedPath_append (h : Durable lib target markers manifest) {rest : Path}
    (hrest : ∀ component ∈ rest, component ≠ ".." ∧ component ≠ "." ∧ component ≠ "") :
    checkedPath (target.metricInputRoot ++ rest) = .ok (target.metricInputRoot ++ rest) := by
  obtain ⟨source, hsource⟩ : ∃ source, source ∈ manifest.sources := by
    obtain ⟨_, -, hrest⟩ := bind_eq_ok.mp h.checked
    obtain ⟨_, -, hrest⟩ := bind_eq_ok.mp hrest
    obtain ⟨_, -, hrest⟩ := bind_eq_ok.mp hrest
    obtain ⟨_, hsets, -⟩ := bind_eq_ok.mp hrest
    exact List.exists_mem_of_ne_nil _ (ensure_eq_ok.mp hsets).1
  have hpath := (h.markers source hsource).path
  have hmarker := checkedPath_eq_ok hpath
  rw [← hmarker, checkedPath_eq_ok_iff] at hpath
  have hwiki := hpath target.wiki (by simp [Target.markerPath])
  have hsnapshot := hpath target.snapshot (by simp [Target.markerPath])
  rw [checkedPath_eq_ok_iff]
  intro component hcomponent
  rcases List.mem_append.mp hcomponent with hroot | hcomponent
  · simp only [Target.metricInputRoot, List.mem_cons, List.not_mem_nil, or_false] at hroot
    rcases hroot with rfl | rfl | rfl | rfl
    · decide
    · exact hwiki
    · decide
    · exact hsnapshot
  · exact hrest component hcomponent

omit [LinearOrder Row] in
theorem Durable.checkedPath_directory (h : Durable lib target markers manifest) :
    checkedPath target.staging = .ok target.staging ∧ checkedPath target.final = .ok target.final :=
  ⟨h.checkedPath_append (by decide), h.checkedPath_append (by decide)⟩

omit [LinearOrder Row] in
/-- So are the paths of the shards. -/
theorem Durable.checkedPath_shard (h : Durable lib target markers manifest)
    {shard : GenerationFragment} {month : ℤ × String} {k : ℕ}
    (hpath : shard.path = target.final ++ shardPath month.1 month.2 k) :
    checkedPath shard.path = .ok shard.path := by
  have hlonger : ∀ label rest : String, 2 < label.length →
      label ++ rest ≠ ".." ∧ label ++ rest ≠ "." ∧ label ++ rest ≠ "" := by
    intro label rest hlabel
    have hlength : (label ++ rest).length = label.length + rest.length :=
      String.length_append ..
    refine ⟨fun heq => ?_, fun heq => ?_, fun heq => ?_⟩
    · rw [heq, show "..".length = 2 from rfl] at hlength
      omega
    · rw [heq, show ".".length = 1 from rfl] at hlength
      omega
    · rw [heq, show "".length = 0 from rfl] at hlength
      omega
  rw [hpath, Target.final, List.append_assoc]
  refine h.checkedPath_append fun component hcomponent => ?_
  simp only [shardPath, List.cons_append, List.nil_append, List.mem_cons, List.not_mem_nil,
    or_false, String.append_assoc] at hcomponent
  rcases hcomponent with rfl | rfl | rfl | rfl
  · decide
  · exact hlonger _ _ (by decide)
  · exact hlonger _ _ (by decide)
  · exact hlonger _ _ (by decide)

theorem finish_run {α : Type} (result : α) :
    (do
      ask (.writeManifest manifest)
      ask .removeTransaction
      return result : Action α).run Disk.perform d
      = (.ok result, { d with manifest := some manifest, transaction := none }) := rfl

/-- The directory of a transaction is validated and put in its place. -/
theorem placeOutputs_run (hd : Prepared lib target original markers manifest d) :
    ∃ directory, Lossless lib target original directory manifest ∧
      (placeOutputs lib manifest (d.directory .staging).isSome).run Disk.perform d
        = (.ok (), { d with staging := none, final := some directory }) := by
  show ∃ directory, _ ∧ (placeOutputs lib manifest d.staging.isSome).run Disk.perform d = _
  obtain ⟨directory, hlossless, ⟨hstaging, hfinal⟩ | ⟨hstaging, hfinal⟩⟩ := hd.place
  · refine ⟨directory, hlossless, ?_⟩
    rw [hstaging, Option.isSome_some, placeOutputs, if_pos rfl, Program.run_bind_ok _
      (validateOutputsAt_run hlossless (show d.directory .staging = some directory from hstaging))]
    show (Except.ok (), { d with staging := none, final := d.staging }) = _
    rw [hstaging]
  · refine ⟨directory, hlossless, ?_⟩
    rw [hstaging, Option.isSome_none, placeOutputs, if_neg (by simp),
      validateOutputsAt_run hlossless (show d.directory .final = some directory from hfinal)]
    show (Except.ok (), d) = (Except.ok (), { d with staging := none, final := some directory })
    rw [← hstaging, ← hfinal]

theorem recoverPreparedTransaction_run (hd : Prepared lib target original markers manifest d) :
    ∃ directory, Lossless lib target original directory manifest ∧
      (recoverPreparedTransaction lib target).run Disk.perform d
        = (.ok (some manifest), { d with
            staging := none, final := some directory, manifest := some manifest,
            transaction := none }) := by
  obtain ⟨directory, hlossless, hplaced⟩ := placeOutputs_run hd
  refine ⟨directory, hlossless, ?_⟩
  obtain ⟨hstagingPath, hfinalPath⟩ := hd.durable.checkedPath_directory
  have hdistinct : (d.directory .staging).isSome ≠ (d.directory .final).isSome := by
    show d.staging.isSome ≠ d.final.isSome
    obtain ⟨_, -, ⟨hstaging, hfinal⟩ | ⟨hstaging, hfinal⟩⟩ := hd.place
    · rw [hstaging, hfinal]
      simp
    · rw [hstaging, hfinal]
      simp
  show (ask .transactionIsFile >>= fun present => _).run Disk.perform d = _
  rw [Program.run_bind_ok _ (run_ask (a := true) (by
    show (Except.ok d.transaction.isSome, d) = _
    rw [hd.transaction]
    rfl)), if_pos rfl]
  rw [Program.run_bind_ok _ (run_ask (a := transactionOf target manifest) (by
    show (context d.transaction _, d) = _
    rw [hd.transaction]
    rfl))]
  rw [Program.run_bind_ok _ (run_check (a := ()) (ensure_eq_ok.mpr ⟨rfl, rfl, rfl, rfl⟩))]
  show (validateStructure target manifest >>= fun _ => validateSourceMarkerHashes lib manifest >>=
    fun _ => check (checkedPath target.staging) >>= fun _ => check (checkedPath target.final) >>=
    fun _ => ask (.isDirectory .staging) >>= fun staged => ask (.isDirectory .final) >>=
    fun renamed => check (ensure (staged ≠ renamed) _) >>= fun _ =>
    placeOutputs lib manifest staged >>= fun _ => _).run Disk.perform d = _
  rw [Program.run_bind_ok _ (validateStructure_run hd.durable hd.marker),
    Program.run_bind_ok _ (validateSourceMarkerHashes_run hd.durable hd.marker),
    Program.run_bind_ok _ (run_check hstagingPath), Program.run_bind_ok _ (run_check hfinalPath),
    Program.run_bind_ok _ (run_ask rfl), Program.run_bind_ok _ (run_ask rfl),
    Program.run_bind_ok _ (run_check (a := ()) (ensure_eq_ok.mpr hdistinct)),
    Program.run_bind_ok _ hplaced]
  exact finish_run (some manifest)

theorem receiptedManifest_run (hd : Committed lib target original markers manifest d)
    (hreceipt : d.receipt = some manifest) :
    (receiptedManifest target).run Disk.perform d = (.ok (some manifest), d) := by
  obtain ⟨directory, -, hfinal, hlossless⟩ := hd.place
  have hsizes : (forEach manifest.compactedFragments fun fragment => do
      let _ ← check (checkedPath fragment.path)
      let path ← check (compactedRelative fragment)
      let bytes ← ask (.readShard .final path)
      check (ensure (bytes.length = fragment.bytes)
        "receipted compacted fragment size changed")).run
        Disk.perform d = (.ok (), d) := by
    refine run_forEach fun shard hshard => ?_
    obtain ⟨month, k, hpath⟩ := hlossless.shardPaths shard hshard
    obtain ⟨hrelative, bytes, hbytes, hvalid⟩ := hlossless.present shard hshard
    rw [Program.run_bind_ok _ (run_check (hd.durable.checkedPath_shard hpath)),
      Program.run_bind_ok _ (run_check hrelative), Program.run_bind_ok _ (run_ask (a := bytes) ?_)]
    · exact run_check (ensure_eq_ok.mpr ((validateShard_eq_ok lib).mp hvalid).1)
    · show (context (d.final.bind fun directory => directory _) _, d) = _
      rw [hfinal, Option.bind_some, hbytes]
      rfl
  show (ask .receiptMatches >>= fun _ => _).run Disk.perform d = _
  rw [Program.run_bind_ok _ (run_ask (a := true) (by
    show (Except.ok (d.receipt.isSome && decide (d.receipt = d.manifest)), d) = _
    rw [hreceipt, hd.committed, decide_eq_true rfl]
    rfl)), if_pos rfl]
  rw [Program.run_bind_ok _ (run_ask (a := manifest) (by
    show (context d.manifest _, d) = _
    rw [hd.committed]
    rfl)), Program.run_bind_ok _ (validateStructure_run hd.durable hd.marker),
    Program.run_bind_ok _ hsizes]
  rfl

/-- The fragments of a list are gone. -/
def Disk.without (d : Disk) (fragments : List GenerationFragment) : Disk :=
  { d with fragments := fun path =>
      if fragments.any (·.path = path) then none else d.fragments path }

/-- Whether they were there or not. -/
theorem retireFragments_run {fragments : List GenerationFragment}
    (hpaths : ∀ fragment ∈ fragments, checkedPath fragment.path = .ok fragment.path) (removed : ℕ) :
    ∃ removed', (fragments.foldlM retireFragment removed).run Disk.perform d
      = (.ok removed', d.without fragments) := by
  induction fragments generalizing d removed with
  | nil =>
    refine ⟨removed, ?_⟩
    show (Except.ok removed, d) = _
    simp [Disk.without]
  | cons fragment fragments ih =>
    have hfirst : ∃ removed₁, (retireFragment removed fragment).run Disk.perform d
        = (.ok removed₁, { d with
          fragments := Function.update d.fragments fragment.path none }) := by
      show ∃ removed₁, (check _ >>= fun path => ask (.fragmentIsFile path) >>= fun _ => _).run
        Disk.perform d = _
      rw [Program.run_bind_ok _ (run_check (hpaths fragment List.mem_cons_self)),
        Program.run_bind_ok _ (run_ask rfl)]
      by_cases hpresent : (d.fragments fragment.path).isSome = true
      · rw [if_pos hpresent]
        exact ⟨_, rfl⟩
      · rw [if_neg hpresent]
        refine ⟨removed, ?_⟩
        rw [Option.not_isSome_iff_eq_none] at hpresent
        rw [← hpresent, Function.update_eq_self]
        rfl
    obtain ⟨removed₁, hfirst⟩ := hfirst
    obtain ⟨removed', hrest⟩ :=
      @ih { d with fragments := Function.update d.fragments fragment.path none }
      (fun other hother => hpaths other (List.mem_cons_of_mem _ hother)) removed₁
    refine ⟨removed', ?_⟩
    rw [List.foldlM_cons, Program.run_bind_ok _ hfirst, hrest]
    refine congrArg (Prod.mk _) ?_
    unfold Disk.without
    congr 1
    funext path
    by_cases hpath : path = fragment.path
    · simp [hpath]
    · simp [hpath, Ne.symm hpath]

/-! ## Any order of calls -/

/-- Calls meet faults and are cut off; the receipt of the ingest stage comes and goes. -/
inductive Event
  | compact (source : GenerationManifest) (faults : List Fault) (calls : ℕ)
  | retire (faults : List Fault) (calls : ℕ)
  | vouch
  | forget

variable (lib target)

def cutOff {α : Type} (action : Action α) (faults : List Fault) (calls : ℕ) (d : Disk) :
    Action α × Faulty Disk :=
  action.steps performFaulty calls ⟨d, faults⟩

def next (d : Disk) : Event → Disk
  | .compact source faults calls =>
    (cutOff (compactGeneration lib target source) faults calls d).2.store
  | .retire faults calls => (cutOff (retireSourceFragments lib target) faults calls d).2.store
  | .vouch => { d with receipt := d.manifest }
  | .forget => { d with receipt := none }

/-- A generation that was just ingested; what is staged is left from before. -/
structure Fresh (d : Disk) : Prop where
  final : d.final = none
  transaction : d.transaction = none
  manifest : d.manifest = none
  receipt : d.receipt = none

def compaction : System Disk Event where
  init := Fresh
  step d event d' := d' = next lib target d event

/-- What a call returned before it was cut off. -/
def returned {α : Type} : Action α → Option α
  | .done a => some a
  | .fail _ => none
  | .call _ _ => none

/-- The call of `compact_generation` returned the manifest. -/
def Returns (d : Disk) (event : Event) (manifest : CompactionManifest) : Prop :=
  ∃ source faults calls, event = .compact source faults calls ∧
    returned (cutOff (compactGeneration lib target source) faults calls d).1 = some manifest

variable {lib target}

theorem Fresh.bare (h : Fresh d) : Bare d.fragments d.marker d :=
  ⟨rfl, rfl, h.final, h.transaction, h.manifest, h.receipt⟩

theorem after_next (hreads : ReadsBack lib) (hd : phase.Holds lib target original markers d)
    (event : Event) : After lib target original markers phase (next lib target d event) := by
  cases event with
  | compact source faults calls =>
    exact ((compactGeneration_safe hreads source hd).steps faults calls).1
  | retire faults calls => exact ((retireSourceFragments_safe hd).steps faults calls).1
  | vouch =>
    refine ⟨phase, .refl phase, ?_⟩
    cases phase with
    | bare => exact ⟨hd.fragments, hd.marker, hd.final, hd.transaction, hd.manifest, hd.manifest⟩
    | prepared manifest =>
      exact ⟨hd.fragments, hd.marker, hd.transaction, hd.uncommitted, hd.uncommitted, hd.durable,
        hd.place⟩
    | committed manifest =>
      exact ⟨hd.marker, hd.committed, Or.inr hd.committed, hd.durable, hd.place, hd.fragments⟩
  | forget =>
    refine ⟨phase, .refl phase, ?_⟩
    cases phase with
    | bare => exact ⟨hd.fragments, hd.marker, hd.final, hd.transaction, hd.manifest, rfl⟩
    | prepared manifest =>
      exact ⟨hd.fragments, hd.marker, hd.transaction, hd.uncommitted, rfl, hd.durable, hd.place⟩
    | committed manifest =>
      exact ⟨hd.marker, hd.committed, Or.inl rfl, hd.durable, hd.place, hd.fragments⟩

theorem after_run (hreads : ReadsBack lib) {d' : Disk} {events : List Event}
    (hrun : (compaction lib target).Run d events d')
    (hd : After lib target original markers phase d) :
    After lib target original markers phase d' := by
  refine hrun.preserves ?_ hd
  rintro d event _ ⟨later, hlater, hholds⟩ rfl
  exact (after_next hreads hholds event).trans hlater

theorem committed_of_returns (hreads : ReadsBack lib) {event : Event}
    (hd : phase.Holds lib target original markers d) (h : Returns lib target d event manifest) :
    Committed lib target original markers manifest (next lib target d event) := by
  obtain ⟨source, faults, calls, rfl, hreturned⟩ := h
  refine ((compactGeneration_safe hreads source hd).steps faults calls).2 manifest ?_
  cases hrest : (cutOff (compactGeneration lib target source) faults calls d).1 with
  | done found =>
    rw [hrest] at hreturned
    exact hrest.trans (congrArg _ (Option.some.inj hreturned))
  | fail message =>
    rw [hrest] at hreturned
    cases hreturned
  | call c rest =>
    rw [hrest] at hreturned
    cases hreturned

theorem run_events (d : Disk) (events : List Event) :
    (compaction lib target).Run d events (events.foldl (next lib target) d) := by
  induction events using List.reverseRecOn with
  | nil => exact .nil d
  | append_singleton events event ih =>
    rw [List.foldl_append]
    exact .snoc ih rfl

/-- **No row is lost.** However calls that compact and calls that retire follow one another, each
cut off anywhere and with any of its calls failing, a fragment is there unchanged, or the shards
of a committed manifest that accounts for it hold, month by month, the rows of all its fragments. -/
theorem nothing_lost (hreads : ReadsBack lib) {d₀ d : Disk} {events : List Event} (h₀ : Fresh d₀)
    (hrun : (compaction lib target).Run d₀ events d) (path : Path) :
    d.fragments path = d₀.fragments path ∨ ∃ manifest directory, d.manifest = some manifest ∧
      d.final = some directory ∧ path ∈ manifest.sourceFragments.map GenerationFragment.path ∧
      Lossless lib target d₀.fragments directory manifest := by
  have hbare : Phase.bare.Holds lib target d₀.fragments d₀.marker d₀ := h₀.bare
  obtain ⟨later, -, hholds⟩ := after_run hreads hrun hbare.after
  cases later with
  | bare => exact Or.inl (congrFun (Bare.fragments hholds) path)
  | prepared manifest => exact Or.inl (congrFun (Prepared.fragments hholds) path)
  | committed manifest =>
    rcases Committed.fragments hholds path with hkept | ⟨-, hpath⟩
    · exact Or.inl hkept
    · obtain ⟨directory, -, hfinal, hlossless⟩ := Committed.place hholds
      exact Or.inr ⟨manifest, directory, Committed.committed hholds, hfinal, hpath, hlossless⟩

/-- Rows are bytes here, all of August. -/
def augustLibrary : Library (Fin 256) where
  readParquet bytes := some (bytes.map UInt8.toFin)
  writeParquet rows := rows.map UInt8.ofFin
  numRows bytes := some bytes.length
  sha256 bytes :=
    if bytes = [51] then "4e07408562bedb8b60ce05c1decfe3ad16b72230967de01f640b7e4729b49fce"
    else "039058c6f2c0cb492c533b0a4d14ef77cc0f78abccced5287d84a1a2011cfb81"
  timestamp _ := some "2026-08-01 00:00:00.0"
  markerRows bytes := some (Nat.ofDigitChars 10 (bytes.map fun b => Char.ofNat b.toNat) 0)
  manifestSha256 _ := "manifest"

theorem augustLibrary_readsBack : ReadsBack augustLibrary := by
  intro rows
  show some ((rows.map UInt8.ofFin).map UInt8.toFin) = some rows
  rw [List.map_map]
  exact congrArg some (List.map_id _)

def august : Target := ⟨"nlwiki", "2026-08", ["2026-08"], none, none⟩

def augustPath (part : String) : Path :=
  august.metricInputRoot ++ ["year=2026", "year_month=2026-08", part]

def augustSource : GenerationManifest where
  schemaVersion := 2
  wiki := "nlwiki"
  snapshotVersion := "2026-08"
  sourcePlanSha256 := "plan"
  compactionManifestPath := none
  compactionManifestSha256 := none
  fragments :=
    [⟨.metricInput, "2026-08", augustPath "part-0", 2, 2, "first"⟩,
      ⟨.metricInput, "2026-08", augustPath "part-1", 1, 1, "second"⟩]

/-- Two fragments of three rows. -/
def ingested : Disk where
  fragments path :=
    if path = augustPath "part-0" then some [3, 1]
    else if path = augustPath "part-1" then some [2] else none
  marker sourceId := if sourceId = "2026-08" then some [51] else none
  staging := none
  final := none
  transaction := none
  manifest := none
  receipt := none

/-- Killed before the renamed directory is synced, taken up again, vouched for, and killed while
it is retired. -/
def augustEvents : List Event :=
  [.compact augustSource [] 15, .compact augustSource [.none, .before] 100,
    .compact augustSource [] 100, .vouch, .retire [] 7]

/-- One of the fragments is gone; the shards have its rows. -/
theorem nothing_lost_august :
    ∃ d manifest directory, (compaction augustLibrary august).Run ingested augustEvents d ∧
      d.fragments (augustPath "part-0") = none ∧ d.manifest = some manifest ∧
      d.final = some directory ∧
      Lossless augustLibrary august ingested.fragments directory manifest := by
  let d := augustEvents.foldl (next augustLibrary august) ingested
  have hrun : (compaction augustLibrary august).Run ingested augustEvents d := run_events ..
  have hgone : d.fragments (augustPath "part-0") = none := by decide +kernel
  rcases nothing_lost augustLibrary_readsBack ⟨rfl, rfl, rfl, rfl⟩ hrun (augustPath "part-0") with
    hkept | ⟨manifest, directory, hmanifest, hfinal, -, hlossless⟩
  · rw [hgone] at hkept
    exact absurd hkept (by decide)
  · exact ⟨d, manifest, directory, hrun, hgone, hmanifest, hfinal, hlossless⟩

/-- **What was returned stays.** After a call returned a manifest it is the one on the disk for
good, beside shards that are lossless, and every later call that returns one returns the same. -/
theorem returned_stays (hreads : ReadsBack lib) {d₀ d d' : Disk} {events later : List Event}
    {event : Event} {manifest : CompactionManifest} (h₀ : Fresh d₀)
    (hrun : (compaction lib target).Run d₀ events d)
    (hreturns : Returns lib target d event manifest)
    (hlater : (compaction lib target).Run (next lib target d event) later d') :
    d'.manifest = some manifest ∧
      (∃ directory, d'.final = some directory ∧
        Lossless lib target d₀.fragments directory manifest) ∧
      ∀ event' manifest', Returns lib target d' event' manifest' → manifest' = manifest := by
  have hbare : Phase.bare.Holds lib target d₀.fragments d₀.marker d₀ := h₀.bare
  obtain ⟨phase, -, hholds⟩ := after_run hreads hrun hbare.after
  have hcommitted : (Phase.committed manifest).Holds lib target d₀.fragments d₀.marker
      (next lib target d event) := committed_of_returns hreads hholds hreturns
  obtain ⟨_, rfl, hholds'⟩ := after_run hreads hlater hcommitted.after
  obtain ⟨directory, -, hfinal, hlossless⟩ := Committed.place hholds'
  refine ⟨Committed.committed hholds', ⟨directory, hfinal, hlossless⟩, ?_⟩
  intro event' manifest' hreturns'
  have hagain : (Phase.committed manifest').Holds lib target d₀.fragments d₀.marker
      (next lib target d' event') := committed_of_returns hreads hholds' hreturns'
  have hleads := (after_next hreads hholds' event').leads hagain
  exact Phase.committed.inj hleads

/-- The second call returns the manifest that the first, which was killed, prepared; so does any
after the fragments were retired. -/
theorem returned_stays_august :
    ∃ (d d' : Disk) (manifest : CompactionManifest), Returns augustLibrary august d
      (.compact augustSource [] 100) manifest ∧
      d'.fragments (augustPath "part-0") = none ∧ d'.manifest = some manifest := by
  let d := next augustLibrary august ingested (.compact augustSource [] 15)
  let later : List Event := [.vouch, .retire [] 100]
  let d' := later.foldl (next augustLibrary august)
    (next augustLibrary august d (.compact augustSource [] 100))
  have hrun : (compaction augustLibrary august).Run ingested [.compact augustSource [] 15] d :=
    run_events ingested [.compact augustSource [] 15]
  obtain ⟨hreturned, hgone⟩ : (returned (cutOff (compactGeneration augustLibrary august
      augustSource) [] 100 d).1).isSome = true ∧ d'.fragments (augustPath "part-0") = none := by
    decide +kernel
  obtain ⟨manifest, hmanifest⟩ := Option.isSome_iff_exists.mp hreturned
  have hreturns : Returns augustLibrary august d (.compact augustSource [] 100) manifest :=
    ⟨augustSource, [], 100, rfl, hmanifest⟩
  exact ⟨d, d', manifest, hreturns, hgone, (returned_stays augustLibrary_readsBack
    ⟨rfl, rfl, rfl, rfl⟩ hrun hreturns (run_events _ later)).1⟩

/-- **A crash is recovered from.** Once a transaction or a manifest is written, whatever happened
since, a call that nothing disturbs returns its manifest and leaves it committed, with the
fragments untouched. -/
theorem recovers (hreads : ReadsBack lib) {d₀ d : Disk} {events : List Event} (h₀ : Fresh d₀)
    (hrun : (compaction lib target).Run d₀ events d) {manifest : CompactionManifest}
    (hmanifest : d.manifest = some manifest ∨
      d.manifest = none ∧ ∃ transaction, d.transaction = some transaction ∧
        transaction.manifest = manifest) (source : GenerationManifest) :
    ∃ d', (compactGeneration lib target source).run Disk.perform d = (.ok manifest, d') ∧
      d'.manifest = some manifest ∧ d'.staging = none ∧ d'.fragments = d.fragments ∧
      ∃ directory, d'.final = some directory ∧
        Lossless lib target d₀.fragments directory manifest := by
  have hbare : Phase.bare.Holds lib target d₀.fragments d₀.marker d₀ := h₀.bare
  obtain ⟨phase, -, hholds⟩ := after_run hreads hrun hbare.after
  rcases hmanifest with hmanifest | ⟨hnone, transaction, htransaction, rfl⟩
  · obtain rfl : Phase.committed manifest = phase := by
      rw [← hholds.eq, phaseOf, hmanifest]
    obtain ⟨directory, hstaging, hfinal, hlossless⟩ := Committed.place hholds
    refine ⟨d, ?_, hmanifest, hstaging, rfl, directory, hfinal, hlossless⟩
    show (ask .manifestIsFile >>= fun _ => _).run Disk.perform d = _
    rw [Program.run_bind_ok _ (run_ask (a := true) (by
      show (Except.ok d.manifest.isSome, d) = _
      rw [hmanifest]
      rfl)), if_pos rfl]
    exact readManifest_run hholds
  · obtain rfl : Phase.prepared transaction.manifest = phase := by
      rw [← hholds.eq, phaseOf, hnone, htransaction]
    obtain ⟨directory, hlossless, hrecover⟩ := recoverPreparedTransaction_run hholds
    refine ⟨{ d with
      staging := none, final := some directory, manifest := some transaction.manifest,
      transaction := none }, ?_, rfl, rfl, rfl, directory, rfl, hlossless⟩
    show (ask .manifestIsFile >>= fun _ => _).run Disk.perform d = _
    rw [Program.run_bind_ok _ (run_ask (a := false) (by
      show (Except.ok d.manifest.isSome, d) = _
      rw [hnone]
      rfl)), if_neg (by simp), Program.run_bind_ok _ hrecover]
    rfl

/-- The renamed directory of a killed call becomes that of the manifest. -/
theorem recovers_august :
    ∃ d manifest d', d.manifest = none ∧ d.final.isSome = true ∧
      (compactGeneration augustLibrary august augustSource).run Disk.perform d =
      (.ok manifest, d') ∧
      d'.manifest = some manifest := by
  let d := next augustLibrary august ingested (.compact augustSource [] 15)
  have hrun : (compaction augustLibrary august).Run ingested [.compact augustSource [] 15] d :=
    run_events ingested [.compact augustSource [] 15]
  obtain ⟨hnone, hsome, hfinal⟩ : d.manifest = none ∧ d.transaction.isSome = true ∧
      d.final.isSome = true := by decide +kernel
  obtain ⟨transaction, htransaction⟩ := Option.isSome_iff_exists.mp hsome
  obtain ⟨d', hd', hmanifest, -⟩ := recovers augustLibrary_readsBack ⟨rfl, rfl, rfl, rfl⟩ hrun
    (Or.inr ⟨hnone, transaction, htransaction, rfl⟩) augustSource
  exact ⟨d, transaction.manifest, d', hnone, hfinal, hd', hmanifest⟩

/-- **What a receipt vouches for is retired in full.** Whatever happened before, a call that
nothing disturbs removes the fragments its manifest accounts for, those that an earlier call left
too, and no others. -/
theorem retires (hreads : ReadsBack lib) {d₀ d : Disk} {events : List Event} (h₀ : Fresh d₀)
    (hrun : (compaction lib target).Run d₀ events d) {manifest : CompactionManifest}
    (hreceipt : d.receipt = some manifest) :
    ∃ removed d', (retireSourceFragments lib target).run Disk.perform d = (.ok removed, d') ∧
      d'.manifest = some manifest ∧ d'.final = d.final ∧
      ∀ path, d'.fragments path = if path ∈ manifest.sourceFragments.map GenerationFragment.path
        then none else d₀.fragments path := by
  have hbare : Phase.bare.Holds lib target d₀.fragments d₀.marker d₀ := h₀.bare
  obtain ⟨phase, -, hholds⟩ := after_run hreads hrun hbare.after
  -- A receipt is written for a manifest only, so the run is past the commit.
  cases phase with
  | bare =>
    rw [Bare.receipt hholds] at hreceipt
    cases hreceipt
  | prepared manifest' =>
    rw [Prepared.receipt hholds] at hreceipt
    cases hreceipt
  | committed manifest' =>
    obtain rfl : manifest' = manifest := by
      rcases Committed.receipt hholds with hnone | hsome
      · rw [hnone] at hreceipt
        cases hreceipt
      · rw [hsome] at hreceipt
        exact Option.some.inj hreceipt
    obtain ⟨directory, -, hfinal, hlossless⟩ := Committed.place hholds
    obtain ⟨removed, hloop⟩ := retireFragments_run (d := d) hlossless.sourcePaths 0
    refine ⟨removed, d.without manifest'.sourceFragments, ?_, ?_, rfl, ?_⟩
    · show (receiptedManifest target >>= fun _ => _).run Disk.perform d = _
      rw [Program.run_bind_ok _ (receiptedManifest_run hholds hreceipt)]
      show (validateOutputsAt lib .final manifest' >>= fun _ => _).run Disk.perform d = _
      rw [Program.run_bind_ok _ (validateOutputsAt_run hlossless
        (show d.directory .final = some directory from hfinal))]
      exact hloop
    · have hcommitted : d.manifest = some manifest' := Committed.committed hholds
      exact hcommitted
    · intro path
      show (if manifest'.sourceFragments.any (·.path = path) then none else d.fragments path) = _
      have hany : manifest'.sourceFragments.any (·.path = path) = true ↔
          path ∈ manifest'.sourceFragments.map GenerationFragment.path := by
        simp
      by_cases hpath : path ∈ manifest'.sourceFragments.map GenerationFragment.path
      · rw [if_pos (hany.mpr hpath), if_pos hpath]
      · rw [if_neg fun h => hpath (hany.mp h), if_neg hpath]
        rcases Committed.fragments hholds path with hkept | ⟨-, hmem⟩
        · exact hkept
        · exact absurd hmem hpath

/-- What the killed call left is removed. -/
theorem retires_august :
    ∃ d removed d', (d.fragments (augustPath "part-1")).isSome = true ∧
      (retireSourceFragments augustLibrary august).run Disk.perform d = (.ok removed, d') ∧
      d'.final = d.final := by
  let d := augustEvents.foldl (next augustLibrary august) ingested
  have hrun : (compaction augustLibrary august).Run ingested augustEvents d := run_events ..
  obtain ⟨hsome, hleft⟩ : d.receipt.isSome = true ∧
      (d.fragments (augustPath "part-1")).isSome = true := by decide +kernel
  obtain ⟨manifest, hreceipt⟩ := Option.isSome_iff_exists.mp hsome
  obtain ⟨removed, d', hd', -, hfinal, -⟩ :=
    retires augustLibrary_readsBack ⟨rfl, rfl, rfl, rfl⟩ hrun hreceipt
  exact ⟨d, removed, d', hleft, hd', hfinal⟩

end WikiEcon.Ingest.Compaction
