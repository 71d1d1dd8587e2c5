import Mathlib.Data.List.Nodup
import WikiEcon.Lib.Transition
import WikiEcon.Publication.Selection

/-!
# Publications that are rolled back

However a publication and any number of rollbacks are cut off, and whichever of their calls fail,
every selected wiki is in one of three places: its old output is live, or in the backup with
nothing live, or in the backup with the candidate live (`Between`). What becomes of the merged
files meanwhile does not matter to this (`SameFiles`).

A rollback tells the places apart and gets from each of them back to the first
(`rollbackEntry_sure`), unless a manifest or a receipt no longer allows the old pointer
(`Restorable`). So nothing is lost in any run (`previous_kept`), and a rollback that nothing
disturbs restores everything (`rollback_restores`), where the merged files that it finds are intact
or can be made anew. This needs an old output that is a directory or a link to another candidate
(`Replaceable`): of a first publication there is nothing that shows how far its rollback got
(`first_publication_stuck`).
-/

namespace WikiEcon.Publication.Selection

open Programs Transition

variable {Content : Type} (proofs : Proofs) (runId : String) (before : Site Content)

/-! ## What a selection may leave -/

/-- The wiki is as it was. -/
structure Untouched (s : Site Content) (wiki : String) : Prop where
  active : s.active wiki = before.active wiki
  backup : s.backup wiki = .absent
  pointer : s.pointer wiki = before.pointer wiki

/-- Somewhere between what was and the candidate. -/
structure Between (s : Site Content) (entry : SelectionEntry) : Prop where
  output :
    (s.active entry.wiki = before.active entry.wiki ∧ s.backup entry.wiki = .absent) ∨
    (s.active entry.wiki = .absent ∧ s.backup entry.wiki = before.active entry.wiki) ∨
    (s.active entry.wiki = .link entry.expectedTarget ∧
      s.backup entry.wiki = before.active entry.wiki)
  pointer : s.pointer entry.wiki = before.pointer entry.wiki ∨
    s.pointer entry.wiki = some entry.snapshot

/-- The old output is a directory or a link to another candidate. -/
def Replaceable (wiki : String) (candidate : Path) (previous : Option Path) : Prop :=
  (∃ content, before.active wiki = .directory content ∧ previous = none) ∨
    ∃ path, previous = some path ∧ before.active wiki = .link (path ++ [wiki]) ∧ path ≠ candidate

/-- The manifests and receipts still allow the old pointer. -/
def Restorable (wiki : String) (previous : Option Path) : Prop :=
  ∀ snapshot, before.pointer wiki = some snapshot →
    (proofs.manifestIsFile wiki snapshot = true → proofs.publishable wiki snapshot = .ok ()) ∧
      (proofs.manifestIsFile wiki snapshot = false → ∃ path, previous = some path ∧
        (proofs.retentionIsFile wiki snapshot = false → proofs.publishable wiki snapshot = .ok ()) ∧
        (proofs.retentionIsFile wiki snapshot = true → proofs.retained wiki snapshot path = .ok ()))

/-- What an entry says of its candidate and of the wiki as it was. -/
structure Replaced (entry : SelectionEntry) : Prop where
  candidate : ∃ ready : ReadyWikiCandidate, entry.wiki = ready.wiki ∧
    entry.snapshot = ready.snapshot ∧ entry.candidateRelative = ready.candidateRelative
  previous : entry.previousCandidateRelative =
    activeCandidateRelative (before.active entry.wiki).target entry.wiki
  output : Replaceable before entry.wiki entry.candidateRelative entry.previousCandidateRelative
  pointer : entry.previousSnapshot = before.pointer entry.wiki
  hasBackup : entry.hasBackup = true

/-- A selection that is neither finished nor rolled back. -/
structure Working (selection : PublicationSelection) (s : Site Content) : Prop where
  named : validComponent runId = true
  journal : s.journal = some selection
  transaction : s.transaction = true
  identity : selection.schemaVersion = 1 ∧ selection.runId = runId ∧
    selection.state ∈ ["activating", "selected"]
  entries : ∀ entry ∈ selection.entries, Replaced before entry
  nodup : (selection.entries.map SelectionEntry.wiki).Nodup
  between : ∀ entry ∈ selection.entries, Between before s entry
  others : ∀ wiki ∉ selection.entries.map SelectionEntry.wiki, Untouched before s wiki

/-- Everything is as it was. -/
structure Settled (s : Site Content) : Prop where
  untouched : ∀ wiki, Untouched before s wiki
  transaction : s.transaction = false → s.journal = none
  finished : ∀ selection, s.journal = some selection → selection.state = "rolled_back"

/-- What holds after every event: no publication is under way, or there is one and its journal
says which. -/
def Inv (s : Site Content) : Prop :=
  Settled before s ∨ ∃ selection, Working runId before selection s

/-! ## The merged files -/

/-- At most the merged files, their backup and the temporary links are others. -/
structure SameFiles (s t : Site Content) : Prop where
  active : t.active = s.active
  backup : t.backup = s.backup
  pointer : t.pointer = s.pointer
  journal : t.journal = s.journal
  transaction : t.transaction = s.transaction

/-! ## One wiki at a time -/

/-- Only the wiki is touched. -/
structure SameBut (wiki : String) (s t : Site Content) : Prop where
  active : ∀ other, other ≠ wiki → t.active other = s.active other
  backup : ∀ other, other ≠ wiki → t.backup other = s.backup other
  pointer : ∀ other, other ≠ wiki → t.pointer other = s.pointer other
  journal : t.journal = s.journal
  transaction : t.transaction = s.transaction
  merged : t.merged = s.merged
  publicationBackup : t.publicationBackup = s.publicationBackup

variable {proofs runId before} {s t u : Site Content} {wiki : String} {entry : SelectionEntry}
  {selection : PublicationSelection}

theorem SameFiles.refl (s : Site Content) : SameFiles s s :=
  ⟨rfl, rfl, rfl, rfl, rfl⟩

theorem SameFiles.trans (h : SameFiles s t) (h' : SameFiles t u) : SameFiles s u :=
  ⟨h'.active.trans h.active, h'.backup.trans h.backup, h'.pointer.trans h.pointer,
    h'.journal.trans h.journal, h'.transaction.trans h.transaction⟩

theorem SameBut.refl (wiki : String) (s : Site Content) : SameBut wiki s s :=
  ⟨fun _ _ => rfl, fun _ _ => rfl, fun _ _ => rfl, rfl, rfl, rfl, rfl⟩

theorem SameBut.trans (h : SameBut wiki s t) (h' : SameBut wiki t u) : SameBut wiki s u :=
  ⟨fun other hother => (h'.active other hother).trans (h.active other hother),
    fun other hother => (h'.backup other hother).trans (h.backup other hother),
    fun other hother => (h'.pointer other hother).trans (h.pointer other hother),
    h'.journal.trans h.journal, h'.transaction.trans h.transaction, h'.merged.trans h.merged,
    h'.publicationBackup.trans h.publicationBackup⟩

theorem sameBut_setActive (s : Site Content) (wiki : String) (output : Output Content) :
    SameBut wiki s (s.setActive wiki output) :=
  ⟨fun _ hother => Function.update_of_ne hother .., fun _ _ => rfl, fun _ _ => rfl, rfl,
    rfl, rfl, rfl⟩

theorem sameBut_setBackup (s : Site Content) (wiki : String) (output : Output Content) :
    SameBut wiki s (s.setBackup wiki output) :=
  ⟨fun _ _ => rfl, fun _ hother => Function.update_of_ne hother .., fun _ _ => rfl, rfl,
    rfl, rfl, rfl⟩

theorem sameBut_setPointer (s : Site Content) (wiki : String) (snapshot : Option String) :
    SameBut wiki s (s.setPointer wiki snapshot) :=
  ⟨fun _ _ => rfl, fun _ _ => rfl, fun _ hother => Function.update_of_ne hother .., rfl,
    rfl, rfl, rfl⟩

theorem sameBut_setTemporary (s : Site Content) (wiki : String) (link : Option Path) :
    SameBut wiki s (s.setTemporary wiki link) :=
  ⟨fun _ _ => rfl, fun _ _ => rfl, fun _ _ => rfl, rfl, rfl, rfl, rfl⟩

@[simp] theorem setActive_active (s : Site Content) (wiki : String) (output : Output Content) :
    (s.setActive wiki output).active wiki = output := Function.update_self ..

@[simp] theorem setBackup_backup (s : Site Content) (wiki : String) (output : Output Content) :
    (s.setBackup wiki output).backup wiki = output := Function.update_self ..

@[simp] theorem setPointer_pointer (s : Site Content) (wiki : String) (snapshot : Option String) :
    (s.setPointer wiki snapshot).pointer wiki = snapshot := Function.update_self ..

@[simp] theorem setTemporary_temporary (s : Site Content) (wiki : String) (link : Option Path) :
    (s.setTemporary wiki link).temporary wiki = link := Function.update_self ..

/-- An entry that nothing has moved is in the first of the three places. -/
theorem Untouched.between (h : Untouched before s entry.wiki) : Between before s entry :=
  ⟨Or.inl ⟨h.active, h.backup⟩, Or.inl h.pointer⟩

/-- What is done for one wiki is not seen by another. -/
theorem Untouched.same {other : String} (h : Untouched before s other) (hsame : SameBut wiki s t)
    (hother : other ≠ wiki) : Untouched before t other :=
  ⟨(hsame.active other hother).trans h.active, (hsame.backup other hother).trans h.backup,
    (hsame.pointer other hother).trans h.pointer⟩

/-- A wiki that goes on between what was and its candidate leaves the selection as it is. -/
theorem Working.step (h : Working runId before selection s) (hentry : entry ∈ selection.entries)
    (hsame : SameBut entry.wiki s t) (hbetween : Between before t entry) :
    Working runId before selection t := by
  refine ⟨h.named, hsame.journal.trans h.journal, hsame.transaction.trans h.transaction, h.identity,
    h.entries, h.nodup, fun other hother => ?_, fun wiki hwiki => ?_⟩
  · by_cases hwiki : other.wiki = entry.wiki
    · rw [List.inj_on_of_nodup_map h.nodup hother hentry hwiki]
      exact hbetween
    · obtain ⟨houtput, hpointer⟩ := h.between other hother
      constructor
      · rw [hsame.active _ hwiki, hsame.backup _ hwiki]
        exact houtput
      · rw [hsame.pointer _ hwiki]
        exact hpointer
  · refine (h.others wiki hwiki).same hsame fun heq => hwiki ?_
    exact heq ▸ List.mem_map_of_mem hentry

/-- There is something to move into the backup. -/
theorem Replaced.isPresent (h : Replaced before entry) :
    (before.active entry.wiki).isPresent = true := by
  rcases h.output with ⟨content, hcontent, -⟩ | ⟨path, -, hpath, -⟩
  · rw [hcontent]
    rfl
  · rw [hpath]
    rfl

/-- The old output is told from the candidate, and is what `previous_is_live` looks for. -/
theorem Replaced.live (h : Replaced before entry) :
    (before.active entry.wiki).target ≠ some entry.expectedTarget ∧
      entry.previousIsLive (before.active entry.wiki).target (before.active entry.wiki).isDirectory
        = true := by
  rcases h.output with ⟨content, hcontent, hprevious⟩ | ⟨path, hprevious, hpath, hne⟩
  · rw [hcontent, SelectionEntry.previousIsLive, hprevious]
    exact ⟨by simp [Output.target], rfl⟩
  · rw [hpath, SelectionEntry.previousIsLive, hprevious]
    refine ⟨fun heq => hne ?_, decide_eq_true rfl⟩
    exact List.append_cancel_right (Option.some.inj heq)

/-- Renaming fails onto something that is there; where nothing is, it moves the output. -/
theorem renameOnto_absent {output : Output Content} (h : output.isPresent = true) :
    renameOnto output .absent = .ok output := by
  cases output with
  | absent => cases h
  | directory content => rfl
  | link target => rfl

theorem inv_of_working (t : Site Content) (h : Working runId before selection t) :
    Inv runId before t :=
  Or.inr ⟨selection, h⟩

/-- A journal that is not finished is of a selection that is under way. -/
theorem Inv.working (h : Inv runId before s) (hjournal : s.journal = some selection)
    (hunfinished : selection.state ≠ "rolled_back") : Working runId before selection s := by
  rcases h with hsettled | ⟨found, hworking⟩
  · exact absurd (hsettled.finished selection hjournal) hunfinished
  · rw [hworking.journal] at hjournal
    rw [← Option.some.inj hjournal]
    exact hworking

/-- Every wiki is as it was, and the journal does not say so yet. -/
structure RolledBack (runId : String) (before : Site Content)
    (selection : PublicationSelection) (s : Site Content) : Prop where
  working : Working runId before selection s
  untouched : ∀ wiki, Untouched before s wiki

variable (before) in
/-- Everything is as it was, and the journal of the selection says so. -/
def Recorded (selection : PublicationSelection) (s : Site Content) : Prop :=
  Settled before s ∧ s.journal = some { selection with state := "rolled_back" }

/-- The place of an entry is read off its output, its backup and its pointer. -/
theorem SameFiles.between (h : SameFiles s t) (hs : Between before s entry) :
    Between before t entry := by
  obtain ⟨houtput, hpointer⟩ := hs
  rw [← h.active, ← h.backup] at houtput
  rw [← h.pointer] at hpointer
  exact ⟨houtput, hpointer⟩

theorem SameFiles.untouched (h : SameFiles s t) (hs : Untouched before s wiki) :
    Untouched before t wiki :=
  ⟨(congrFun h.active wiki).trans hs.active, (congrFun h.backup wiki).trans hs.backup,
    (congrFun h.pointer wiki).trans hs.pointer⟩

theorem SameFiles.working (h : SameFiles s t) (hs : Working runId before selection s) :
    Working runId before selection t :=
  ⟨hs.named, h.journal.trans hs.journal, h.transaction.trans hs.transaction, hs.identity,
    hs.entries, hs.nodup,
    fun entry hentry => h.between (hs.between entry hentry),
    fun wiki hwiki => h.untouched (hs.others wiki hwiki)⟩

theorem SameFiles.settled (h : SameFiles s t) (hs : Settled before s) : Settled before t := by
  refine ⟨fun wiki => h.untouched (hs.untouched wiki), fun htransaction => ?_,
    fun selection hselection => ?_⟩
  · rw [h.journal]
    exact hs.transaction (h.transaction.symm.trans htransaction)
  · exact hs.finished selection (h.journal.symm.trans hselection)

theorem SameFiles.rolledBack (h : SameFiles s t)
    (hs : RolledBack runId before selection s) : RolledBack runId before selection t :=
  ⟨h.working hs.working, fun wiki => h.untouched (hs.untouched wiki)⟩

theorem SameFiles.inv (h : SameFiles s t) (hs : Inv runId before s) :
    Inv runId before t := by
  rcases hs with hsettled | ⟨selection, hworking⟩
  · exact Or.inl (h.settled hsettled)
  · exact Or.inr ⟨selection, h.working hworking⟩

theorem SameFiles.recorded (h : SameFiles s t) (hs : Recorded before selection s) :
    Recorded before selection t :=
  ⟨h.settled hs.1, h.journal.trans hs.2⟩

/-! ## The journal of a selection that is under way -/

/-- What a link to a candidate names is a path of the form that candidates have. -/
theorem activeCandidateRelative_eq_some {target : Option Path} {path : Path}
    (h : activeCandidateRelative target wiki = some path) :
    ∃ snapshot run, path = ["_candidates", wiki, snapshot, run] ∧
      isSnapshotVersion snapshot = true ∧ validComponent run = true := by
  unfold activeCandidateRelative at h
  split at h
  · split at h
    · rename_i hidentity
      obtain ⟨rfl, hsnapshot, hrun, -⟩ := hidentity
      exact ⟨_, _, (Option.some.inj h).symm, hsnapshot, hrun⟩
    · cases h
  · cases h

/-- Components that are valid make a directory that is one. -/
theorem wikiCandidateDir_eq_ok {wiki snapshot run : String} (hwiki : validComponent wiki = true)
    (hsnapshot : isSnapshotVersion snapshot = true) (hrun : validComponent run = true) :
    wikiCandidateDir wiki snapshot run = .ok ["_candidates", wiki, snapshot, run] := by
  unfold wikiCandidateDir ensure
  rw [if_pos hwiki, if_pos hsnapshot, if_pos hrun]
  rfl

/-- An entry that an activation wrote passes its check. -/
theorem Replaced.validateEntry (h : Replaced before entry) {wikis : List String}
    (hnew : entry.wiki ∉ wikis) : validateEntry wikis entry = .ok (entry.wiki :: wikis) := by
  obtain ⟨ready, hwiki, hsnapshot, hcandidate⟩ := h.candidate
  obtain ⟨hvalid, hversion, hrun⟩ := ready.identified
  have hprevious : validatePrevious entry.wiki entry.previousCandidateRelative = .ok () := by
    rw [h.previous]
    cases hpath : activeCandidateRelative (before.active entry.wiki).target entry.wiki with
    | none => rfl
    | some path =>
      obtain ⟨snapshot, run, rfl, hsnapshot, hrun⟩ := activeCandidateRelative_eq_some hpath
      have hidentity : directoryIdentity ["_candidates", entry.wiki, snapshot, run]
          = some (snapshot, run) := by
        show (if (validComponent run && isSnapshotVersion snapshot) = true then _ else _) = _
        rw [hrun, hsnapshot]
        rfl
      show (context (directoryIdentity _) _ >>= _) = _
      rw [context_eq_ok.mpr hidentity]
      show (wikiCandidateDir entry.wiki snapshot run >>= _) = _
      rw [wikiCandidateDir_eq_ok (hwiki ▸ hvalid) hsnapshot hrun]
      exact (ensure_eq_ok (u := ())).mpr rfl
  unfold Selection.validateEntry
  rw [hprevious, (ensure_eq_ok (u := ())).mpr hnew, hwiki, hsnapshot, hcandidate,
    (ensure_eq_ok (u := ())).mpr hvalid,
    (ensure_eq_ok (u := ())).mpr hversion]
  show (wikiCandidateDir ready.wiki ready.snapshot ready.runId >>= _) = _
  rw [wikiCandidateDir_eq_ok hvalid hversion hrun]
  have hsame : ready.candidateRelative = ["_candidates", ready.wiki, ready.snapshot, ready.runId] :=
    rfl
  show (ensure (ready.candidateRelative = _) _ >>= _) = _
  rw [(ensure_eq_ok (u := ())).mpr hsame]
  rfl

/-- The journal of a publication under way passes the validation that a rollback begins with, so
this is not where it stops. -/
theorem Working.validate (h : Working runId before selection s) :
    validatePublicationSelection runId selection = .ok () := by
  have hentries : ∀ (entries : List SelectionEntry) (wikis : List String),
    (∀ entry ∈ entries, Replaced before entry) →
      (entries.map SelectionEntry.wiki).Nodup →
      (∀ wiki ∈ wikis, wiki ∉ entries.map SelectionEntry.wiki) →
      ∃ found, entries.foldlM validateEntry wikis = .ok found := by
    intro entries
    induction entries with
    | nil => exact fun wikis _ _ _ => ⟨wikis, rfl⟩
    | cons entry rest ih =>
      intro wikis hreplaced hnodup hnew
      obtain ⟨hfirst, hrest⟩ := List.nodup_cons.mp hnodup
      rw [List.foldlM_cons, (hreplaced entry List.mem_cons_self).validateEntry
        fun hmem => hnew _ hmem List.mem_cons_self]
      refine ih _ (fun other hother => hreplaced other (List.mem_cons_of_mem _ hother)) hrest ?_
      intro wiki hwiki
      rcases List.mem_cons.mp hwiki with rfl | hwiki
      · exact hfirst
      · exact fun hmem => hnew wiki hwiki (List.mem_cons_of_mem _ hmem)
  obtain ⟨hschema, hrun, hstate⟩ := h.identity
  obtain ⟨found, hfound⟩ := hentries selection.entries [] h.entries h.nodup
    fun wiki hwiki => absurd hwiki List.not_mem_nil
  have hknown : selection.state ∈ selectionStates := by
    unfold selectionStates
    rcases List.mem_pair.mp hstate with hstate | hstate
    · simp [hstate]
    · simp [hstate]
  have hnamed : selection.runId = runId ∧ validComponent selection.runId = true :=
    ⟨hrun, hrun.symm ▸ h.named⟩
  unfold validatePublicationSelection
  rw [(ensure_eq_ok (u := ())).mpr hschema, (ensure_eq_ok (u := ())).mpr hnamed,
    (ensure_eq_ok (u := ())).mpr hknown, hfound]
  rfl

/-! ## Rules -/

variable [Merging Content]

theorem perform_linkTemporary {target : Path} (h : s.temporary wiki = none) :
    s.perform (.linkTemporary wiki target) = (.ok (), s.setTemporary wiki (some target)) := by
  show (if s.temporary wiki = none then _ else _) = _
  rw [if_pos h]

theorem perform_renameTemporary {target : Path} (h : s.temporary wiki = some target)
    (hactive : s.active wiki = .absent) : s.perform (.renameTemporary wiki)
      = (.ok (), (s.setActive wiki (.link target)).setTemporary wiki none) := by
  unfold Site.perform
  simp only [h, hactive]
  rfl

/-- Whatever calls fail, the invariant is kept and the result has the property. -/
abbrev Safe {α : Type} (inv : Site Content → Prop) (post : α → Site Content → Prop)
    (action : Action α) (s : Site Content) : Prop :=
  Withstands Call.fallible Site.perform "I/O error" inv post action s

/-- And if none does, and what is given holds, the program succeeds. -/
abbrev Sure {α : Type} (given : Prop) (inv : Site Content → Prop) (post : α → Site Content → Prop)
    (action : Action α) (s : Site Content) : Prop :=
  Accomplishes Call.fallible Site.perform "I/O error" given inv post action s

section Rules

variable {given : Prop} {inv : Site Content → Prop}

/-- A check reads and does not write. -/
theorem check_safe {α : Type} (hs : inv s) (x : Except String α) :
    Safe inv (fun a t => t = s ∧ x = .ok a) (check x) s :=
  .checked hs x

/-- One call keeps an invariant if the state it leads to satisfies it. -/
theorem ask_safe (hs : inv s) (c : Call) (hafter : inv (s.perform c).2) :
    Safe inv (fun a t => t = (s.perform c).2 ∧ (s.perform c).1 = .ok a) (ask c) s :=
  .asked hs c hafter

/-- A check that the assumption lets pass does not stop the rollback. -/
theorem check_sure {α : Type} {x : Except String α} (hs : inv s) (hx : given → ∃ a, x = .ok a) :
    Sure given inv (fun a t => t = s ∧ x = .ok a) (check x) s :=
  .check hs hx

/-- A call whose answer is known is got through, unless a fault hits it. -/
theorem ask_sure {c : Call} {a : c.Answer} (hs : inv s) (hc : s.perform c = (.ok a, t))
    (ht : inv t) :
    Sure given inv (fun b u => b = a ∧ u = t) (ask c) s :=
  .ask hs hc ht

theorem performed_safe {c : Call} {a : c.Answer} (hs : inv s) (hc : s.perform c = (.ok a, t))
    (ht : inv t) : Safe inv (fun b u => b = a ∧ u = t) (ask c) s :=
  (ask_sure hs hc ht : Sure True inv _ (ask c) s).withstands

/-- The loop over the entries, by what holds between two of them (`mid`). -/
theorem forEach_safe {α : Type} {l : List α} {body : α → Action Unit}
    (mid : List α → Site Content → Prop)
    (hbody : ∀ done a rest, l = done ++ a :: rest → ∀ t, inv t → mid done t →
      Safe inv (fun _ => mid (done ++ [a])) (body a) t)
    (hs : inv s) (hmid : mid [] s) : Safe inv (fun _ => mid l) (forEach l body) s := by
  have hloop : Safe inv (fun _ => mid l) (l.foldlM (fun _ a => body a) ()) s :=
    .foldlM (fun done a rest hl t _ ht h => hbody done a rest hl t ht h) hs hmid
  exact hloop

/-- The same for a loop that is got through, where each turn is. -/
theorem forEach_sure {α : Type} {l : List α} {body : α → Action Unit}
    (mid : List α → Site Content → Prop)
    (hbody : ∀ done a rest, l = done ++ a :: rest → ∀ t, inv t → mid done t →
      Sure given inv (fun _ => mid (done ++ [a])) (body a) t)
    (hs : inv s) (hmid : mid [] s) : Sure given inv (fun _ => mid l) (forEach l body) s := by
  have hloop : Sure given inv (fun _ => mid l) (l.foldlM (fun _ a => body a) ()) s :=
    .foldlM (fun done a rest hl t _ ht h => hbody done a rest hl t ht h) hs hmid
  exact hloop

end Rules

/-! ## Rolling back one wiki -/

variable (proofs before) in
/-- The old pointers of all entries are allowed. -/
def AllRestorable (selection : PublicationSelection) : Prop :=
  ∀ entry ∈ selection.entries, Restorable proofs before entry.wiki entry.previousCandidateRelative

/-- The old pointer is put back, if a manifest or a receipt allows it. -/
theorem restorePointer_sure (h : Working runId before selection s)
    (hentry : entry ∈ selection.entries) (hbetween : Between before s entry) :
    Sure (AllRestorable proofs before selection) (Working runId before selection)
      (fun _ t => t = s.setPointer entry.wiki (before.pointer entry.wiki))
      (restorePointer proofs entry) s := by
  have hafter : Working runId before selection
      (s.setPointer entry.wiki (before.pointer entry.wiki)) :=
    h.step hentry (sameBut_setPointer ..) ⟨hbetween.output, Or.inl (setPointer_pointer ..)⟩
  unfold restorePointer
  rw [(h.entries entry hentry).pointer]
  cases hsnapshot : before.pointer entry.wiki with
  | none =>
    rw [hsnapshot] at hafter
    exact (ask_sure (c := .removePointer entry.wiki) (a := ()) h rfl hafter).mono fun _ t ht => ht.2
  | some snapshot =>
    rw [hsnapshot] at hafter
    -- one of the checks, and then the pointer
    have hchecked : ∀ x : Except String Unit,
        (AllRestorable proofs before selection → x = .ok ()) →
        Sure (AllRestorable proofs before selection) (Working runId before selection)
          (fun _ t => t = s.setPointer entry.wiki (some snapshot))
          (check x >>= fun _ => ask (.writePointer entry.wiki snapshot)) s := by
      intro x hx
      refine (check_sure h fun hgiven => ⟨(), hx hgiven⟩).bind ?_
      rintro _ _ - ⟨rfl, -⟩
      exact (ask_sure (a := ()) h rfl hafter).mono fun _ t ht => ht.2
    show Sure _ _ _ (if proofs.manifestIsFile entry.wiki snapshot = true then _ else _) s
    by_cases hfile : proofs.manifestIsFile entry.wiki snapshot = true
    · rw [if_pos hfile]
      exact hchecked _ fun hgiven => (hgiven entry hentry snapshot hsnapshot).1 hfile
    · have hnone := Bool.eq_false_iff.mpr hfile
      rw [if_neg hfile]
      have hreceipt := fun hgiven : AllRestorable proofs before selection =>
        (hgiven entry hentry snapshot hsnapshot).2 hnone
      refine (check_sure h fun hgiven => ?_).bind ?_
      · obtain ⟨path, hprevious, -⟩ := hreceipt hgiven
        exact ⟨path, context_eq_ok.mpr hprevious⟩
      rintro previous _ - ⟨rfl, hprevious⟩
      have hprevious := context_eq_ok.mp hprevious
      unfold setCurrentSnapshotForReadyCandidate
      by_cases hretention : proofs.retentionIsFile entry.wiki snapshot = true
      · rw [if_neg (by simp [hnone, hretention])]
        refine hchecked _ fun hgiven => ?_
        obtain ⟨path, hpath, -, hretained⟩ := hreceipt hgiven
        rw [Option.some.inj (hprevious.symm.trans hpath)]
        exact hretained hretention
      · rw [if_pos (by simp [hretention])]
        refine hchecked _ fun hgiven => ?_
        obtain ⟨path, -, hpublishable, -⟩ := hreceipt hgiven
        exact hpublishable (Bool.eq_false_iff.mpr hretention)

/-- The old output is put back, and then the pointer. -/
theorem restoreEntry_sure (h : Working runId before selection s)
    (hentry : entry ∈ selection.entries) :
    Sure (AllRestorable proofs before selection) (Working runId before selection)
      (fun _ t => Untouched before t entry.wiki ∧ SameBut entry.wiki s t)
      (restoreEntry proofs entry
        (decide ((s.active entry.wiki).target = some entry.expectedTarget)))
      s := by
  have hreplaced := h.entries entry hentry
  obtain ⟨hother, -⟩ := hreplaced.live
  have hpresent := hreplaced.isPresent
  -- without the link to the candidate
  have hunlinked : Sure (AllRestorable proofs before selection) (Working runId before selection)
      (fun _ t => SameBut entry.wiki s t ∧
        ((t.active entry.wiki = before.active entry.wiki ∧ t.backup entry.wiki = .absent) ∨
          (t.active entry.wiki = .absent ∧ t.backup entry.wiki = before.active entry.wiki)))
      (removeSelectionLink entry
        (decide ((s.active entry.wiki).target = some entry.expectedTarget))) s := by
    unfold removeSelectionLink
    rcases (h.between entry hentry).output with
      ⟨hactive, hbackup⟩ | ⟨hactive, hbackup⟩ | ⟨hactive, hbackup⟩
    · rw [hactive, if_neg (by simpa using hother)]
      exact .done h ⟨.refl .., Or.inl ⟨hactive, hbackup⟩⟩
    · rw [hactive, if_neg (by simp [Output.target])]
      exact .done h ⟨.refl .., Or.inr ⟨hactive, hbackup⟩⟩
    · have hremoved : s.perform (.removeLink entry.wiki) =
        (.ok (), s.setActive entry.wiki .absent) := by
        show (Except.ok (), if (s.active entry.wiki).target.isSome then _ else _) = _
        rw [hactive]
        rfl
      rw [hactive, if_pos (by simp [Output.target])]
      refine (ask_sure h hremoved (h.step hentry (sameBut_setActive ..)
        ⟨Or.inr (Or.inl ⟨setActive_active .., hbackup⟩), (h.between entry hentry).pointer⟩)).mono ?_
      rintro _ _ ⟨-, rfl⟩
      exact ⟨sameBut_setActive .., Or.inr ⟨setActive_active .., hbackup⟩⟩
  refine hunlinked.bind fun _ t ht ⟨hsame, hplace⟩ => ?_
  have hpointer := (ht.between entry hentry).pointer
  -- with the backup in its place
  have hrestored : Sure (AllRestorable proofs before selection) (Working runId before selection)
      (fun _ u => SameBut entry.wiki s u ∧ u.active entry.wiki = before.active entry.wiki ∧
        u.backup entry.wiki = .absent) (restoreBackup entry) t := by
    unfold restoreBackup backupExists
    rw [if_pos hreplaced.hasBackup]
    refine (ask_sure ht rfl ht).bind ?_
    rintro _ t - ⟨rfl, rfl⟩
    rcases hplace with ⟨hactive, hbackup⟩ | ⟨hactive, hbackup⟩
    · rw [hbackup, if_neg (by simp [Output.isPresent])]
      exact .done ht ⟨hsame, hactive, hbackup⟩
    · have hmoved : t.perform (.restoreBackup entry.wiki) = (.ok (),
          (t.setActive entry.wiki (before.active entry.wiki)).setBackup entry.wiki .absent) := by
        show renamed t (t.backup entry.wiki) (t.active entry.wiki) _ = _
        rw [renamed, hbackup, hactive, renameOnto_absent hpresent]
      have hboth : SameBut entry.wiki t
          ((t.setActive entry.wiki (before.active entry.wiki)).setBackup entry.wiki .absent) :=
        (sameBut_setActive ..).trans (sameBut_setBackup ..)
      rw [hbackup, if_pos hpresent]
      refine (ask_sure ht hmoved (ht.step hentry hboth
        ⟨Or.inl ⟨setActive_active .., setBackup_backup ..⟩, hpointer⟩)).mono ?_
      rintro _ _ ⟨-, rfl⟩
      exact ⟨hsame.trans hboth, setActive_active .., setBackup_backup ..⟩
  refine hrestored.bind fun _ u hu ⟨hsame', hactive, hbackup⟩ => ?_
  have hlinked : Sure (AllRestorable proofs before selection) (Working runId before selection)
    (fun _ v => v = u)
      (relinkPrevious proofs entry) u := by
    refine (ask_sure hu (show u.perform (.activeIsPresent entry.wiki) = (.ok true, u) by
      show (Except.ok (u.active entry.wiki).isPresent, u) = _
      rw [hactive, hpresent]) hu).bind ?_
    rintro _ _ - ⟨rfl, rfl⟩
    cases entry.previousCandidateRelative with
    | none => exact .done hu rfl
    | some previous => exact .done hu rfl
  refine hlinked.bind ?_
  rintro _ _ - rfl
  refine (restorePointer_sure hu hentry (hu.between entry hentry)).bind ?_
  rintro _ _ hv rfl
  refine (ask_sure (c := .refreshIndex entry.wiki) (a := ()) hv rfl hv).mono ?_
  rintro _ _ ⟨-, rfl⟩
  exact ⟨⟨hactive, hbackup, setPointer_pointer ..⟩, hsame'.trans (sameBut_setPointer ..)⟩

/-- From each of the three places one entry gets back to the first, whatever cut the publication
off. -/
theorem rollbackEntry_sure (h : Working runId before selection s)
    (hentry : entry ∈ selection.entries) :
    Sure (AllRestorable proofs before selection) (Working runId before selection)
      (fun _ t => Untouched before t entry.wiki ∧ SameBut entry.wiki s t)
      (rollbackEntry proofs entry) s := by
  have hreplaced := h.entries entry hentry
  obtain ⟨hother, hlive⟩ := hreplaced.live
  have hpresent := hreplaced.isPresent
  have hbetween := h.between entry hentry
  unfold rollbackEntry backupExists
  rw [if_pos hreplaced.hasBackup]
  refine (ask_sure (c := .readActive entry.wiki) h rfl h).bind ?_
  rintro _ s - ⟨rfl, rfl⟩
  refine (ask_sure (c := .activeIsDirectory entry.wiki) h rfl h).bind ?_
  rintro _ s - ⟨rfl, rfl⟩
  refine (ask_sure (c := .backupIsPresent entry.wiki) h rfl h).bind ?_
  rintro _ s - ⟨rfl, rfl⟩
  refine (ask_sure (c := .readPointer entry.wiki) h rfl h).bind ?_
  rintro _ s - ⟨rfl, rfl⟩
  -- whether the entry needs nothing
  by_cases hdone : (!decide ((s.active entry.wiki).target = some entry.expectedTarget)
      && !(s.backup entry.wiki).isPresent
      && entry.previousIsLive (s.active entry.wiki).target (s.active entry.wiki).isDirectory
      && decide (s.pointer entry.wiki = entry.previousSnapshot)) = true
  · rw [if_pos hdone]
    simp only [Bool.and_eq_true, Bool.not_eq_true', decide_eq_true_eq] at hdone
    obtain ⟨⟨⟨-, hnobackup⟩, -⟩, hpointer⟩ := hdone
    rcases hbetween.output with ⟨hactive, hbackup⟩ | ⟨-, hbackup⟩ | ⟨-, hbackup⟩
    · exact .done h ⟨⟨hactive, hbackup, hpointer.trans hreplaced.pointer⟩, .refl ..⟩
    · rw [hbackup, hpresent] at hnobackup
      cases hnobackup
    · rw [hbackup, hpresent] at hnobackup
      cases hnobackup
  · rw [if_neg hdone]
    refine (ask_sure (c := .activeIsPresent entry.wiki) h rfl h).bind ?_
    rintro _ s - ⟨rfl, rfl⟩
    have hsomething : (s.active entry.wiki).isPresent = true ∨
      (s.backup entry.wiki).isPresent = true := by
      rcases hbetween.output with ⟨hactive, -⟩ | ⟨-, hbackup⟩ | ⟨-, hbackup⟩
      · exact Or.inl (hactive ▸ hpresent)
      · exact Or.inr (hbackup ▸ hpresent)
      · exact Or.inr (hbackup ▸ hpresent)
    have hproven : (decide ((s.active entry.wiki).target = some entry.expectedTarget)
        || (s.backup entry.wiki).isPresent
        || entry.previousIsLive (s.active entry.wiki).target (s.active entry.wiki).isDirectory)
          = true := by
      rcases hbetween.output with ⟨hactive, -⟩ | ⟨-, hbackup⟩ | ⟨-, hbackup⟩
      · rw [hactive, hlive, Bool.or_true]
      · rw [hbackup, hpresent, Bool.or_true, Bool.true_or]
      · rw [hbackup, hpresent, Bool.or_true, Bool.true_or]
    rw [if_neg ?_]
    · refine (check_sure h fun _ => ⟨(), ensure_eq_ok.mpr hproven⟩).bind ?_
      rintro _ s - ⟨rfl, -⟩
      exact restoreEntry_sure h hentry
    · simp only [Bool.and_eq_true, Bool.not_eq_true']
      rintro ⟨⟨⟨-, hnothing⟩, hnobackup⟩, -⟩
      rcases hsomething with hsomething | hsomething
      · exact absurd (hsomething.symm.trans hnothing) (by simp)
      · exact absurd (hsomething.symm.trans hnobackup) (by simp)

/-! ## Rolling back all -/

/-- **A rollback restores every wiki**, wherever it and the activation were cut off before. -/
theorem rollbackSelectionFiles_sure (h : Working runId before selection s) :
    Sure (AllRestorable proofs before selection) (Working runId before selection)
      (fun _ t => (∀ wiki, Untouched before t wiki) ∧ t.merged = s.merged ∧
        t.publicationBackup = s.publicationBackup) (rollbackSelectionFiles proofs selection) s := by
  have hnodup : (selection.entries.reverse.map SelectionEntry.wiki).Nodup := by
    rw [List.map_reverse, List.nodup_reverse]
    exact h.nodup
  have hloop : Sure (AllRestorable proofs before selection) (Working runId before selection)
      (fun _ t => Working runId before selection t ∧ (t.merged = s.merged ∧
        t.publicationBackup = s.publicationBackup) ∧
        ∀ entry ∈ selection.entries.reverse, Untouched before t entry.wiki)
      (rollbackSelectionFiles proofs selection) s := by
    refine forEach_sure (fun (done : List SelectionEntry) t => Working runId before selection t ∧
        (t.merged = s.merged ∧ t.publicationBackup = s.publicationBackup) ∧
        ∀ entry ∈ done, Untouched before t entry.wiki) (fun done entry rest hdone t ht hall => ?_)
      h ⟨h, ⟨rfl, rfl⟩, fun entry hentry => by cases hentry⟩
    obtain ⟨-, ⟨hmerged, hbackup⟩, hall⟩ := hall
    have hentry : entry ∈ selection.entries := by
      rw [← List.mem_reverse, hdone]
      exact List.mem_append_right _ List.mem_cons_self
    refine (rollbackEntry_sure ht hentry).keeps.mono fun _ u ⟨hu, huntouched, hsame⟩ =>
      ⟨hu, ⟨hsame.merged.trans hmerged, hsame.publicationBackup.trans hbackup⟩,
        fun other hother => ?_⟩
    rcases List.mem_append.mp hother with hother | hother
    · refine (hall other hother).same hsame fun heq => ?_
      rw [hdone, List.map_append, List.map_cons] at hnodup
      exact (List.nodup_append.mp hnodup).2.2 _ (List.mem_map_of_mem hother)
        _ List.mem_cons_self heq
    · rw [List.mem_singleton.mp hother]
      exact huntouched
  refine hloop.mono fun _ t ⟨ht, hmerged, hall⟩ => ⟨fun wiki => ?_, hmerged⟩
  by_cases hwiki : wiki ∈ selection.entries.map SelectionEntry.wiki
  · obtain ⟨entry, hentry, rfl⟩ := List.mem_map.mp hwiki
    exact hall entry (List.mem_reverse.mpr hentry)
  · exact ht.others wiki hwiki

/-- All entries, one after another: those done are back in the first place, the others still
somewhere between. -/
theorem rollbackSelectionFiles_safe (h : Working runId before selection s) :
    Safe (Inv runId before) (fun _ t => RolledBack runId before selection t)
      (rollbackSelectionFiles proofs selection) s := by
  have hfiles : Sure (AllRestorable proofs before selection) _ _
      (rollbackSelectionFiles proofs selection) s := rollbackSelectionFiles_sure h
  exact (hfiles.withstands.keeps.mono fun _ _ ht => ⟨ht.1, ht.2.1⟩).weaken inv_of_working

/-! ## Calls that do not touch the wikis -/

/-- The calls that are about the merged files. -/
def Call.isMerged : Call → Bool
  | .verify => true
  | .currentSiteMatches => true
  | .readGate => true
  | .restorePublicationArtifacts => true
  | .removePublicationArtifactBackup => true
  | .beginSelectedRun _ _ => true
  | .mergeOutputs _ => true
  | .validate _ => true
  | _ => false

/-- The calls for the merged files leave the outputs of the wikis alone. -/
theorem perform_isMerged {c : Call} (hc : c.isMerged = true) : SameFiles s (s.perform c).2 := by
  cases c
  case verify => exact .refl s
  case currentSiteMatches => exact .refl s
  case readGate => exact .refl s
  case restorePublicationArtifacts => exact ⟨rfl, rfl, rfl, rfl, rfl⟩
  case removePublicationArtifactBackup => exact ⟨rfl, rfl, rfl, rfl, rfl⟩
  case beginSelectedRun => exact ⟨rfl, rfl, rfl, rfl, rfl⟩
  case mergeOutputs => exact ⟨rfl, rfl, rfl, rfl, rfl⟩
  case validate => exact ⟨rfl, rfl, rfl, rfl, rfl⟩
  all_goals cases hc

/-- The backup of the merged files is new, they are not. -/
theorem perform_snapshot (s : Site Content) :
    SameFiles s (s.perform .snapshotPublicationArtifacts).2 := by
  show SameFiles s (if (Merging.verify s).isOk = true then _ else _ : Except String Bool × _).2
  split
  · exact ⟨rfl, rfl, rfl, rfl, rfl⟩
  · exact .refl s

/-- What is done for the merged files does not matter to where the wikis are. -/
theorem merged_safe (c : Call) (hs : SameFiles u s) (hc : c.isMerged = true) :
    Safe (SameFiles u) (fun _ t => SameFiles u t) (ask c) s :=
  (ask_safe hs c (hs.trans (perform_isMerged hc))).keeps.mono fun _ _ ht => ht.1

/-- Making the merged files anew is a sequence of such calls. -/
theorem rebuildPublication_safe (run : String) (snapshots : List (String × String))
    (hs : SameFiles u s) : Safe (SameFiles u) (fun _ t => SameFiles u t)
      (rebuildPublication run snapshots) s := by
  refine (merged_safe (.beginSelectedRun run snapshots) hs rfl).bind fun _ t _ ht => ?_
  refine (merged_safe (.mergeOutputs run) ht rfl).bind fun _ t _ ht => ?_
  exact merged_safe (.validate run) ht rfl

/-- To look at the merged files changes nothing. -/
theorem provePreviousPublication_safe (u : Site Content) :
    Safe (fun t => t = u) (fun _ _ => True) (provePreviousPublication selection) u := by
  have hreads : ∀ c : Call, (u.perform c).2 = u →
      Safe (fun t => t = u) (fun _ t => t = u) (ask c) u := by
    intro c hc
    exact (@ask_safe Content u _ (fun t => t = u) rfl c hc).mono fun _ _ ht => ht.1.trans hc
  have hchecked : ∀ {x : Except String Unit},
      Safe (fun t => t = u) (fun _ t => t = u) (check x) u :=
    fun {x} => (@check_safe Content _ _ (fun t => t = u) _ rfl x).mono fun _ _ ht => ht.1
  refine (hreads .verify rfl).bind fun _ t _ ht => ?_
  rw [ht]
  refine (hreads .currentSiteMatches rfl).bind fun _ t _ ht => ?_
  rw [ht]
  refine hchecked.bind fun _ t _ ht => ?_
  rw [ht]
  refine (hreads .readGate rfl).bind fun _ t _ ht => ?_
  rw [ht]
  exact hchecked.mono fun _ _ _ => trivial

/-! ## The ends of a rollback -/

/-- The journal says that everything is as it was. -/
theorem settle (h : RolledBack runId before selection s) :
    Settled before (s.perform (.writeJournal { selection with state := "rolled_back" })).2 := by
  refine ⟨fun wiki => ⟨(h.untouched wiki).active, (h.untouched wiki).backup,
    (h.untouched wiki).pointer⟩, fun htransaction => ?_, ?_⟩
  · exact absurd (h.working.transaction.symm.trans htransaction) (by simp)
  · rintro _ ⟨⟩
    rfl

/-- The journal says `rolled_back` once every wiki is back. -/
theorem recordRolledBack_safe (h : RolledBack runId before selection s) :
    Safe (Inv runId before) (fun _ t => Recorded before selection t)
      (recordRolledBack selection) s := by
  have hsettled := settle h
  refine (ask_safe (inv_of_working s h.working) (.writeJournal { selection with
    state := "rolled_back" }) (Or.inl hsettled)).mono ?_
  rintro _ _ ⟨rfl, -⟩
  exact ⟨hsettled, rfl⟩

/-- Calls about the merged files, where the wikis are restored. -/
theorem RolledBack.merged {α : Type} {action : Action α}
    (h : RolledBack runId before selection s)
    (haction : Safe (SameFiles s) (fun _ t => SameFiles s t) action s) :
    Safe (Inv runId before) (fun _ t => RolledBack runId before selection t) action s :=
  (haction.mono fun _ _ ht => ht.rolledBack h).weaken fun _ ht =>
    ht.inv (inv_of_working s h.working)

/-- Once that is recorded, only merged files are touched. -/
theorem Recorded.merged {α : Type} {action : Action α} (h : Recorded before selection s)
    (haction : Safe (SameFiles s) (fun _ t => SameFiles s t) action s) :
    Safe (Inv runId before) (fun _ t => Recorded before selection t) action s :=
  (haction.mono fun _ _ ht => ht.recorded h).weaken fun _ ht => ht.inv (Or.inl h.1)

theorem removePublicationArtifactBackup_safe (h : Recorded before selection s) :
    Safe (Inv runId before) (fun _ t => Recorded before selection t)
      (ask .removePublicationArtifactBackup) s :=
  h.merged (merged_safe _ (.refl s) rfl)

/-- The branch that finds the merged files of the previous publication intact. -/
theorem keepPreviousPublication_safe (h : RolledBack runId before selection s) :
    Safe (Inv runId before) (fun _ t => Recorded before selection t)
      (keepPreviousPublication selection) s := by
  refine (h.merged (merged_safe _ (.refl s) rfl)).bind fun _ t ht h => ?_
  refine (h.merged (merged_safe _ (.refl t) rfl)).bind fun _ t ht h => ?_
  refine (check_safe ht _).bind ?_
  rintro _ _ - ⟨rfl, -⟩
  refine (recordRolledBack_safe h).bind fun _ t _ h => ?_
  refine (removePublicationArtifactBackup_safe h).bind fun _ t ht h => ?_
  exact .done ht h

/-- The branch that has to make them anew. -/
theorem rebuildPreviousPublication_safe (recoveryRunId : String)
    (h : RolledBack runId before selection s) :
    Safe (Inv runId before) (fun _ t => Recorded before selection t)
      (rebuildPreviousPublication recoveryRunId selection) s := by
  refine (h.merged (rebuildPublication_safe _ _ (.refl s))).bind fun _ t _ h => ?_
  refine (recordRolledBack_safe h).bind fun _ t _ h => ?_
  refine (removePublicationArtifactBackup_safe h).bind fun _ t ht h => ?_
  exact .done ht h

theorem finishRollback_safe (recoveryRunId : String)
    (h : RolledBack runId before selection s) :
    Safe (Inv runId before) (fun _ t => Recorded before selection t)
      (finishRollback recoveryRunId selection) s := by
  refine ((provePreviousPublication_safe s).attempt.keeps.weaken ?_).bind ?_
  · rintro _ rfl
    exact inv_of_working _ h.working
  rintro proven _ - ⟨rfl, -⟩
  split
  · exact keepPreviousPublication_safe h
  · exact rebuildPreviousPublication_safe recoveryRunId h

/-- **A rollback keeps the invariant**, whatever becomes of it. -/
theorem rollbackUnpublishedSelection_safe (recoveryRunId : String) (h : Inv runId before s) :
    Safe (Inv runId before) (fun _ _ => True)
      (rollbackUnpublishedSelection proofs runId recoveryRunId) s := by
  refine (check_safe h _).bind ?_
  rintro _ s - ⟨rfl, -⟩
  refine (ask_safe h .readJournal h).bind ?_
  rintro selection s - ⟨rfl, hjournal⟩
  have hjournal := context_eq_ok.mp hjournal
  refine (check_safe h _).bind ?_
  rintro _ s - ⟨rfl, -⟩
  refine (check_safe h _).bind ?_
  rintro _ s - ⟨rfl, hstate⟩
  have hstate := ensure_eq_ok.mp hstate
  have hworking := h.working hjournal fun hfinished => by simp [hfinished] at hstate
  refine (rollbackSelectionFiles_safe hworking).bind fun _ t _ h => ?_
  refine (h.merged (merged_safe _ (.refl t) rfl)).bind fun _ t _ h => ?_
  exact (finishRollback_safe recoveryRunId h).mono fun _ _ _ => trivial

/-- A rollback keeps the invariant wherever it is cut off: before the first entry, between two, or
once all are back. -/
theorem rollbackReadyPublication_safe (h : Inv runId before s) :
    Safe (Inv runId before) (fun _ _ => True) (rollbackReadyPublication proofs runId) s := by
  refine (check_safe h _).bind ?_
  rintro _ s - ⟨rfl, -⟩
  refine (ask_safe h .readJournal h).bind ?_
  rintro selection s - ⟨rfl, hjournal⟩
  have hjournal := context_eq_ok.mp hjournal
  refine (check_safe h _).bind ?_
  rintro _ s - ⟨rfl, hcheck⟩
  obtain ⟨-, -, hstate⟩ := ensure_eq_ok.mp hcheck
  have hworking := h.working hjournal fun hfinished => by simp [hfinished] at hstate
  refine (rollbackSelectionFiles_safe hworking).bind fun _ t _ h => ?_
  refine (h.merged (merged_safe _ (.refl t) rfl)).bind fun restored t _ h => ?_
  split
  · refine (h.merged (merged_safe _ (.refl t) rfl)).bind fun _ t _ h => ?_
    refine (recordRolledBack_safe h).bind fun _ t _ h => ?_
    exact (removePublicationArtifactBackup_safe h).mono fun _ _ _ => trivial
  · refine (recordRolledBack_safe h).bind fun _ t _ h => ?_
    exact (h.merged (rebuildPublication_safe _ _ (.refl t))).mono fun _ _ _ => trivial

/-! ## Activating -/

/-- A pointer to the candidate's snapshot. -/
theorem setCurrentSnapshot_safe {inv : Site Content → Prop} {snapshot : String} {candidate : Path}
    (hs : inv s) (hafter : inv (s.setPointer wiki (some snapshot))) :
    Safe inv (fun _ t => t = s.setPointer wiki (some snapshot))
      (setCurrentSnapshotForReadyCandidate proofs wiki snapshot candidate) s := by
  have hchecked : ∀ x : Except String Unit,
    Safe inv (fun _ t => t = s.setPointer wiki (some snapshot))
      (check x >>= fun _ => ask (.writePointer wiki snapshot)) s := by
    intro x
    refine (check_safe hs x).bind ?_
    rintro _ s - ⟨rfl, -⟩
    exact (ask_safe hs (.writePointer wiki snapshot) hafter).mono fun _ t ht => ht.1
  unfold setCurrentSnapshotForReadyCandidate
  split
  · exact hchecked _
  · exact hchecked _

/-- Activation moves an entry from the first place to the third, by way of the second. -/
theorem activateEntry_safe (h : Working runId before selection s)
    (hentry : entry ∈ selection.entries) (hold : Untouched before s entry.wiki) :
    Safe (Working runId before selection) (fun _ t => SameBut entry.wiki s t)
      (activateEntry proofs entry) s := by
  have hreplaced := h.entries entry hentry
  -- the old output is in the backup
  have hmoved : Safe (Working runId before selection)
      (fun _ t => SameBut entry.wiki s t ∧ t.active entry.wiki = .absent ∧
        t.backup entry.wiki = before.active entry.wiki ∧
        t.pointer entry.wiki = before.pointer entry.wiki) (moveActiveToBackup entry) s := by
    have hperform : s.perform (.moveToBackup entry.wiki) = (.ok (),
        (s.setActive entry.wiki .absent).setBackup entry.wiki (before.active entry.wiki)) := by
      show renamed s (s.active entry.wiki) (s.backup entry.wiki) _ = _
      rw [renamed, hold.active, hold.backup, renameOnto_absent hreplaced.isPresent]
    have hsame : SameBut entry.wiki s
        ((s.setActive entry.wiki .absent).setBackup entry.wiki (before.active entry.wiki)) :=
      (sameBut_setActive ..).trans (sameBut_setBackup ..)
    unfold moveActiveToBackup
    rw [if_pos hreplaced.hasBackup]
    refine (performed_safe h hperform (h.step hentry hsame
      ⟨Or.inr (Or.inl ⟨setActive_active .., setBackup_backup ..⟩), Or.inl hold.pointer⟩)).mono ?_
    rintro _ _ ⟨-, rfl⟩
    exact ⟨hsame, setActive_active .., setBackup_backup .., hold.pointer⟩
  refine hmoved.bind fun _ t ht ⟨hsame, hactive, hbackup, hpointer⟩ => ?_
  have hkeep : ∀ link, Working runId before selection (t.setTemporary entry.wiki link) :=
    fun link => ht.step hentry (sameBut_setTemporary ..)
      ⟨Or.inr (Or.inl ⟨hactive, hbackup⟩), Or.inl hpointer⟩
  refine (ask_safe ht (.removeTemporary entry.wiki) (hkeep none)).bind ?_
  rintro _ _ ht₁ ⟨rfl, -⟩
  have hlinked : Working runId before selection ((t.setTemporary entry.wiki none).setTemporary
      entry.wiki (some entry.expectedTarget)) :=
    ht₁.step hentry (sameBut_setTemporary ..) ⟨Or.inr (Or.inl ⟨hactive, hbackup⟩), Or.inl hpointer⟩
  refine (performed_safe ht₁ (perform_linkTemporary (setTemporary_temporary ..)) hlinked).bind ?_
  rintro _ v hv ⟨-, hlink⟩
  have hvsame : SameBut entry.wiki t v := by
    rw [hlink]
    exact (sameBut_setTemporary ..).trans (sameBut_setTemporary ..)
  have hvlink : v.temporary entry.wiki = some entry.expectedTarget := by
    rw [hlink]
    exact setTemporary_temporary ..
  have hvactive : v.active entry.wiki = .absent := by
    rw [hlink]
    exact hactive
  have hvbackup : v.backup entry.wiki = before.active entry.wiki := by
    rw [hlink]
    exact hbackup
  have hvpointer : v.pointer entry.wiki = before.pointer entry.wiki := by
    rw [hlink]
    exact hpointer
  clear hlink
  -- the link is renamed into the place of the output
  let w := (v.setActive entry.wiki (.link entry.expectedTarget)).setTemporary entry.wiki none
  have hwsame : SameBut entry.wiki v w := (sameBut_setActive ..).trans (sameBut_setTemporary ..)
  have hw : Working runId before selection w :=
    hv.step hentry hwsame ⟨Or.inr (Or.inr ⟨setActive_active .., hvbackup⟩), Or.inl hvpointer⟩
  refine (performed_safe hv (perform_renameTemporary hvlink hvactive) hw).bind ?_
  rintro _ _ - ⟨-, rfl⟩
  have hpointed : Working runId before selection
      (w.setPointer entry.wiki (some entry.snapshot)) :=
    hw.step hentry (sameBut_setPointer ..)
      ⟨Or.inr (Or.inr ⟨setActive_active .., hvbackup⟩), Or.inr (setPointer_pointer ..)⟩
  refine (setCurrentSnapshot_safe hw hpointed).mono ?_
  rintro _ _ rfl
  exact ((hsame.trans hvsame).trans hwsame).trans (sameBut_setPointer ..)

variable (before) in
/-- The candidates are of different wikis, and the old output of each wiki is a directory or a link
to another candidate. -/
structure Candidates (candidates : List ReadyWikiCandidate) : Prop where
  nodup : (candidates.map ReadyWikiCandidate.wiki).Nodup
  replaceable : ∀ ready ∈ candidates, Replaceable before ready.wiki ready.candidateRelative
    (activeCandidateRelative (before.active ready.wiki).target ready.wiki)

/-- Whether a candidate is live already is only read. -/
theorem isSelected_safe {inv : Site Content → Prop} (hs : inv s) (ready : ReadyWikiCandidate) :
    Safe inv (fun _ t => t = s) (isSelected ready) s := by
  refine (ask_safe hs (.readActive ready.wiki) hs).bind ?_
  rintro target s - ⟨rfl, -⟩
  split
  · refine (ask_safe hs (.readPointer ready.wiki) hs).bind ?_
    rintro pointer s - ⟨rfl, -⟩
    exact .done hs rfl
  · exact .done hs rfl

/-- The entries say of each wiki what it was. -/
theorem selectCandidates_safe {inv : Site Content → Prop} {candidates : List ReadyWikiCandidate}
    (hcandidates : Candidates before candidates)
    (hs : inv s) (hall : ∀ wiki, Untouched before s wiki) :
    Safe inv (fun entries t => t = s ∧ (∀ entry ∈ entries, Replaced before entry) ∧
        (entries.map SelectionEntry.wiki).Nodup)
      (candidates.foldlM (selectCandidate proofs) []) s := by
  -- The invariant of the loop: nothing is moved yet, and the entries follow the candidates.
  have hloop : Safe inv (fun entries t => t = s ∧ (∀ entry ∈ entries, Replaced before entry) ∧
      (entries.map SelectionEntry.wiki).Sublist (candidates.map ReadyWikiCandidate.wiki))
      (candidates.foldlM (selectCandidate proofs) []) s := by
    refine @Withstands.foldlM _ _ _ _ _ _ _ _ _ _ _ (fun done (entries : List SelectionEntry) t =>
      t = s ∧ (∀ entry ∈ entries, Replaced before entry) ∧
      (entries.map SelectionEntry.wiki).Sublist (done.map ReadyWikiCandidate.wiki))
      _ candidates [] (fun done ready rest hdone t entries _ hentries => ?_) hs
      ⟨rfl, fun entry hentry => absurd hentry List.not_mem_nil, .slnil⟩
    obtain ⟨rfl, hreplaced, hsub⟩ := hentries
    have hready : ready ∈ candidates := by
      rw [hdone]
      exact List.mem_append_right _ List.mem_cons_self
    refine (isSelected_safe hs ready).bind ?_
    rintro selected t - rfl
    by_cases hselected : selected = true
    -- A candidate that is live already has no entry.
    · rw [if_pos hselected]
      refine .done hs ⟨rfl, hreplaced, ?_⟩
      rw [List.map_append]
      exact hsub.trans (List.sublist_append_left ..)
    · rw [if_neg hselected]
      refine (check_safe hs (proofs.validateReadyCandidate ready)).bind ?_
      rintro _ t - ⟨rfl, -⟩
      refine (ask_safe hs (.activeIsPresent ready.wiki) hs).bind ?_
      rintro present t - ⟨rfl, hpresent⟩
      refine (ask_safe hs (.readPointer ready.wiki) hs).bind ?_
      rintro pointer t - ⟨rfl, hpointer⟩
      refine (ask_safe hs (.readActive ready.wiki) hs).bind ?_
      rintro target t - ⟨rfl, htarget⟩
      obtain rfl := Except.ok.inj
        (show Except.ok (t.active ready.wiki).isPresent = .ok present from hpresent)
      obtain rfl := Except.ok.inj
        (show Except.ok (t.pointer ready.wiki) = .ok pointer from hpointer)
      obtain rfl := Except.ok.inj
        (show Except.ok (t.active ready.wiki).target = .ok target from htarget)
      obtain ⟨hactive, -, hpointer⟩ := hall ready.wiki
      refine .done hs ⟨rfl, fun entry hentry => ?_, ?_⟩
      · rcases List.mem_append.mp hentry with hentry | hentry
        · exact hreplaced entry hentry
        · have houtput := hcandidates.replaceable ready hready
          rw [List.mem_singleton.mp hentry, hactive]
          refine ⟨⟨ready, rfl, rfl, rfl⟩, rfl, houtput, hpointer, ?_⟩
          show (before.active ready.wiki).isPresent = true
          rcases houtput with ⟨content, hcontent, -⟩ | ⟨path, -, hpath, -⟩
          · rw [hcontent]
            rfl
          · rw [hpath]
            rfl
      · rw [List.map_append, List.map_append]
        exact hsub.append (.refl _)
  exact hloop.mono fun entries t h => ⟨h.1, h.2.1, h.2.2.nodup hcandidates.nodup⟩

/-- An activation that fails rolls its own entries back before it returns the error. -/
theorem abandonActivation_safe {post : PublicationSelection → Site Content → Prop}
    (h : Working runId before selection s) (message : String) :
    Safe (Inv runId before) post (abandonActivation proofs selection message) s := by
  have hlinks : Safe (Working runId before selection) (fun _ _ => True)
      (forEach selection.entries fun entry => ask (.removeTemporary entry.wiki)) s := by
    refine forEach_safe (fun _ _ => True) (fun done entry rest hdone t ht _ => ?_) h trivial
    have hentry : entry ∈ selection.entries := by
      rw [hdone]
      exact List.mem_append_right _ List.mem_cons_self
    have hbetween := ht.between entry hentry
    exact (ask_safe ht (.removeTemporary entry.wiki) (ht.step hentry (sameBut_setTemporary ..)
      ⟨hbetween.output, hbetween.pointer⟩)).mono fun _ _ _ => trivial
  refine (hlinks.keeps.weaken inv_of_working).bind ?_
  rintro _ t - ⟨ht, -⟩
  refine (rollbackSelectionFiles_safe ht).bind fun _ t _ h => ?_
  refine (recordRolledBack_safe h).bind fun _ t _ h => ?_
  refine (removePublicationArtifactBackup_safe h).bind fun _ t ht _ => ?_
  exact .fail ht

/-- The links of a new selection, all of them or as far as they got. -/
theorem activateEntries_safe (h : Working runId before selection s)
    (hall : ∀ wiki, Untouched before s wiki) :
    Safe (Working runId before selection) (fun _ _ => True)
      (forEach selection.entries (activateEntry proofs)) s := by
  refine (forEach_safe (fun (done : List SelectionEntry) t => ∀ entry ∈ selection.entries,
    entry.wiki ∉ done.map SelectionEntry.wiki → Untouched before t entry.wiki)
    (fun done entry rest hdone t ht hrest => ?_) h fun entry _ _ => hall entry.wiki).mono
    fun _ _ _ => trivial
  have hentry : entry ∈ selection.entries := by
    rw [hdone]
    exact List.mem_append_right _ List.mem_cons_self
  have hnew : entry.wiki ∉ done.map SelectionEntry.wiki := by
    have hnodup := h.nodup
    rw [hdone, List.map_append, List.map_cons] at hnodup
    exact fun hmem => (List.nodup_append.mp hnodup).2.2 _ hmem _ List.mem_cons_self rfl
  refine (activateEntry_safe ht hentry (hrest entry hentry hnew)).mono
    fun _ u hsame other hother hout => ?_
  rw [List.map_append, List.mem_append, not_or] at hout
  exact (hrest other hother hout.1).same hsame fun heq => hout.2 (by simp [heq])

/-- **An activation keeps the invariant**, whatever becomes of it. -/
theorem activateReadyCandidates_safe {candidates : List ReadyWikiCandidate}
    (hcandidates : Candidates before candidates)
    (h : Inv runId before s) :
    Safe (Inv runId before) (fun found t => Working runId before found t)
      (activateReadyCandidates proofs candidates runId) s := by
  refine (check_safe h _).bind ?_
  rintro _ s - ⟨rfl, hnamed⟩
  have hnamed := ensure_eq_ok.mp hnamed
  refine (ask_safe h .transactionExists h).bind ?_
  rintro present s - ⟨rfl, hpresent⟩
  refine (check_safe h _).bind ?_
  rintro _ s - ⟨rfl, habsent⟩
  obtain rfl := Except.ok.inj (show Except.ok s.transaction = .ok present from hpresent)
  have habsent := ensure_eq_ok.mp habsent
  -- so no selection is under way
  have hsettled : Settled before s := by
    rcases h with hsettled | ⟨selection, hworking⟩
    · exact hsettled
    · exact absurd (hworking.transaction.symm.trans habsent) (by simp)
  have hnone := hsettled.transaction habsent
  refine (selectCandidates_safe hcandidates h hsettled.untouched).bind ?_
  rintro entries s - ⟨rfl, hreplaced, hnodup⟩
  have hcreated : Settled before (s.perform .createTransaction).2 :=
    ⟨fun wiki => ⟨(hsettled.untouched wiki).active, (hsettled.untouched wiki).backup,
      (hsettled.untouched wiki).pointer⟩, fun _ => hnone, hsettled.finished⟩
  refine (ask_safe h .createTransaction (Or.inl hcreated)).bind ?_
  rintro _ created - ⟨rfl, -⟩
  let created := (s.perform .createTransaction).2
  have hartifacts : Safe (SameFiles created) (fun _ _ => True)
      (ask .snapshotPublicationArtifacts) created :=
    (ask_safe (.refl created) _ (perform_snapshot created)).mono fun _ _ _ => trivial
  refine ((hartifacts.attempt.keeps.weaken fun t ht =>
    (Or.inl (ht.settled hcreated) : Inv runId before t))).bind ?_
  rintro artifacts backed - ⟨hsame, -⟩
  have hbacked := hsame.settled hcreated
  cases artifacts with
  | error message =>
    have hremoved : Settled before (backed.perform .removeTransaction).2 :=
      ⟨fun wiki => ⟨(hbacked.untouched wiki).active, rfl, (hbacked.untouched wiki).pointer⟩,
        fun _ => rfl, fun selection hselection => by cases hselection⟩
    refine (ask_safe (Or.inl hbacked) .removeTransaction (Or.inl hremoved)).bind ?_
    exact fun _ t ht _ => .fail ht
  | ok _ =>
    let selection : PublicationSelection := ⟨1, runId, "activating", entries⟩
    have hworking : Working runId before selection (backed.perform (.writeJournal selection)).2 :=
      ⟨hnamed, rfl, hsame.transaction, ⟨rfl, rfl, by simp [selection]⟩, hreplaced, hnodup,
        fun entry _ => Untouched.between ⟨(hbacked.untouched entry.wiki).active,
          (hbacked.untouched entry.wiki).backup, (hbacked.untouched entry.wiki).pointer⟩,
        fun wiki _ => ⟨(hbacked.untouched wiki).active, (hbacked.untouched wiki).backup,
          (hbacked.untouched wiki).pointer⟩⟩
    refine (ask_safe (Or.inl hbacked) (.writeJournal selection) (inv_of_working _ hworking)).bind ?_
    rintro _ _ - ⟨rfl, -⟩
    have hlinks : Safe _ _ (forEach entries (activateEntry proofs)) _ :=
      activateEntries_safe hworking fun wiki => ⟨(hbacked.untouched wiki).active,
        (hbacked.untouched wiki).backup, (hbacked.untouched wiki).pointer⟩
    refine (hlinks.attempt.keeps.weaken inv_of_working).bind ?_
    rintro activation t - ⟨ht, -⟩
    cases activation with
    | error message => exact abandonActivation_safe ht message
    | ok _ =>
      have hselected : Working runId before { selection with state := "selected" }
          (t.perform (.writeJournal { selection with state := "selected" })).2 :=
        ⟨hnamed, rfl, ht.transaction, ⟨rfl, rfl, by simp⟩, hreplaced, hnodup,
          fun entry hentry => ⟨(ht.between entry hentry).output, (ht.between entry hentry).pointer⟩,
          fun wiki hwiki => ⟨(ht.others wiki hwiki).active, (ht.others wiki hwiki).backup,
            (ht.others wiki hwiki).pointer⟩⟩
      refine (ask_safe (inv_of_working t ht) (.writeJournal { selection with state := "selected" })
        (inv_of_working _ hselected)).bind ?_
      rintro _ u hu ⟨rfl, -⟩
      exact .done hu hselected

/-- A publication that fails after its activation is rolled back in the same way. -/
theorem abandonPublication_safe (h : Working runId before selection s) (message : String) :
    Safe (Inv runId before) (fun _ _ => True)
      (abandonPublication proofs selection message) s := by
  refine (rollbackSelectionFiles_safe h).bind fun _ t _ h => ?_
  refine (h.merged (merged_safe _ (.refl t) rfl)).bind fun restored t ht h => ?_
  have hverified : Safe (SameFiles t) (fun _ u => SameFiles t u) (verifyRestored restored) t := by
    unfold verifyRestored
    split
    · exact merged_safe .verify (.refl t) rfl
    · exact .done (.refl t) (.refl t)
  refine (h.merged hverified).bind fun _ t _ h => ?_
  refine (recordRolledBack_safe h).bind fun _ t _ h => ?_
  refine (removePublicationArtifactBackup_safe h).bind fun _ t ht _ => ?_
  exact .fail ht

/-- **A publication keeps the invariant**, whatever becomes of the merge. -/
theorem prepareReadyPublication_safe {candidates : List ReadyWikiCandidate}
    (hcandidates : Candidates before candidates)
    (h : Inv runId before s) :
    Safe (Inv runId before) (fun _ _ => True)
      (prepareReadyPublication proofs candidates runId) s := by
  refine (activateReadyCandidates_safe hcandidates h).bind fun selection t ht hworking => ?_
  have hrepair : Safe (Inv runId before) (fun _ u => u = t)
      (validateRepair proofs candidates selection) t := by
    unfold validateRepair
    split
    · exact (check_safe ht _).mono fun _ _ hu => hu.1
    · exact .done ht rfl
  refine hrepair.bind ?_
  rintro _ t - rfl
  have hrebuilt := rebuildPublication_safe runId (selection.entries.map fun entry =>
    (entry.wiki, entry.snapshot)) (.refl t)
  refine (hrebuilt.attempt.keeps.weaken fun u hu => hu.inv ht).bind ?_
  rintro rebuilt u hu ⟨hsame, -⟩
  cases rebuilt with
  | error message => exact abandonPublication_safe (hsame.working hworking) message
  | ok _ => exact .done hu trivial

/-! ## The merged files that a rollback leaves -/

/-- What the gate, the artifacts and the site say is the publication before. -/
def Intact (selection : PublicationSelection) (u : Site Content) : Prop :=
  ((provePreviousPublication selection).run Site.perform u).1 = .ok ()

/-- The merged files can be made anew. -/
def Rebuilds (run : String) (u : Site Content) : Prop :=
  ((rebuildPublication run []).run Site.perform u).1 = .ok ()

/-- Merged files that are intact pass the verification and the check of the site. -/
theorem Intact.verified (h : Intact selection u) :
    Merging.verify u = .ok () ∧ Merging.currentSiteMatches u = .ok true := by
  have hrun : (provePreviousPublication selection).run Site.perform u
      = (.ok (), ((provePreviousPublication selection).run Site.perform u).2) := Prod.ext h rfl
  obtain ⟨_, v, hverify, hrest⟩ := Program.run_bind_eq_ok _ hrun
  rw [ask, run_asked] at hverify
  have hverify : (Merging.verify u, u) = (Except.ok (), v) := hverify
  obtain rfl := congrArg Prod.snd hverify
  obtain ⟨siteMatches, v, hsite, hrest⟩ := Program.run_bind_eq_ok _ hrest
  rw [ask, run_asked] at hsite
  have hsite : (Merging.currentSiteMatches u, u) = (Except.ok siteMatches, v) := hsite
  obtain rfl := congrArg Prod.snd hsite
  obtain ⟨_, v, hensured, -⟩ := Program.run_bind_eq_ok _ hrest
  rw [check, run_check] at hensured
  have hmatches := ensure_eq_ok.mp (Prod.mk.inj hensured).1
  exact ⟨congrArg Prod.fst hverify, hmatches ▸ congrArg Prod.fst hsite⟩

/-- The site is proven and the journal written. -/
theorem keepPreviousPublication_succeeds (h : Intact selection u) :
    ((keepPreviousPublication selection).run Site.perform u).1 = .ok false := by
  obtain ⟨hverify, hsite⟩ := h.verified
  have hasked : ∀ {c : Call} {a : c.Answer}, u.perform c = (.ok a, u) →
      (ask c).run Site.perform u = (.ok a, u) := fun hc => (run_asked ..).trans hc
  unfold keepPreviousPublication
  rw [Program.run_bind_ok _ (hasked (c := .verify) (Prod.ext hverify rfl)),
    Program.run_bind_ok _ (hasked (c := .currentSiteMatches) (Prod.ext hsite rfl))]
  rfl

/-- Where all calls of the rebuilding answer, the branch ends in success. -/
theorem rebuildPreviousPublication_succeeds {recoveryRunId : String}
    (h : Rebuilds recoveryRunId u) :
    ((rebuildPreviousPublication recoveryRunId selection).run Site.perform u).1 = .ok true := by
  have hrun : (rebuildPublication recoveryRunId []).run Site.perform u
      = (.ok (), ((rebuildPublication recoveryRunId []).run Site.perform u).2) := Prod.ext h rfl
  unfold rebuildPreviousPublication
  rw [Program.run_bind_ok _ hrun]
  rfl

/-- One of the two branches is enough for the rollback to end in success. -/
theorem finishRollback_succeeds {recoveryRunId : String}
    (h : Intact selection u ∨ Rebuilds recoveryRunId u) :
    ∃ rebuilt, ((finishRollback recoveryRunId selection).run Site.perform u).1 = .ok rebuilt := by
  have hsite : ((provePreviousPublication selection).run Site.perform u).2 = u :=
    (provePreviousPublication_safe u).run.1
  have hproven := Program.run_attempt Site.perform (provePreviousPublication selection) u
  rw [hsite] at hproven
  unfold finishRollback
  rw [Program.run_bind_ok _ hproven]
  by_cases hintact : Intact selection u
  · rw [show ((provePreviousPublication selection).run Site.perform u).1 = .ok () from hintact]
    exact ⟨false, keepPreviousPublication_succeeds hintact⟩
  · have hrebuilds := h.resolve_left hintact
    cases hanswer : ((provePreviousPublication selection).run Site.perform u).1 with
    | error e => exact ⟨true, rebuildPreviousPublication_succeeds hrebuilds⟩
    | ok _ => exact absurd hanswer hintact

/-! ## Any order of calls -/

/-- What may happen, where calls meet faults and are cut off. -/
inductive Event (Content : Type)
  | prepare (candidates : List ReadyWikiCandidate) (faults : List Fault) (calls : ℕ)
  | rollback (faults : List Fault) (calls : ℕ)
  | recover (recoveryRunId : String) (faults : List Fault) (calls : ℕ)
  /-- Whatever becomes of the merged files: by a call that is cut off midway, or by others. -/
  | replaceMerged (merged : Content)

variable (proofs runId)

/-- An action of which the first calls are made, with the faults that hit them. -/
def cutOff {α : Type} (action : Action α) (faults : List Fault) (calls : ℕ) (s : Site Content) :
    Action α × Faulty (Site Content) :=
  action.steps performFaulty calls ⟨s, faults⟩

/-- What an event leaves: each is the run of one action, cut off or not. -/
def next (s : Site Content) : Event Content → Site Content
  | .prepare candidates faults calls =>
    (cutOff (prepareReadyPublication proofs candidates runId) faults calls s).2.store
  | .rollback faults calls =>
    (cutOff (rollbackReadyPublication proofs runId) faults calls s).2.store
  | .recover recoveryRunId faults calls =>
    (cutOff (rollbackUnpublishedSelection proofs runId recoveryRunId) faults calls s).2.store
  | .replaceMerged merged => { s with merged := merged }

/-- No transaction of the run is there. -/
structure Fresh (s : Site Content) : Prop where
  backup : s.backup = fun _ => .absent
  transaction : s.transaction = false
  journal : s.journal = none

/-- One publication, its rollbacks and its recoveries. -/
def publication : System (Site Content) (Event Content) where
  init := Fresh
  step s event t := t = next proofs runId s event

variable {proofs runId}

/-- One event keeps the invariant, wherever it is cut off. -/
theorem inv_next (h : Inv runId before s) (event : Event Content)
    (hcandidates : ∀ candidates faults calls, event = .prepare candidates faults calls →
      Candidates before candidates) : Inv runId before (next proofs runId s event) := by
  cases event with
  | prepare candidates faults calls =>
    exact ((prepareReadyPublication_safe (hcandidates candidates faults calls rfl) h).steps
      faults calls).1
  | rollback faults calls => exact ((rollbackReadyPublication_safe h).steps faults calls).1
  | recover recoveryRunId faults calls =>
    exact ((rollbackUnpublishedSelection_safe recoveryRunId h).steps faults calls).1
  | replaceMerged merged =>
    have hsame : SameFiles s { s with merged := merged } := ⟨rfl, rfl, rfl, rfl, rfl⟩
    exact hsame.inv h

/-- The candidates of all publications of a run. -/
def AllCandidates (before : Site Content) (events : List (Event Content)) : Prop :=
  ∀ candidates faults calls, .prepare candidates faults calls ∈ events →
    Candidates before candidates

/-- Any number of events keep the invariant, by induction on the run. -/
theorem inv_run (hbefore : Fresh before) {events : List (Event Content)}
    (hcandidates : AllCandidates before events)
    (hrun : (publication proofs runId).Run before events s) : Inv runId before s := by
  induction hrun with
  | nil =>
    refine Or.inl ⟨fun wiki => ⟨rfl, congrFun hbefore.backup wiki, rfl⟩, fun _ =>
      hbefore.journal, ?_⟩
    intro selection hselection
    rw [hbefore.journal] at hselection
    cases hselection
  | snoc hrun hstep ih =>
    obtain rfl := hstep
    refine inv_next (ih fun candidates faults calls hmem => hcandidates candidates faults calls
      (List.mem_append_left _ hmem)) _ fun candidates faults calls hevent => ?_
    exact hcandidates candidates faults calls (hevent ▸ List.mem_append_right _ List.mem_cons_self)

/-- **The old output is never lost.** However activations and rollbacks are cut off, and whichever
of their calls fail, the old output of every wiki is live or in the backup; and where the journal
is missing or says so, everything is as it was. -/
theorem previous_kept (hbefore : Fresh before) {events : List (Event Content)}
    (hcandidates : AllCandidates before events)
    (hrun : (publication proofs runId).Run before events s) :
    (∀ wiki, s.active wiki = before.active wiki ∨ s.backup wiki = before.active wiki) ∧
      ((∀ selection, s.journal = some selection → selection.state = "rolled_back") →
        s.active = before.active ∧ s.pointer = before.pointer ∧
          ∀ wiki, s.backup wiki = .absent) := by
  rcases inv_run hbefore hcandidates hrun with hsettled | ⟨selection, hworking⟩
  · refine ⟨fun wiki => Or.inl (hsettled.untouched wiki).active, fun _ => ⟨?_, ?_, ?_⟩⟩
    · exact funext fun wiki => (hsettled.untouched wiki).active
    · exact funext fun wiki => (hsettled.untouched wiki).pointer
    · exact fun wiki => (hsettled.untouched wiki).backup
  · refine ⟨fun wiki => ?_, fun hfinished => ?_⟩
    · by_cases hwiki : wiki ∈ selection.entries.map SelectionEntry.wiki
      · obtain ⟨entry, hentry, rfl⟩ := List.mem_map.mp hwiki
        rcases (hworking.between entry hentry).output with
          ⟨hactive, -⟩ | ⟨-, hbackup⟩ | ⟨-, hbackup⟩
        · exact Or.inl hactive
        · exact Or.inr hbackup
        · exact Or.inr hbackup
      · exact Or.inl (hworking.others wiki hwiki).active
    · have hstate := hworking.identity.2.2
      rw [hfinished selection hworking.journal] at hstate
      exact absurd hstate (by decide)

/-- The merged files of a publication, as far as the gate tells: the snapshot of each wiki. -/
abbrev Gate := List (String × String)

/-- Every gate verifies, and the site is always built again. A merge lists what is live. -/
instance : Merging Gate where
  verify _ := .ok ()
  currentSiteMatches _ := .ok true
  selectedSnapshotVersions s := .ok fun wiki => s.merged.lookup wiki
  restored backup _ := backup
  beginSelectedRun _ _ s := (.ok (), s.merged)
  mergeOutputs _ s := (.ok (), ["nlwiki", "frwiki"].filterMap fun wiki =>
    (s.pointer wiki).map fun snapshot => (wiki, snapshot))
  validate _ s := (.ok (), s.merged)

/-- The wiki `nlwiki` is linked to its candidate of July. -/
def july : Site Gate where
  active wiki := if wiki = "nlwiki" then
    .link ["_candidates", "nlwiki", "2026-07", "run-0", "nlwiki"] else .absent
  backup _ := .absent
  temporary _ := none
  pointer wiki := if wiki = "nlwiki" then some "2026-07" else none
  transaction := false
  journal := none
  merged := [("nlwiki", "2026-07")]
  publicationBackup := none

/-- Every snapshot has its manifest and can be published. -/
def published : Proofs where
  validateReadyCandidate _ := .ok ()
  validateActive _ := .ok ()
  manifestIsFile _ _ := true
  retentionIsFile _ _ := false
  publishable _ _ := .ok ()
  retained _ _ _ := .ok ()
  recoverable _ _ _ := true

def august : List ReadyWikiCandidate :=
  [⟨"nlwiki", "2026-08", "run-1", by decide +kernel, by decide +kernel, by decide +kernel⟩]

theorem august_candidates : Candidates july august := by
  refine ⟨by decide, fun ready hready => ?_⟩
  rw [List.mem_singleton.mp hready]
  exact Or.inr ⟨["_candidates", "nlwiki", "2026-07", "run-0"], by decide +kernel, rfl, by decide⟩

/-- A publication that is killed after it has merged, and a rollback that cannot move the backup. -/
def interrupted : List (Event Gate) :=
  [.prepare august [] 18, .recover "run-2" [.none, .none, .none, .none, .before] 20]

theorem interrupted_candidates : AllCandidates july interrupted := by
  intro candidates faults calls hmem
  rcases List.mem_pair.mp hmem with hevent | hevent
  · obtain ⟨rfl, -, -⟩ := Event.prepare.inj hevent
    exact august_candidates
  · cases hevent

def interruptedSite : Site Gate := interrupted.foldl (next published "run-1") july

theorem interrupted_run : (publication published "run-1").Run july interrupted interruptedSite :=
  .snoc (.snoc (.nil july) rfl) rfl

theorem previous_kept_august : interruptedSite.active "nlwiki" = .absent ∧
    ∀ wiki, interruptedSite.active wiki = july.active wiki ∨
      interruptedSite.backup wiki = july.active wiki :=
  ⟨by decide +kernel, (previous_kept ⟨rfl, rfl, rfl⟩ interrupted_candidates interrupted_run).1⟩

/-- **A rollback that nothing disturbs restores everything**, from wherever the publication and the
rollbacks before it were cut off: if the old pointers are still allowed, and the merged files that
it finds are intact or can be made anew. -/
theorem rollback_restores (hbefore : Fresh before) {events : List (Event Content)}
    (hcandidates : AllCandidates before events)
    (hrun : (publication proofs runId).Run before events s)
    (hjournal : s.journal = some selection) (hunfinished : selection.state ≠ "rolled_back")
    (hrestorable : AllRestorable proofs before selection) {recoveryRunId : String}
    (hmerged : ∀ u : Site Content, u.active = before.active → u.pointer = before.pointer →
      u.merged = s.restoredMerged → Intact selection u ∨ Rebuilds recoveryRunId u) :
    ∃ rebuilt t, (rollbackUnpublishedSelection proofs runId recoveryRunId).run Site.perform s
        = (.ok rebuilt, t) ∧
      t.active = before.active ∧ t.pointer = before.pointer ∧ (∀ wiki, t.backup wiki = .absent) ∧
      t.journal = some { selection with state := "rolled_back" } := by
  have hworking := (inv_run hbefore hcandidates hrun).working hjournal hunfinished
  have hfiles : Sure (AllRestorable proofs before selection) _ _
      (rollbackSelectionFiles proofs selection) s := rollbackSelectionFiles_sure hworking
  obtain ⟨_, t, hfiles, ht, huntouched, hsame, hbackup⟩ := hfiles.succeeds hrestorable
  -- the merged files of the backup are put back
  let u : Site Content := { t with merged := t.restoredMerged }
  have hsameFiles : SameFiles t u := ⟨rfl, rfl, rfl, rfl, rfl⟩
  have hu : RolledBack runId before selection u := hsameFiles.rolledBack ⟨ht, huntouched⟩
  have hfound : u.merged = s.restoredMerged := by
    show t.restoredMerged = s.restoredMerged
    unfold Site.restoredMerged
    rw [hbackup, hsame]
  obtain ⟨rebuilt, hfinished⟩ := finishRollback_succeeds (hmerged u
    (funext fun wiki => (hu.untouched wiki).active) (funext fun wiki => (hu.untouched wiki).pointer)
    hfound)
  have hrecorded := (finishRollback_safe recoveryRunId hu).run.2 rebuilt hfinished
  refine ⟨rebuilt, ((finishRollback recoveryRunId selection).run Site.perform u).2, ?_,
    funext fun wiki => (hrecorded.1.untouched wiki).active,
    funext fun wiki => (hrecorded.1.untouched wiki).pointer,
    fun wiki => (hrecorded.1.untouched wiki).backup, hrecorded.2⟩
  have hchecked : ∀ {x : Except String Unit}, x = .ok () →
      (check x).run Site.perform s = (.ok (), s) := by
    rintro x rfl
    rfl
  have hread : (ask .readJournal).run Site.perform s = (.ok selection, s) := by
    rw [ask, run_asked]
    exact Prod.ext (context_eq_ok.mpr hjournal) rfl
  have hrestored : (ask .restorePublicationArtifacts).run Site.perform t
      = (.ok t.publicationBackup.isSome, u) := run_asked ..
  unfold rollbackUnpublishedSelection
  rw [Program.run_bind_ok _ (hchecked (ensure_eq_ok.mpr hworking.named)),
    Program.run_bind_ok _ hread, Program.run_bind_ok _ (hchecked hworking.validate),
    Program.run_bind_ok _ (hchecked (ensure_eq_ok.mpr hworking.identity.2.2)),
    Program.run_bind_ok _ hfiles, Program.run_bind_ok _ hrestored]
  exact Prod.ext hfinished rfl

theorem rollback_restores_august : interruptedSite.active "nlwiki" = .absent ∧
    interruptedSite.merged = [("nlwiki", "2026-08")] ∧
    ∃ rebuilt t, (rollbackUnpublishedSelection published "run-1" "run-3").run Site.perform
      interruptedSite = (.ok rebuilt, t) ∧ t.active = july.active := by
  have hjournal : interruptedSite.journal = some ⟨1, "run-1", "selected",
      [⟨"nlwiki", "2026-08", ["_candidates", "nlwiki", "2026-08", "run-1"],
        some ["_candidates", "nlwiki", "2026-07", "run-0"], some "2026-07", true⟩]⟩ := by
    decide +kernel
  have hrestorable : AllRestorable published july ⟨1, "run-1", "selected",
      [⟨"nlwiki", "2026-08", ["_candidates", "nlwiki", "2026-08", "run-1"],
        some ["_candidates", "nlwiki", "2026-07", "run-0"], some "2026-07", true⟩]⟩ :=
    fun entry _ snapshot _ => ⟨fun _ => rfl, fun hmanifest => by cases hmanifest⟩
  have hrebuilds : ∀ u : Site Gate, Rebuilds "run-3" u := fun u => rfl
  obtain ⟨rebuilt, t, hrollback, hactive, -⟩ := rollback_restores ⟨rfl, rfl, rfl⟩
    interrupted_candidates interrupted_run hjournal (by decide) hrestorable
    fun u _ _ _ => Or.inr (hrebuilds u)
  exact ⟨by decide +kernel, by decide +kernel, rebuilt, t, hrollback, hactive⟩

/-! ## First publications -/

/-- The link of a first publication is gone, its pointer is not. -/
structure Stuck (selection : PublicationSelection) (entry : SelectionEntry)
    (pointer : Option String)
    (s : Site Content) : Prop where
  journal : s.journal = some selection
  transaction : s.transaction = true
  active : s.active entry.wiki = .absent
  pointer : s.pointer entry.wiki = pointer

variable {pointer : Option String} {other : SelectionEntry}

omit [Merging Content] in
/-- A stuck entry does not see what is done for other wikis. -/
theorem Stuck.same (h : Stuck selection entry pointer s) (hsame : SameBut wiki s t)
    (hne : entry.wiki ≠ wiki) : Stuck selection entry pointer t :=
  ⟨hsame.journal.trans h.journal, hsame.transaction.trans h.transaction,
    (hsame.active _ hne).trans h.active, (hsame.pointer _ hne).trans h.pointer⟩

/-- The wiki that a call of a rollback is about. -/
def wikiOf : Call → Option String
  | .readActive wiki => some wiki
  | .activeIsPresent wiki => some wiki
  | .activeIsDirectory wiki => some wiki
  | .backupIsPresent wiki => some wiki
  | .readPointer wiki => some wiki
  | .removeLink wiki => some wiki
  | .restoreBackup wiki => some wiki
  | .linkActive wiki _ => some wiki
  | .writePointer wiki _ => some wiki
  | .removePointer wiki => some wiki
  | .refreshIndex wiki => some wiki
  | _ => none

/-- A call that is for one wiki changes that wiki at most. -/
theorem perform_same {c : Call} (hc : wikiOf c = some wiki) : SameBut wiki s (s.perform c).2 := by
  cases c
  case removeLink =>
    obtain rfl := Option.some.inj hc
    show SameBut _ s (if _ then _ else _)
    split
    · exact sameBut_setActive ..
    · exact .refl ..
  case restoreBackup =>
    obtain rfl := Option.some.inj hc
    show SameBut _ s (renamed s _ _ _).2
    unfold renamed
    split
    · exact (sameBut_setActive ..).trans (sameBut_setBackup ..)
    · exact .refl ..
  case linkActive =>
    obtain rfl := Option.some.inj hc
    show SameBut _ s (Prod.snd (if _ then _ else _))
    split
    · exact .refl ..
    · exact sameBut_setActive ..
  case writePointer =>
    obtain rfl := Option.some.inj hc
    exact sameBut_setPointer ..
  case removePointer =>
    obtain rfl := Option.some.inj hc
    exact sameBut_setPointer ..
  all_goals first | exact .refl .. | cases hc

/-- What is done about another wiki does not help. -/
abbrev Elsewhere {α : Type} (Content : Type) [Merging Content] (selection : PublicationSelection)
    (entry : SelectionEntry) (pointer : Option String) (action : Action α) : Prop :=
  ∀ s : Site Content, Stuck selection entry pointer s →
    Safe (Stuck selection entry pointer) (fun _ _ => True) action s

section Elsewhere

variable {α β : Type}

theorem elsewhere_ask {c : Call} (hc : wikiOf c = some wiki) (hne : entry.wiki ≠ wiki) :
    Elsewhere Content selection entry pointer (ask c) :=
  fun _ h => (ask_safe h c (h.same (perform_same hc) hne)).mono fun _ _ _ => trivial

theorem elsewhere_check (x : Except String α) :
    Elsewhere Content selection entry pointer (check x) :=
  fun _ h => (check_safe h x).mono fun _ _ _ => trivial

theorem elsewhere_return (a : α) :
    Elsewhere Content selection entry pointer (pure a : Action α) :=
  fun _ h => .done h trivial

/-- Actions for other wikis compose. -/
theorem elsewhere_bind {action : Action α} {next : α → Action β}
    (haction : Elsewhere Content selection entry pointer action)
    (hnext : ∀ a, Elsewhere Content selection entry pointer (next a)) :
    Elsewhere Content selection entry pointer (action >>= next) :=
  fun s h => (haction s h).bind fun a t ht _ => hnext a t ht

theorem elsewhere_ite {c : Prop} [Decidable c] {action action' : Action α}
    (h : Elsewhere Content selection entry pointer action)
    (h' : Elsewhere Content selection entry pointer action') :
    Elsewhere Content selection entry pointer (if c then action else action') := by
  split
  · exact h
  · exact h'

end Elsewhere

theorem setCurrentSnapshot_elsewhere (hne : entry.wiki ≠ wiki) (snapshot : String)
    (candidate : Path) :
    Elsewhere Content selection entry pointer
      (setCurrentSnapshotForReadyCandidate proofs wiki snapshot candidate) := by
  have hwrite : Elsewhere Content selection entry pointer (ask (.writePointer wiki snapshot)) :=
    elsewhere_ask rfl hne
  exact elsewhere_ite (elsewhere_bind (elsewhere_check _) fun _ => hwrite)
    (elsewhere_bind (elsewhere_check _) fun _ => hwrite)

theorem restorePointer_elsewhere (hne : entry.wiki ≠ other.wiki) :
    Elsewhere Content selection entry pointer (restorePointer proofs other) := by
  unfold restorePointer
  cases other.previousSnapshot with
  | none => exact elsewhere_ask rfl hne
  | some snapshot =>
    refine elsewhere_ite (elsewhere_bind (elsewhere_check _) fun _ => elsewhere_ask rfl hne) ?_
    exact elsewhere_bind (elsewhere_check _) fun previous =>
      setCurrentSnapshot_elsewhere hne snapshot previous

theorem relinkPrevious_elsewhere (hne : entry.wiki ≠ other.wiki) :
    Elsewhere Content selection entry pointer (relinkPrevious proofs other) := by
  refine elsewhere_bind (elsewhere_ask rfl hne) fun present => ?_
  cases other.previousCandidateRelative with
  | none => exact elsewhere_return ()
  | some previous => exact elsewhere_ite (elsewhere_ask rfl hne) (elsewhere_return ())

theorem backupExists_elsewhere (hne : entry.wiki ≠ other.wiki) :
    Elsewhere Content selection entry pointer (backupExists other) :=
  elsewhere_ite (elsewhere_ask rfl hne) (elsewhere_return false)

theorem restoreEntry_elsewhere (hne : entry.wiki ≠ other.wiki) (selectedIsLive : Bool) :
    Elsewhere Content selection entry pointer (restoreEntry proofs other selectedIsLive) := by
  refine elsewhere_bind (elsewhere_ite (elsewhere_ask rfl hne) (elsewhere_return ())) fun _ => ?_
  refine elsewhere_bind (elsewhere_bind (backupExists_elsewhere hne) fun _ =>
    elsewhere_ite (elsewhere_ask rfl hne) (elsewhere_return ())) fun _ => ?_
  refine elsewhere_bind (relinkPrevious_elsewhere hne) fun _ => ?_
  exact elsewhere_bind (restorePointer_elsewhere hne) fun _ => elsewhere_ask rfl hne

/-- Rolling back another entry leaves the stuck one stuck. -/
theorem rollbackEntry_elsewhere (hne : entry.wiki ≠ other.wiki) :
    Elsewhere Content selection entry pointer (rollbackEntry proofs other) := by
  unfold rollbackEntry
  refine elsewhere_bind (elsewhere_ask rfl hne) fun activeTarget => ?_
  refine elsewhere_bind (elsewhere_ask rfl hne) fun directoryIsLive => ?_
  refine elsewhere_bind (backupExists_elsewhere hne) fun backupExists => ?_
  refine elsewhere_bind (elsewhere_ask rfl hne) fun found => ?_
  refine elsewhere_ite (elsewhere_return ()) ?_
  refine elsewhere_bind (elsewhere_ask rfl hne) fun present => ?_
  refine elsewhere_ite (elsewhere_return ()) ?_
  exact elsewhere_bind (elsewhere_check _) fun _ => restoreEntry_elsewhere hne _

/-- An entry with nothing to go back to but a pointer that is not the one before. -/
structure First (entry : SelectionEntry) (pointer : Option String) : Prop where
  previous : entry.previousCandidateRelative = none
  hasBackup : entry.hasBackup = false
  pointer : pointer ≠ entry.previousSnapshot

/-- The rollback cannot prove anything about the entry. -/
theorem rollbackEntry_refuses (hfirst : First entry pointer) (h : Stuck selection entry pointer s) :
    Safe (Stuck selection entry pointer) (fun _ _ => False) (rollbackEntry proofs entry) s := by
  unfold rollbackEntry backupExists
  rw [if_neg (by simp [hfirst.hasBackup])]
  refine (ask_safe h (.readActive entry.wiki) h).bind ?_
  rintro target s - ⟨rfl, htarget⟩
  obtain rfl := Except.ok.inj
    (show Except.ok (s.active entry.wiki).target = .ok target from htarget)
  refine (ask_safe h (.activeIsDirectory entry.wiki) h).bind ?_
  rintro directory s - ⟨rfl, hdirectory⟩
  obtain rfl := Except.ok.inj
    (show Except.ok (s.active entry.wiki).isDirectory = .ok directory from hdirectory)
  refine (ask_safe h (.readPointer entry.wiki) h).bind ?_
  rintro found s - ⟨rfl, hfound⟩
  obtain rfl := Except.ok.inj (show Except.ok (s.pointer entry.wiki) = .ok found from hfound)
  have hrestored : decide (s.pointer entry.wiki = entry.previousSnapshot) = false := by
    rw [h.pointer]
    exact decide_eq_false hfirst.pointer
  have hlive : entry.previousIsLive (s.active entry.wiki).target (s.active entry.wiki).isDirectory
      = false := by
    rw [h.active, SelectionEntry.previousIsLive, hfirst.previous]
    rfl
  have hselected : decide ((s.active entry.wiki).target = some entry.expectedTarget) = false := by
    rw [h.active]
    rfl
  rw [if_neg (by simp [hrestored])]
  refine (ask_safe h (.activeIsPresent entry.wiki) h).bind ?_
  rintro present s - ⟨rfl, -⟩
  rw [if_neg (by simp [hrestored])]
  refine (check_safe h _).bind ?_
  rintro _ s - ⟨rfl, hproven⟩
  have hproven := ensure_eq_ok.mp hproven
  rw [hselected, hlive] at hproven
  cases hproven

/-- The loop stops at the stuck entry, whichever are rolled back before it. -/
theorem rollbackSelectionFiles_refuses (hfirst : First entry pointer)
    (hentry : entry ∈ selection.entries)
    (hnodup : (selection.entries.map SelectionEntry.wiki).Nodup)
    (h : Stuck selection entry pointer s) :
    Safe (Stuck selection entry pointer) (fun _ _ => False)
      (rollbackSelectionFiles proofs selection) s := by
  have hloop : Safe (Stuck selection entry pointer)
      (fun _ _ => entry ∉ selection.entries.reverse)
        (rollbackSelectionFiles proofs selection) s := by
    refine forEach_safe (fun (done : List SelectionEntry) _ => entry ∉ done)
      (fun done other rest hdone t ht hmem => ?_) h List.not_mem_nil
    have hother : other ∈ selection.entries := by
      rw [← List.mem_reverse, hdone]
      exact List.mem_append_right _ List.mem_cons_self
    by_cases hwiki : entry.wiki = other.wiki
    · rw [← List.inj_on_of_nodup_map hnodup hentry hother hwiki]
      exact (rollbackEntry_refuses hfirst ht).mono fun _ _ hfalse => hfalse.elim
    · refine (rollbackEntry_elsewhere hwiki t ht).mono fun _ _ _ hmem' => ?_
      rcases List.mem_append.mp hmem' with hmem' | hmem'
      · exact hmem hmem'
      · exact hwiki (congrArg _ (List.mem_singleton.mp hmem'))
  exact hloop.mono fun _ _ hmem => hmem (List.mem_reverse.mpr hentry)

/-- Whatever else a rollback asks of the journal. -/
theorem readJournal_refuses {α : Type} {next : PublicationSelection → Action α}
    (h : Stuck selection entry pointer s)
    (hnext : Safe (Stuck selection entry pointer) (fun _ _ => False) (next selection) s) :
    Safe (Stuck selection entry pointer) (fun _ _ => False) (ask .readJournal >>= next) s := by
  refine (ask_safe h .readJournal h).bind ?_
  rintro found s - ⟨rfl, hjournal⟩
  have hjournal := context_eq_ok.mp hjournal
  rw [h.journal] at hjournal
  rw [← Option.some.inj hjournal]
  exact hnext

/-- A check before something that refuses. -/
theorem check_refuses {α : Type} {next : Unit → Action α} (x : Except String Unit)
    (h : Stuck selection entry pointer s)
    (hnext : Safe (Stuck selection entry pointer) (fun _ _ => False) (next ()) s) :
    Safe (Stuck selection entry pointer) (fun _ _ => False) (check x >>= next) s := by
  refine (check_safe h x).bind ?_
  rintro _ s - ⟨rfl, -⟩
  exact hnext

/-- The rollback as a whole stops there, since it begins with that loop. -/
theorem rollbackReadyPublication_refuses (hfirst : First entry pointer)
    (hentry : entry ∈ selection.entries)
    (hnodup : (selection.entries.map SelectionEntry.wiki).Nodup)
    (h : Stuck selection entry pointer s) :
    Safe (Stuck selection entry pointer) (fun _ _ => False)
      (rollbackReadyPublication proofs runId) s := by
  refine check_refuses _ h (readJournal_refuses h (check_refuses _ h ?_))
  exact (rollbackSelectionFiles_refuses hfirst hentry hnodup h).bind fun _ _ _ hfalse => hfalse.elim

/-- Finding the selection in the journal does not help: the entry is in it. -/
theorem rollbackUnpublishedSelection_refuses (hfirst : First entry pointer)
    (hentry : entry ∈ selection.entries)
    (hnodup : (selection.entries.map SelectionEntry.wiki).Nodup)
    (h : Stuck selection entry pointer s) (recoveryRunId : String) :
    Safe (Stuck selection entry pointer) (fun _ _ => False)
      (rollbackUnpublishedSelection proofs runId recoveryRunId) s := by
  refine check_refuses _ h (readJournal_refuses h (check_refuses _ h (check_refuses _ h ?_)))
  exact (rollbackSelectionFiles_refuses hfirst hentry hnodup h).bind fun _ _ _ hfalse => hfalse.elim

/-- A new activation is refused while the transaction of another is open. -/
theorem activateReadyCandidates_refuses {candidates : List ReadyWikiCandidate}
    (h : Stuck selection entry pointer s) :
    Safe (Stuck selection entry pointer) (fun _ _ => False)
      (activateReadyCandidates proofs candidates runId) s := by
  refine (check_safe h _).bind ?_
  rintro _ s - ⟨rfl, -⟩
  refine (ask_safe h .transactionExists h).bind ?_
  rintro present s - ⟨rfl, hpresent⟩
  obtain rfl := Except.ok.inj (show Except.ok s.transaction = .ok present from hpresent)
  refine (check_safe h _).bind ?_
  rintro _ s - ⟨rfl, habsent⟩
  exact absurd (h.transaction.symm.trans (ensure_eq_ok.mp habsent)) (by simp)

/-- So no new publication gets past the stuck one. -/
theorem prepareReadyPublication_refuses {candidates : List ReadyWikiCandidate}
    (h : Stuck selection entry pointer s) :
    Safe (Stuck selection entry pointer) (fun _ _ => False)
      (prepareReadyPublication proofs candidates runId) s :=
  (activateReadyCandidates_refuses h).bind fun _ _ _ hfalse => hfalse.elim

/-- **A first publication whose rollback lost its link but not its pointer is stuck**: no
publication or rollback of the same run after that ever finishes, and the pointer stays. -/
theorem first_publication_stuck (hfirst : First entry pointer) (hentry : entry ∈ selection.entries)
    (hnodup : (selection.entries.map SelectionEntry.wiki).Nodup)
    (hstuck : Stuck selection entry pointer s) {events : List (Event Content)}
    (hrun : (publication proofs runId).Run s events t) :
    Stuck selection entry pointer t ∧ ∀ faults calls,
      (∀ found candidates, (cutOff (activateReadyCandidates proofs candidates runId)
        faults calls t).1
        ≠ .done found) ∧
      (∀ candidates, (cutOff (prepareReadyPublication proofs candidates runId) faults calls t).1
        ≠ .done ()) ∧
      (cutOff (rollbackReadyPublication proofs runId) faults calls t).1 ≠ .done () ∧
      ∀ rebuilt recoveryRunId, (cutOff (rollbackUnpublishedSelection proofs runId recoveryRunId)
        faults calls t).1 ≠ .done rebuilt := by
  have hstays : Stuck selection entry pointer t := by
    refine hrun.preserves (fun s event t h hstep => ?_) hstuck
    obtain rfl := hstep
    cases event with
    | prepare candidates faults calls =>
      exact ((prepareReadyPublication_refuses h).steps faults calls).1
    | rollback faults calls =>
      exact ((rollbackReadyPublication_refuses hfirst hentry hnodup h).steps faults calls).1
    | recover recoveryRunId faults calls =>
      exact ((rollbackUnpublishedSelection_refuses hfirst hentry hnodup h recoveryRunId).steps
        faults calls).1
    | replaceMerged merged => exact ⟨h.journal, h.transaction, h.active, h.pointer⟩
  refine ⟨hstays, fun faults calls => ⟨fun found candidates hdone => ?_, fun candidates hdone => ?_,
    fun hdone => ?_, fun rebuilt recoveryRunId hdone => ?_⟩⟩
  · exact ((activateReadyCandidates_refuses hstays).steps faults calls).2 found hdone
  · exact ((prepareReadyPublication_refuses hstays).steps faults calls).2 () hdone
  · exact ((rollbackReadyPublication_refuses hfirst hentry hnodup hstays).steps faults calls).2 ()
      hdone
  · exact ((rollbackUnpublishedSelection_refuses hfirst hentry hnodup hstays recoveryRunId).steps
      faults calls).2 rebuilt hdone

/-- Nothing is published. -/
def nothing : Site Gate where
  active _ := .absent
  backup _ := .absent
  temporary _ := none
  pointer _ := none
  transaction := false
  journal := none
  merged := []
  publicationBackup := none

def firstEntry : SelectionEntry :=
  ⟨"nlwiki", "2026-08", ["_candidates", "nlwiki", "2026-08", "run-1"], none, none, false⟩

/-- The rollback is killed when it has removed the link. -/
def halfway : Site Gate :=
  next published "run-1" (next published "run-1" nothing (.prepare august [] 16))
    (.recover "run-2" [] 6)

theorem first_publication_stuck_august : ¬∃ rebuilt,
    (cutOff (rollbackUnpublishedSelection published "run-1" "run-3") [] 30
      (next published "run-1" halfway (.rollback [] 30))).1 = .done rebuilt := by
  have hselection : halfway.journal = some ⟨1, "run-1", "selected", [firstEntry]⟩ ∧
      halfway.transaction = true ∧ halfway.active "nlwiki" = .absent ∧
      halfway.pointer "nlwiki" = some "2026-08" := by decide +kernel
  obtain ⟨hjournal, htransaction, hactive, hpointer⟩ := hselection
  have hstuck : Stuck ⟨1, "run-1", "selected", [firstEntry]⟩ firstEntry (some "2026-08") halfway :=
    ⟨hjournal, htransaction, hactive, hpointer⟩
  have hrun : (publication published "run-1").Run halfway [.rollback [] 30]
      (next published "run-1" halfway (.rollback [] 30)) := .snoc (.nil halfway) rfl
  rintro ⟨rebuilt, hdone⟩
  exact ((first_publication_stuck ⟨rfl, rfl, by decide⟩ List.mem_cons_self (by decide)
    hstuck hrun).2 [] 30).2.2.2 rebuilt "run-3" hdone

end WikiEcon.Publication.Selection
