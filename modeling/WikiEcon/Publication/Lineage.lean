import WikiEcon.Lib.Ancestry
import WikiEcon.Publication.Registry

/-!
# The lineage of an interrupted publication

A publication that was interrupted may have been overtaken by later ones. Recovery walks
the committed edges back from the live candidate of a wiki to the one that was selected;
`prove_recovery_candidate_lineage` accepts the walk if every candidate on the way has one
committed predecessor and the generation records agree at both ends.

`recovery_lineage` says that the walk ends, that what it returns is a chain of committed
edges (`Lineage`), and that it returns for the only such chain.
-/

namespace WikiEcon.Publication

open Ancestry

/-! ## Generations -/

inductive GenerationState
  | building
  | validated
  | ready
  | published
  | superseded
  | retired
  deriving DecidableEq

structure StateTransition where
  state : GenerationState
  publicationRunId : Option String
  deriving DecidableEq

structure GenerationRecord where
  state : GenerationState
  history : List StateTransition
  deriving DecidableEq

def transitionWasRecorded (record : GenerationRecord) (state : GenerationState)
    (publicationRunId : String) : Bool :=
  record.history.any fun transition =>
    transition.state = state && transition.publicationRunId = some publicationRunId

structure SelectionEntry where
  wiki : String
  snapshot : String
  candidateRelative : String
  previousCandidateRelative : Option String
  deriving DecidableEq

structure CommittedCandidateEdge where
  wiki : String
  candidateRelative : String
  previousCandidateRelative : String
  publicationRunId : String
  deriving DecidableEq

structure RecoveryCandidateLineage where
  liveCandidateRelative : String
  liveSnapshot : String
  rollbackCandidateRelative : Option String
  supersedingRunIds : List String
  deriving DecidableEq

/-- The fields of `ready.json` that the proof reads. -/
structure ReadyIdentity where
  wiki : String
  snapshot : String
  deriving DecidableEq

/-! ## Identities from paths -/

def validComponent (value : String) : Bool :=
  value ≠ "" && value.toList.all fun c => c.isAlphanum || c == '-' || c == '_' || c == '.'

/-- `validate_snapshot_version(..).is_ok()`. -/
def isSnapshotVersion (version : String) : Bool :=
  match version.toList with
  | [y, z, u, v, dash, m, n] => [y, z, u, v, m, n].all Char.isDigit && dash == '-'
    && 1 ≤ 10 * (m.toNat - '0'.toNat) + (n.toNat - '0'.toNat)
    && 10 * (m.toNat - '0'.toNat) + (n.toNat - '0'.toNat) ≤ 12
  | _ => false

/-- The names of a path. -/
def pathComponents (path : String) : List String :=
  ((path.toList.splitOn '/').map String.ofList).filter fun name => name ≠ "" && name ≠ "."

def fileName (components : List String) : Option String :=
  components.getLast?.filter fun name => name ≠ ".."

/-- The snapshot and the run of a candidate directory. -/
def candidateIdentity (candidateDir : String) : Option (String × String) := do
  let components := pathComponents candidateDir
  let runId ← fileName components
  let snapshot ← fileName components.dropLast
  if validComponent runId && isSnapshotVersion snapshot then some (snapshot, runId) else none

/-! ## The proof of a lineage -/

/-- What recovery reads: the candidate a wiki's link points to, the generation records and
the ready receipts. -/
structure RecoveryStore where
  outputDir : String
  activeCandidateRelative : String → Except String (Option String)
  loadGeneration : String → String → String → Except String (Option GenerationRecord)
  readReady : String → Except String ReadyIdentity

def generationRecordForCandidate (store : RecoveryStore) (wiki candidateRelative : String) :
    Except String GenerationRecord := do
  let identity ← context (candidateIdentity (store.outputDir ++ "/" ++ candidateRelative))
    "recovery candidate has no valid generation identity"
  let record ← store.loadGeneration wiki identity.1 identity.2
  context record "recovery candidate has no generation state"

/-- The loop's variables. -/
structure BackwardWalk where
  cursor : String
  rollbackCandidateRelative : Option String
  supersedingRunIds : List String
  visited : List String

def committedPredecessors (edges : List CommittedCandidateEdge) (wiki cursor : String) :
    List CommittedCandidateEdge :=
  edges.filter fun edge => edge.wiki = wiki && edge.candidateRelative = cursor

/-- The body of the loop. -/
def stepBack (edges : List CommittedCandidateEdge) (wiki : String) (walk : BackwardWalk) :
    Except String BackwardWalk := do
  ensure (walk.cursor ∉ walk.visited) "committed candidate lineage contains a cycle"
  let found := committedPredecessors edges wiki walk.cursor
  match found with
  | [edge] => return {
      cursor := edge.previousCandidateRelative
      rollbackCandidateRelative :=
        walk.rollbackCandidateRelative.or (some edge.previousCandidateRelative)
      supersedingRunIds := walk.supersedingRunIds ++ [edge.publicationRunId]
      visited := walk.cursor :: walk.visited }
  | _ => throw (wiki ++ " has " ++ toString found.length ++ " committed predecessors for candidate "
      ++ walk.cursor)

/-- The loop; no result while fuel is left to be given. -/
def walkBack (edges : List CommittedCandidateEdge) (entry : SelectionEntry) :
    ℕ → BackwardWalk → Option (Except String BackwardWalk)
  | 0, _ => none
  | fuel + 1, walk =>
    if walk.cursor = entry.candidateRelative then some (.ok walk)
    else match stepBack edges entry.wiki walk with
      | .error error => some (.error error)
      | .ok next => walkBack edges entry fuel next

/-- The checks after the loop. -/
def concludeLineage (store : RecoveryStore) (entry : SelectionEntry) (live : String)
    (walk : BackwardWalk) : Except String RecoveryCandidateLineage := do
  let supersedingRunIds := walk.supersedingRunIds.reverse
  let firstPublication ← context supersedingRunIds.head?
    "superseded lineage has no first publication"
  let selected ← generationRecordForCandidate store entry.wiki entry.candidateRelative
  ensure ((selected.state = .superseded ∨ selected.state = .retired) ∧
      transitionWasRecorded selected .superseded firstPublication = true)
    "selected candidate is not linked to its first committed superseding publication"
  let finalPublication ← context supersedingRunIds.getLast?
    "superseded lineage has no final publication"
  let liveRecord ← generationRecordForCandidate store entry.wiki live
  ensure (liveRecord.state = .published ∧
      transitionWasRecorded liveRecord .published finalPublication = true)
    "live candidate is not linked to the final committed publication"
  let ready ← store.readReady live
  ensure (ready.wiki = entry.wiki) "live ready candidate wiki mismatch"
  return {
    liveCandidateRelative := live
    liveSnapshot := ready.snapshot
    rollbackCandidateRelative := walk.rollbackCandidateRelative
    supersedingRunIds := supersedingRunIds }

def liveCandidate (store : RecoveryStore) (wiki : String) : Except String String := do
  let active ← store.activeCandidateRelative wiki
  context active (wiki ++ " has no qualified live candidate")

def proveRecoveryCandidateLineage (store : RecoveryStore) (entry : SelectionEntry)
    (edges : List CommittedCandidateEdge) (fuel : ℕ) :
    Option (Except String RecoveryCandidateLineage) :=
  match liveCandidate store entry.wiki with
  | .error error => some (.error error)
  | .ok live =>
    if live = entry.candidateRelative then some (.ok {
      liveCandidateRelative := live
      liveSnapshot := entry.snapshot
      rollbackCandidateRelative := entry.previousCandidateRelative
      supersedingRunIds := [] })
    else (walkBack edges entry fuel ⟨live, none, [], []⟩).map fun result =>
      result >>= concludeLineage store entry live

/-! ## What a lineage is -/

/-- The edges of a wiki that lead from the selected candidate to the live one, the oldest
first, each the only committed one into its candidate. -/
structure Lineage (edges : List CommittedCandidateEdge) (entry : SelectionEntry) (live : String)
    (chain : List CommittedCandidateEdge) : Prop where
  committed : ∀ e ∈ chain, e ∈ edges ∧ e.wiki = entry.wiki
  links : Links CommittedCandidateEdge.previousCandidateRelative
    CommittedCandidateEdge.candidateRelative entry.candidateRelative chain live
  sole : ∀ e ∈ chain, committedPredecessors edges entry.wiki e.candidateRelative = [e]

/-- The records of the selected and of the live candidate name the first and the last
publication of the chain, and the live candidate is one of the wiki. -/
structure Recorded (store : RecoveryStore) (entry : SelectionEntry) (live : String)
    (chain : List CommittedCandidateEdge) : Prop where
  selected : ∀ first ∈ chain.head?, ∃ record,
    generationRecordForCandidate store entry.wiki entry.candidateRelative = .ok record ∧
      (record.state = .superseded ∨ record.state = .retired) ∧
      transitionWasRecorded record .superseded first.publicationRunId = true
  final : ∀ last ∈ chain.getLast?, ∃ record,
    generationRecordForCandidate store entry.wiki live = .ok record ∧ record.state = .published ∧
      transitionWasRecorded record .published last.publicationRunId = true
  ready : chain ≠ [] → ∃ ready, store.readReady live = .ok ready ∧ ready.wiki = entry.wiki

/-- What a result says. -/
structure Proves (store : RecoveryStore) (entry : SelectionEntry)
    (edges chain : List CommittedCandidateEdge) (lineage : RecoveryCandidateLineage) : Prop where
  active : liveCandidate store entry.wiki = .ok lineage.liveCandidateRelative
  chained : Lineage edges entry lineage.liveCandidateRelative chain
  recorded : Recorded store entry lineage.liveCandidateRelative chain
  runs : lineage.supersedingRunIds = chain.map CommittedCandidateEdge.publicationRunId
  /-- The predecessor of the live candidate, which is that of the entry if it is selected. -/
  rollback : lineage.rollbackCandidateRelative
    = chain.getLast?.elim entry.previousCandidateRelative fun last =>
      some last.previousCandidateRelative

/-! ## The walk -/

/-- The walk has followed these edges back from the live candidate. -/
structure Walked (edges : List CommittedCandidateEdge) (entry : SelectionEntry) (live : String)
    (walk : BackwardWalk) (chain : List CommittedCandidateEdge) : Prop where
  links : Links CommittedCandidateEdge.previousCandidateRelative
    CommittedCandidateEdge.candidateRelative walk.cursor chain live
  sole : ∀ e ∈ chain, committedPredecessors edges entry.wiki e.candidateRelative = [e]
  visited : walk.visited = chain.map CommittedCandidateEdge.candidateRelative
  distinct : (chain.map CommittedCandidateEdge.candidateRelative).Nodup
  runs : walk.supersedingRunIds = (chain.map CommittedCandidateEdge.publicationRunId).reverse
  rollback : walk.rollbackCandidateRelative
    = chain.getLast?.map CommittedCandidateEdge.previousCandidateRelative

section Walk

variable {edges chain : List CommittedCandidateEdge} {entry : SelectionEntry} {live : String}
  {walk next : BackwardWalk}

theorem mem_of_committedPredecessors {wiki cursor : String} {e : CommittedCandidateEdge}
    (h : committedPredecessors edges wiki cursor = [e]) :
    e ∈ edges ∧ e.wiki = wiki ∧ e.candidateRelative = cursor := by
  have hmem : e ∈ committedPredecessors edges wiki cursor := by
    rw [h]; exact List.mem_singleton_self e
  obtain ⟨hedges, hcondition⟩ := List.mem_filter.mp hmem
  obtain ⟨hwiki, hcursor⟩ := Bool.and_eq_true_iff.mp hcondition
  exact ⟨hedges, of_decide_eq_true hwiki, of_decide_eq_true hcursor⟩

/-- A turn of the loop finds the only edge into the cursor, which was not visited before. -/
theorem stepBack_eq_ok {wiki : String} : stepBack edges wiki walk = .ok next ↔
    walk.cursor ∉ walk.visited ∧ ∃ e, committedPredecessors edges wiki walk.cursor = [e] ∧
      next = {
        cursor := e.previousCandidateRelative
        rollbackCandidateRelative :=
          walk.rollbackCandidateRelative.or (some e.previousCandidateRelative)
        supersedingRunIds := walk.supersedingRunIds ++ [e.publicationRunId]
        visited := walk.cursor :: walk.visited } := by
  unfold stepBack
  rw [bind_eq_ok]
  constructor
  · rintro ⟨_, hensure, h⟩
    refine ⟨ensure_eq_ok.mp hensure, ?_⟩
    cases hfound : committedPredecessors edges wiki walk.cursor with
    | nil =>
      rw [hfound] at h
      exact absurd h (by simp [throw, throwThe, MonadExceptOf.throw])
    | cons e rest =>
      rw [hfound] at h
      cases rest with
      | nil => exact ⟨e, rfl, (Except.ok.inj h).symm⟩
      | cons _ _ => exact absurd h (by simp [throw, throwThe, MonadExceptOf.throw])
  · rintro ⟨hvisited, e, hfound, rfl⟩
    refine ⟨(), ensure_eq_ok.mpr hvisited, ?_⟩
    rw [hfound]
    rfl

theorem Walked.step (h : Walked edges entry live walk chain)
    (hstep : stepBack edges entry.wiki walk = .ok next) :
    ∃ e, Walked edges entry live next (e :: chain) ∧ e.candidateRelative = walk.cursor := by
  obtain ⟨hvisited, e, hfound, rfl⟩ := stepBack_eq_ok.mp hstep
  obtain ⟨-, -, hcursor⟩ := mem_of_committedPredecessors hfound
  refine ⟨e, ⟨⟨rfl, hcursor ▸ h.links⟩, ?_, ?_, ?_, ?_, ?_⟩, hcursor⟩
  · intro d hd
    rcases List.mem_cons.mp hd with rfl | hd
    · rw [hcursor]
      exact hfound
    · exact h.sole d hd
  · show walk.cursor :: walk.visited = _
    rw [h.visited, List.map_cons, hcursor]
  · rw [List.map_cons, List.nodup_cons, hcursor, ← h.visited]
    exact ⟨hvisited, h.visited ▸ h.distinct⟩
  · show walk.supersedingRunIds ++ [e.publicationRunId] = _
    rw [h.runs, List.map_cons, List.reverse_cons]
  · show walk.rollbackCandidateRelative.or (some e.previousCandidateRelative) = _
    rw [h.rollback, List.getLast?_cons]
    cases chain.getLast? <;> rfl

theorem Walked.mem_edges (h : Walked edges entry live walk chain) :
    ∀ e ∈ chain, e ∈ edges ∧ e.wiki = entry.wiki := fun e he => by
  obtain ⟨hedges, hwiki, -⟩ := mem_of_committedPredecessors (h.sole e he)
  exact ⟨hedges, hwiki⟩

/-- **The loop ends**: every turn visits another target of an edge. -/
theorem Walked.terminates (h : Walked edges entry live walk chain) {fuel : ℕ}
    (hfuel : edges.length + 2 ≤ fuel + chain.length) :
    (walkBack edges entry fuel walk).isSome = true := by
  induction fuel generalizing walk chain with
  | zero =>
    have hlen := length_le_of_nodup h.distinct fun e he => (h.mem_edges e he).1
    omega
  | succ fuel ih =>
    unfold walkBack
    split
    · rfl
    · cases hstep : stepBack edges entry.wiki walk with
      | error error => rfl
      | ok next =>
        obtain ⟨e, hnext, -⟩ := h.step hstep
        exact ih hnext (by rw [List.length_cons]; omega)

/-- Where the loop stops the walk has come back to the selected candidate. -/
theorem Walked.result (h : Walked edges entry live walk chain) {fuel : ℕ} {last : BackwardWalk}
    (hresult : walkBack edges entry fuel walk = some (.ok last)) :
    ∃ more, Walked edges entry live last (more ++ chain) ∧ last.cursor = entry.candidateRelative ∧
      (walk.cursor ≠ entry.candidateRelative → more ≠ []) := by
  induction fuel generalizing walk chain with
  | zero => exact absurd hresult (by simp [walkBack])
  | succ fuel ih =>
    unfold walkBack at hresult
    split at hresult
    next hcursor =>
      obtain rfl := Except.ok.inj (Option.some.inj hresult)
      exact ⟨[], h, hcursor, fun hne => absurd hcursor hne⟩
    next =>
      cases hstep : stepBack edges entry.wiki walk with
      | error error =>
        rw [hstep] at hresult
        exact absurd (Option.some.inj hresult) (by simp)
      | ok next =>
        rw [hstep] at hresult
        obtain ⟨e, hnext, -⟩ := h.step hstep
        obtain ⟨more, hlast, hcursor, -⟩ := ih hnext hresult
        refine ⟨more ++ [e], by rw [List.append_assoc]; exact hlast, hcursor, fun _ => by simp⟩

/-- The loop follows a chain that does not come back to the selected candidate to its start. -/
theorem Walked.follow (h : Walked edges entry live walk chain)
    {before : List CommittedCandidateEdge}
    (hlinks : Links CommittedCandidateEdge.previousCandidateRelative
      CommittedCandidateEdge.candidateRelative entry.candidateRelative before walk.cursor)
    (hsole : ∀ e ∈ before, committedPredecessors edges entry.wiki e.candidateRelative = [e])
    (hdistinct : ((before ++ chain).map CommittedCandidateEdge.candidateRelative).Nodup)
    (hstart : entry.candidateRelative ∉ before.map CommittedCandidateEdge.candidateRelative)
    {fuel : ℕ} (hfuel : before.length < fuel) :
    ∃ last, walkBack edges entry fuel walk = some (.ok last) ∧
      Walked edges entry live last (before ++ chain) := by
  induction before using List.reverseRecOn generalizing walk chain fuel with
  | nil =>
    obtain ⟨fuel, rfl⟩ : ∃ n, fuel = n + 1 := ⟨fuel - 1, by simp at hfuel; omega⟩
    refine ⟨walk, ?_, h⟩
    unfold walkBack
    exact if_pos hlinks.symm
  | append_singleton before e ih =>
    obtain ⟨fuel, rfl⟩ : ∃ n, fuel = n + 1 := ⟨fuel - 1, by simp at hfuel; omega⟩
    obtain ⟨hbefore, htarget⟩ := links_snoc.mp hlinks
    rw [List.map_append, List.mem_append, not_or] at hstart
    have hnot : walk.cursor ≠ entry.candidateRelative := fun heq =>
      hstart.2 (by simp [← heq, ← htarget])
    have hfound := hsole e (by simp)
    rw [htarget] at hfound
    have hnew : walk.cursor ∉ walk.visited := by
      rw [h.visited, ← htarget]
      rw [List.append_assoc, List.singleton_append, List.map_append, List.map_cons] at hdistinct
      exact (List.nodup_cons.mp (List.nodup_append.mp hdistinct).2.1).1
    have hstep := stepBack_eq_ok.mpr ⟨hnew, e, hfound, rfl⟩
    obtain ⟨e', hnext, hcandidate⟩ := h.step hstep
    obtain rfl : e' = e := by
      have he' := hnext.sole e' List.mem_cons_self
      rw [hcandidate, hfound] at he'
      exact (List.singleton_inj.mp he').symm
    obtain ⟨last, hresult, hlast⟩ :=
      ih hnext hbefore (fun d hd => hsole d (List.mem_append_left _ hd))
      (by simpa using hdistinct) hstart.1 (by simp at hfuel; omega)
    refine ⟨last, ?_, by simpa using hlast⟩
    unfold walkBack
    rw [if_neg hnot, hstep]
    exact hresult

end Walk

/-! ## The proof as a whole -/

section Proof

variable {store : RecoveryStore} {edges chain : List CommittedCandidateEdge}
  {entry : SelectionEntry}
  {live : String} {walk : BackwardWalk} {lineage : RecoveryCandidateLineage}

/-- The edges of a wiki are enough to say that a chain has no forks. -/
theorem Lineage.sole_ancestry (h : Lineage edges entry live chain) :
    Sole CommittedCandidateEdge.candidateRelative
      (edges.filter fun edge => edge.wiki = entry.wiki) chain := by
  intro e he
  obtain ⟨hedges, hwiki⟩ := h.committed e he
  refine ⟨List.mem_filter.mpr ⟨hedges, decide_eq_true hwiki⟩, fun other hother hsame => ?_⟩
  obtain ⟨hmem, hotherWiki⟩ := List.mem_filter.mp hother
  have hfound : other ∈ committedPredecessors edges entry.wiki e.candidateRelative :=
    List.mem_filter.mpr ⟨hmem, Bool.and_eq_true_iff.mpr ⟨hotherWiki, decide_eq_true hsame⟩⟩
  rw [h.sole e he] at hfound
  exact List.mem_singleton.mp hfound

/-- The only lineage does not come back to the selected candidate. -/
theorem Lineage.start_notMem (h : Lineage edges entry live chain)
    (honly : ∀ other, Lineage edges entry live other → other = chain) :
    entry.candidateRelative ∉ chain.map CommittedCandidateEdge.candidateRelative := by
  intro hstart
  obtain ⟨later, hlinks, hlen, hsub⟩ := h.links.shorter hstart
  have hlater := honly later ⟨fun e he => h.committed e (hsub e he), hlinks,
    fun e he => h.sole e (hsub e he)⟩
  rw [hlater] at hlen
  exact Nat.lt_irrefl _ hlen

theorem concludeLineage_eq_ok (hruns : walk.supersedingRunIds.reverse
      = chain.map CommittedCandidateEdge.publicationRunId) :
    concludeLineage store entry live walk = .ok lineage ↔
      chain ≠ [] ∧ Recorded store entry live chain ∧ lineage.liveCandidateRelative = live ∧
        (∃ ready, store.readReady live = .ok ready ∧ lineage.liveSnapshot = ready.snapshot) ∧
        lineage.rollbackCandidateRelative = walk.rollbackCandidateRelative ∧
        lineage.supersedingRunIds = chain.map CommittedCandidateEdge.publicationRunId := by
  unfold concludeLineage
  dsimp only
  rw [hruns, List.head?_map, List.getLast?_map, bind_eq_ok]
  constructor
  · rintro ⟨run, hfirst, h⟩
    obtain ⟨first, hhead, rfl⟩ := Option.map_eq_some_iff.mp (context_eq_ok.mp hfirst)
    obtain ⟨selected, hselected, h⟩ := bind_eq_ok.mp h
    obtain ⟨_, hsuperseded, h⟩ := bind_eq_ok.mp h
    obtain ⟨finalRun, hfinal, h⟩ := bind_eq_ok.mp h
    obtain ⟨final, hlast, rfl⟩ := Option.map_eq_some_iff.mp (context_eq_ok.mp hfinal)
    obtain ⟨record, hrecord, h⟩ := bind_eq_ok.mp h
    obtain ⟨_, hpublished, h⟩ := bind_eq_ok.mp h
    obtain ⟨ready, hready, h⟩ := bind_eq_ok.mp h
    obtain ⟨_, hwiki, h⟩ := bind_eq_ok.mp h
    obtain rfl := Except.ok.inj h
    have hsuperseded := ensure_eq_ok.mp hsuperseded
    have hpublished := ensure_eq_ok.mp hpublished
    refine ⟨fun hnil => absurd hhead (by simp [hnil]),
      ⟨fun e he => ?_, fun e he => ?_, fun _ => ?_⟩, rfl,
      ⟨ready, hready, rfl⟩, rfl, rfl⟩
    · obtain rfl : first = e := Option.some.inj (hhead.symm.trans he)
      exact ⟨selected, hselected, hsuperseded⟩
    · obtain rfl : final = e := Option.some.inj (hlast.symm.trans he)
      exact ⟨record, hrecord, hpublished.1, hpublished.2⟩
    · exact ⟨ready, hready, ensure_eq_ok.mp hwiki⟩
  · rintro ⟨hne, hrecorded, hlive, ⟨ready, hready, hsnapshot⟩, hrollback, hids⟩
    obtain ⟨first, hhead⟩ := Option.isSome_iff_exists.mp (List.isSome_head?.mpr hne)
    obtain ⟨final, hlast⟩ := Option.isSome_iff_exists.mp (List.getLast?_isSome.mpr hne)
    obtain ⟨selected, hselected, hsuperseded⟩ := hrecorded.selected first hhead
    obtain ⟨record, hrecord, hpublished⟩ := hrecorded.final final hlast
    obtain ⟨ready', hready', hwiki⟩ := hrecorded.ready hne
    obtain rfl := Except.ok.inj (hready.symm.trans hready')
    refine ⟨_, context_eq_ok.mpr (by rw [hhead]; rfl), ?_⟩
    refine bind_eq_ok.mpr ⟨selected, hselected, ?_⟩
    refine bind_eq_ok.mpr ⟨(), ensure_eq_ok.mpr hsuperseded, ?_⟩
    refine bind_eq_ok.mpr ⟨_, context_eq_ok.mpr (by rw [hlast]; rfl), ?_⟩
    refine bind_eq_ok.mpr ⟨record, hrecord, ?_⟩
    refine bind_eq_ok.mpr ⟨(), ensure_eq_ok.mpr hpublished, ?_⟩
    refine bind_eq_ok.mpr ⟨ready, hready, ?_⟩
    refine bind_eq_ok.mpr ⟨(), ensure_eq_ok.mpr hwiki, ?_⟩
    obtain ⟨liveCandidateRelative, liveSnapshot, rollbackCandidateRelative, ids⟩ := lineage
    dsimp only at hlive hsnapshot hrollback hids
    rw [hlive, hsnapshot, hrollback, hids]
    rfl

theorem walked_start (edges : List CommittedCandidateEdge) (entry : SelectionEntry)
    (live : String) :
    Walked edges entry live ⟨live, none, [], []⟩ [] :=
  ⟨rfl, fun _ he => absurd he List.not_mem_nil, rfl, List.nodup_nil, rfl, rfl⟩

/-- What the result is once the live candidate is known and is not the selected one. -/
theorem prove_eq (hlive : liveCandidate store entry.wiki = .ok live)
    (hne : live ≠ entry.candidateRelative) (fuel : ℕ) :
    proveRecoveryCandidateLineage store entry edges fuel
      = (walkBack edges entry fuel ⟨live, none, [], []⟩).map fun result =>
        result >>= concludeLineage store entry live := by
  unfold proveRecoveryCandidateLineage
  rw [hlive]
  exact if_neg hne

theorem prove_selected (hlive : liveCandidate store entry.wiki = .ok live)
    (heq : live = entry.candidateRelative) (fuel : ℕ) :
    proveRecoveryCandidateLineage store entry edges fuel = some (.ok {
      liveCandidateRelative := live
      liveSnapshot := entry.snapshot
      rollbackCandidateRelative := entry.previousCandidateRelative
      supersedingRunIds := [] }) := by
  unfold proveRecoveryCandidateLineage
  rw [hlive]
  exact if_pos heq

theorem prove_terminates {fuel : ℕ} (hfuel : edges.length + 2 ≤ fuel) :
    (proveRecoveryCandidateLineage store entry edges fuel).isSome = true := by
  cases hlive : liveCandidate store entry.wiki with
  | error error =>
    unfold proveRecoveryCandidateLineage
    rw [hlive]
    rfl
  | ok live =>
    by_cases heq : live = entry.candidateRelative
    · rw [prove_selected hlive heq]
      rfl
    · rw [prove_eq hlive heq, Option.isSome_map]
      exact (walked_start edges entry live).terminates hfuel

theorem prove_sound {fuel : ℕ}
    (h : proveRecoveryCandidateLineage store entry edges fuel = some (.ok lineage)) :
    ∃ chain, Proves store entry edges chain lineage := by
  cases hlive : liveCandidate store entry.wiki with
  | error error =>
    unfold proveRecoveryCandidateLineage at h
    rw [hlive] at h
    exact absurd (Option.some.inj h) (by simp)
  | ok live =>
    by_cases heq : live = entry.candidateRelative
    · rw [prove_selected hlive heq] at h
      obtain rfl := Except.ok.inj (Option.some.inj h)
      refine ⟨[], hlive, ⟨fun _ he => absurd he List.not_mem_nil, heq.symm,
        fun _ he => absurd he List.not_mem_nil⟩, ⟨fun _ he => absurd he (by simp),
        fun _ he => absurd he (by simp), fun hne => absurd rfl hne⟩, rfl, rfl⟩
    · rw [prove_eq hlive heq] at h
      obtain ⟨result, hresult, hconclude⟩ := Option.map_eq_some_iff.mp h
      cases result with
      | error error => exact absurd hconclude (by simp [bind, Except.bind])
      | ok last =>
        obtain ⟨chain, hwalked, hcursor, -⟩ := (walked_start edges entry live).result hresult
        rw [List.append_nil] at hwalked
        have hruns : last.supersedingRunIds.reverse
            = chain.map CommittedCandidateEdge.publicationRunId := by
          rw [hwalked.runs, List.reverse_reverse]
        obtain ⟨hne, hrecorded, hlineage, -, hrollback, hids⟩ :=
          (concludeLineage_eq_ok hruns).mp hconclude
        refine ⟨chain, by rw [hlineage]; exact hlive,
          ?_, by rw [hlineage]; exact hrecorded, hids, ?_⟩
        · rw [hlineage]
          exact ⟨hwalked.mem_edges, hcursor ▸ hwalked.links, hwalked.sole⟩
        · obtain ⟨final, hlast⟩ := Option.isSome_iff_exists.mp (List.getLast?_isSome.mpr hne)
          rw [hrollback, hwalked.rollback, hlast]
          rfl

theorem prove_complete {fuel : ℕ} (hfuel : edges.length + 2 ≤ fuel)
    (hlive : liveCandidate store entry.wiki = .ok live) (hlineage : Lineage edges entry live chain)
    (honly : ∀ other, Lineage edges entry live other → other = chain)
    (hrecorded : Recorded store entry live chain) :
    ∃ lineage, proveRecoveryCandidateLineage store entry edges fuel = some (.ok lineage) := by
  by_cases heq : live = entry.candidateRelative
  · exact ⟨_, prove_selected hlive heq fuel⟩
  · have hstart := hlineage.start_notMem honly
    have hdistinct := hlineage.links.nodup hlineage.sole_ancestry hstart
    have hlen := length_le_of_nodup hdistinct fun e he => (hlineage.committed e he).1
    obtain ⟨last, hresult, hwalked⟩ := (walked_start edges entry live).follow hlineage.links
      hlineage.sole (by simpa using hdistinct) hstart (show chain.length < fuel by omega)
    rw [List.append_nil] at hwalked
    have hne : chain ≠ [] := by
      rintro rfl
      exact heq (hlineage.links : entry.candidateRelative = live).symm
    have hruns : last.supersedingRunIds.reverse
        = chain.map CommittedCandidateEdge.publicationRunId := by
      rw [hwalked.runs, List.reverse_reverse]
    obtain ⟨ready, hready, -⟩ := hrecorded.ready hne
    have hconclude : concludeLineage store entry live last = .ok ⟨live, ready.snapshot,
        last.rollbackCandidateRelative, chain.map CommittedCandidateEdge.publicationRunId⟩ :=
      (concludeLineage_eq_ok hruns).mpr ⟨hne, hrecorded, rfl, ⟨ready, hready, rfl⟩, rfl, rfl⟩
    refine ⟨⟨live, ready.snapshot, last.rollbackCandidateRelative,
      chain.map CommittedCandidateEdge.publicationRunId⟩, ?_⟩
    rw [prove_eq hlive heq, hresult]
    exact congrArg some hconclude

/-- **The lineage of a recovered publication**: the walk ends; what it returns is a chain of
committed edges without forks, recorded at both ends; and where there is one such chain it
returns. -/
theorem recovery_lineage (store : RecoveryStore) (entry : SelectionEntry)
    (edges : List CommittedCandidateEdge) {fuel : ℕ} (hfuel : edges.length + 2 ≤ fuel) :
    (∃ result, proveRecoveryCandidateLineage store entry edges fuel = some result) ∧
      (∀ lineage, proveRecoveryCandidateLineage store entry edges fuel = some (.ok lineage) →
        ∃ chain, Proves store entry edges chain lineage) ∧
      ∀ live chain, liveCandidate store entry.wiki = .ok live → Lineage edges entry live chain →
        (∀ other, Lineage edges entry live other → other = chain) →
        Recorded store entry live chain →
        ∃ lineage, proveRecoveryCandidateLineage store entry edges fuel = some (.ok lineage) :=
  ⟨Option.isSome_iff_exists.mp (prove_terminates hfuel), fun _ h => prove_sound h,
    fun _ _ hlive hlineage honly hrecorded => prove_complete hfuel hlive hlineage honly hrecorded⟩

end Proof

/-! ## A candidate overtaken twice -/

/-- Two publications after the selected one, and a candidate of another wiki. -/
def overtakenTwice : List CommittedCandidateEdge := [
  ⟨"nlwiki", "_candidates/nlwiki/2026-08/b", "_candidates/nlwiki/2026-08/a", "p2"⟩,
  ⟨"arwiki", "_candidates/arwiki/2026-08/z", "_candidates/arwiki/2026-07/y", "p2"⟩,
  ⟨"nlwiki", "_candidates/nlwiki/2026-09/c", "_candidates/nlwiki/2026-08/b", "p3"⟩]

def overtakenEntry : SelectionEntry where
  wiki := "nlwiki"
  snapshot := "2026-08"
  candidateRelative := "_candidates/nlwiki/2026-08/a"
  previousCandidateRelative := none

def overtakenStore : RecoveryStore where
  outputDir := "out"
  activeCandidateRelative _ := .ok (some "_candidates/nlwiki/2026-09/c")
  loadGeneration _ _ runId := .ok (some (
    if runId = "a" then ⟨.retired, [⟨.published, some "p1"⟩, ⟨.superseded, some "p2"⟩,
      ⟨.retired, some "p3"⟩]⟩
    else ⟨.published, [⟨.ready, none⟩, ⟨.published, some "p3"⟩]⟩))
  readReady _ := .ok ⟨"nlwiki", "2026-09"⟩

theorem recovery_lineage_overtakenTwice :
    ∃ chain, Proves overtakenStore overtakenEntry overtakenTwice
    chain ⟨"_candidates/nlwiki/2026-09/c", "2026-09", some "_candidates/nlwiki/2026-08/b",
      ["p2", "p3"]⟩ :=
  (recovery_lineage overtakenStore overtakenEntry overtakenTwice
    (show overtakenTwice.length + 2 ≤ 5 from le_refl 5)).2.1 _ (by decide +kernel)

end WikiEcon.Publication
