import Mathlib.Data.List.Sort
import Mathlib.Data.Prod.Lex
import WikiEcon.Publication.Registry

/-!
# The publication preflight

`publication_preflight_with_mode` walks the published wikis of the registry and says which
can be published. A wiki that cannot be is a blocker under `Strict` and is deferred under
`DeferUnavailable`. What the readers of the disk return is data here (`Store`): the verdict
is about any of it.

`preflight_consistent` compares the two modes. A run that defers every wiki it could have
refreshed is not eligible, unless a paused wiki is published next to them: the deferred
wikis are counted against all published ones.
-/

namespace WikiEcon.Publication

/-! ## The report -/

inductive PublicationPreflightMode
  | strict
  | deferUnavailable
  deriving DecidableEq

inductive PublicationRecoveryClassification
  | committed
  | rolledBack
  | noOp
  | reconciled
  | needsCommit
  | incorporatedByLaterPublication
  | needsResume
  | needsRollback
  | ambiguous
  deriving DecidableEq

/-- The classifications after which nothing is left to recover. -/
def PublicationRecoveryClassification.isTerminal : PublicationRecoveryClassification → Bool
  | .committed | .rolledBack | .noOp | .reconciled => true
  | _ => false

structure PublicationDeferral where
  wiki : String
  reason : String
  deriving DecidableEq

structure PublicationChange where
  wiki : String
  family : String
  deriving DecidableEq

structure PublicationPreflightWiki where
  wiki : String
  publishedSnapshot : Option String
  candidateSnapshot : Option String
  candidateRunId : Option String
  changedFamilies : List String
  reusedFamilies : List String
  deriving DecidableEq

structure PublicationPreflightReport where
  eligible : Bool
  wouldChange : Bool
  currentPublicationRunId : Option String
  siteSourceFingerprint : String
  recoveryClean : Bool
  scrubState : String
  blockers : List String
  deferred : List PublicationDeferral
  changed : List PublicationChange
  reused : List PublicationChange
  wikis : List PublicationPreflightWiki

/-! ## What is read -/

structure GateReceipt where
  runId : String
  wikiProofs : SortedMap String WikiPublicationProof

/-- The registry, the receipts of the output directory, and what reading the candidates of
a wiki returns. A candidate that was authenticated is a `Ready`. -/
structure Store (Ready : Type) where
  registry : LifecycleRegistry
  /-- `None` where the gate cannot be read. -/
  gate : Option GateReceipt
  /-- The classification of every transaction by the recovery audit. -/
  recovery : List PublicationRecoveryClassification
  /-- The state of the last scrub, where it can be read. -/
  scrubStatus : Option String
  readyIndex : String → Except String ReadyCandidateIndex
  readyFromReference : String → ReadyCandidateReference → Except String Ready
  artifactBackedFamilyProofs : Ready → Except String (SortedMap String FamilyPublicationProof)
  readyCandidateMergeContracts : Ready → Except String (SortedMap MetricId CandidateMergeContract)
  siteSourceFingerprint : Except String String

variable {Ready : Type}

def Store.recoveryClean (store : Store Ready) : Bool :=
  store.recovery.all PublicationRecoveryClassification.isTerminal

def Store.scrubState (store : Store Ready) : String := store.scrubStatus.getD "missing"

/-- What the gate has proved of a wiki. -/
def Store.previous (store : Store Ready) (wiki : String) : Option WikiPublicationProof :=
  store.gate.bind fun receipt => receipt.wikiProofs.get wiki

/-! ## One wiki -/

/-- What the walk over the wikis has collected. -/
structure Inspection where
  blockers : List String
  changed : List PublicationChange
  reused : List PublicationChange
  wikis : List PublicationPreflightWiki
  deferred : List PublicationDeferral
  mergeContracts : MetricId → Option (String × CandidateMergeContract)
  incompatibleMergeMetrics : List MetricId

/-- `blockers.extend`. -/
def Inspection.block (inspection : Inspection) (messages : List String) : Inspection :=
  { inspection with blockers := inspection.blockers ++ messages }

/-- True when the wiki contributed any blocker. -/
def recordWikiBlockers (wiki : String) (mode : PublicationPreflightMode)
    (wikiBlockers : List String)
    (inspection : Inspection) : Bool × Inspection :=
  if wikiBlockers.isEmpty then (false, inspection)
  else match mode with
    | .strict => (true, inspection.block wikiBlockers)
    | .deferUnavailable => (true, { inspection with
        deferred := inspection.deferred ++ [⟨wiki, "; ".intercalate wikiBlockers⟩] })

/-- The drift of one family against the proof of the same snapshot. -/
def familyDrift (wiki : String) (proof previousProof : WikiPublicationProof)
    (family : String × FamilyPublicationProof) : Option String := do
  let previousFamily ← previousProof.families.get family.1
  if previousFamily.algorithmVersion = family.2.algorithmVersion ∧
      previousFamily.receiptIdentity ≠ family.2.receiptIdentity then
    some (wiki ++ "/" ++ family.1 ++ " snapshot " ++ proof.snapshot
      ++ " changed its value fingerprint from " ++ previousFamily.receiptIdentity ++ " to "
      ++ family.2.receiptIdentity ++ " while algorithm_version " ++ family.2.algorithmVersion
      ++ " remained stable; bump the algorithm version before publishing")
  else none

def wikiDrift (previous : SortedMap String WikiPublicationProof)
    (entry : String × WikiPublicationProof) : List String :=
  match previous.get entry.1 with
  | some previousProof =>
    if previousProof.snapshot = entry.2.snapshot then
      entry.2.families.entries.filterMap (familyDrift entry.1 entry.2 previousProof)
    else []
  | none => []

def stableVersionValueDriftMessages (current : SortedMap String WikiPublicationProof)
    (previous : Option (SortedMap String WikiPublicationProof)) : List String :=
  match previous with
  | some previous => (current.entries.flatMap (wikiDrift previous)).insertionSort (· ≤ ·)
  | none => []

/-- What `record_candidate_fingerprint_drift` adds to the blockers. -/
def candidateFingerprintDrift (wiki : String) (reference : ReadyCandidateReference)
    (previous : WikiPublicationProof)
    (candidateProofs : Except String (SortedMap String FamilyPublicationProof)) : List String :=
  match candidateProofs with
  | .ok families => stableVersionValueDriftMessages (.single wiki ⟨reference.snapshot, families⟩)
      (some (.single wiki previous))
  | .error error => [wiki ++ " candidate value fingerprints could not be authenticated: " ++ error]

def recordCandidateMergeContract (wiki : String) (inspection : Inspection)
    (entry : MetricId × CandidateMergeContract) : Inspection :=
  match inspection.mergeContracts entry.1 with
  | some (otherWiki, expected) =>
    if expected ≠ entry.2 ∧ entry.1 ∉ inspection.incompatibleMergeMetrics then
      { inspection with
        incompatibleMergeMetrics := entry.1 :: inspection.incompatibleMergeMetrics
        blockers := inspection.blockers ++ [entry.1.asStr
          ++ " candidates have incompatible merge schemas or algorithm versions between "
          ++ otherWiki ++ " and " ++ wiki] }
    else inspection
  | none => { inspection with
      mergeContracts := Function.update inspection.mergeContracts entry.1 (some (wiki, entry.2)) }

/-- The families of the candidate, with the patrol receipt where there is one. -/
def candidateFamilies (reference : ReadyCandidateReference) : SortedMap String String :=
  if reference.patrolReceiptIdentity = "" then reference.coreFamilyReceiptIdentities
  else reference.coreFamilyReceiptIdentities.insert "patrol" reference.patrolReceiptIdentity

/-- Whether a family's receipt is the one the gate has. -/
def isReused (previous : Option WikiPublicationProof) (family : String × String) : Bool :=
  (previous.bind fun proof => proof.families.get family.1).any fun proof =>
    proof.receiptIdentity = family.2

/-- A wiki that is published without being refreshed keeps its families. -/
def reuseWiki (wiki : String) (previous : Option WikiPublicationProof) (inspection : Inspection) :
    Inspection :=
  let reusedFamilies := (previous.map fun proof => proof.families.keys).getD []
  { inspection with
    reused := inspection.reused ++ reusedFamilies.map fun family => ⟨wiki, family⟩
    wikis := inspection.wikis ++ [{
      wiki := wiki
      publishedSnapshot := previous.map WikiPublicationProof.snapshot
      candidateSnapshot := none
      candidateRunId := none
      changedFamilies := []
      reusedFamilies := reusedFamilies }] }

/-- The part of the loop after the last check that can hold a wiki back. -/
def selectWiki (wiki : String) (previous : Option WikiPublicationProof)
    (reference : ReadyCandidateReference) (contracts : SortedMap MetricId CandidateMergeContract)
    (inspection : Inspection) : Inspection :=
  let merged := contracts.entries.foldl (recordCandidateMergeContract wiki) inspection
  let checked := if previous.any fun proof => reference.snapshot < proof.snapshot then
      merged.block [wiki ++ " candidate " ++ reference.snapshot
        ++ " would downgrade the published snapshot"]
    else merged
  let families := (candidateFamilies reference).entries
  let reusedFamilies := (families.filter (isReused previous)).map Prod.fst
  let changedFamilies := (families.filter fun family => !isReused previous family).map Prod.fst
  { checked with
    reused := checked.reused ++ reusedFamilies.map fun family => ⟨wiki, family⟩
    changed := checked.changed ++ changedFamilies.map fun family => ⟨wiki, family⟩
    wikis := checked.wikis ++ [{
      wiki := wiki
      publishedSnapshot := previous.map WikiPublicationProof.snapshot
      candidateSnapshot := some reference.snapshot
      candidateRunId := some reference.runId
      changedFamilies := changedFamilies.insertionSort (· ≤ ·)
      reusedFamilies := reusedFamilies.insertionSort (· ≤ ·) }] }

/-- One turn of the loop over the registry. -/
def visitWiki (store : Store Ready) (mode : PublicationPreflightMode) (inspection : Inspection)
    (entry : String × LifecycleWiki) : Inspection :=
  let wiki := entry.1
  let previous := store.previous wiki
  if !entry.2.isPublished then inspection
  else if !entry.2.refresh.isManaged then reuseWiki wiki previous inspection
  else match store.readyIndex wiki with
    | .error error => (recordWikiBlockers wiki mode
        [wiki ++ " has no readable ready index: " ++ error] inspection).2
    | .ok index =>
      if ¬ (index.schemaVersion = readyIndexSchemaVersion ∧ index.wiki = wiki) then
        (recordWikiBlockers wiki mode [wiki ++ " ready index has an invalid identity"] inspection).2
      else
        let reference := index.newestValidReady
        match store.readyFromReference wiki reference with
        | .error error => (recordWikiBlockers wiki mode
            [wiki ++ " newest ready candidate failed authentication: " ++ error] inspection).2
        | .ok ready =>
          let drifted := match previous.filter fun proof => proof.snapshot = reference.snapshot with
            | some proof => inspection.block (candidateFingerprintDrift wiki reference proof
                (store.artifactBackedFamilyProofs ready))
            | none => inspection
          match store.readyCandidateMergeContracts ready with
          | .error error => (recordWikiBlockers wiki mode
              [wiki ++ " candidate merge contract is invalid: " ++ error] drifted).2
          | .ok contracts => selectWiki wiki previous reference contracts drifted

/-! ## The verdict -/

def Store.initialBlockers (store : Store Ready) : List String :=
  (if store.recoveryClean then []
    else ["publication recovery audit contains a non-terminal transaction"])
  ++ (if store.scrubState = "failed" then ["the latest published-artifact scrub failed"] else [])
  ++ (if store.gate.isNone then ["the current publication gate is missing or invalid"] else [])

def Inspection.new (blockers : List String) : Inspection :=
  ⟨blockers, [], [], [], [], fun _ => none, []⟩

def Store.inspect (store : Store Ready) (mode : PublicationPreflightMode) : Inspection :=
  store.registry.entries.foldl (visitWiki store mode) (.new store.initialBlockers)

def sortChanges (changes : List PublicationChange) : List PublicationChange :=
  changes.insertionSort fun a b => toLex (a.wiki, a.family) ≤ toLex (b.wiki, b.family)

def publicationPreflightWithMode (store : Store Ready) (mode : PublicationPreflightMode) :
    Except String PublicationPreflightReport := do
  let inspection := store.inspect mode
  let publishedWikis := (store.registry.entries.filter isPublishedEntry).length
  let eligible := inspection.blockers.isEmpty &&
    !(mode = .deferUnavailable && !inspection.deferred.isEmpty &&
      inspection.deferred.length = publishedWikis)
  let siteSourceFingerprint ← store.siteSourceFingerprint
  return {
    eligible := eligible
    wouldChange := !inspection.changed.isEmpty
    currentPublicationRunId := store.gate.map GateReceipt.runId
    siteSourceFingerprint := siteSourceFingerprint
    recoveryClean := store.recoveryClean
    scrubState := store.scrubState
    blockers := inspection.blockers
    deferred := inspection.deferred.insertionSort fun a b => a.wiki ≤ b.wiki
    changed := sortChanges inspection.changed
    reused := sortChanges inspection.reused
    wikis := inspection.wikis.insertionSort fun a b => a.wiki ≤ b.wiki }

/-! ## What a wiki is held back for -/

/-- The candidate of a wiki, or the reason why it cannot be published. -/
def Store.readiness (store : Store Ready) (wiki : String) :
    Except String (ReadyCandidateReference × SortedMap MetricId CandidateMergeContract) :=
  match store.readyIndex wiki with
  | .error error => .error (wiki ++ " has no readable ready index: " ++ error)
  | .ok index =>
    if ¬ (index.schemaVersion = readyIndexSchemaVersion ∧ index.wiki = wiki) then
      .error (wiki ++ " ready index has an invalid identity")
    else match store.readyFromReference wiki index.newestValidReady with
      | .error error => .error (wiki ++ " newest ready candidate failed authentication: " ++ error)
      | .ok ready => match store.readyCandidateMergeContracts ready with
        | .error error => .error (wiki ++ " candidate merge contract is invalid: " ++ error)
        | .ok contracts => .ok (index.newestValidReady, contracts)

/-- The drift of an authenticated candidate against the gate's proof of its snapshot. -/
def Store.drift (store : Store Ready) (wiki : String) : List String :=
  match store.readyIndex wiki with
  | .error _ => []
  | .ok index =>
    if ¬ (index.schemaVersion = readyIndexSchemaVersion ∧ index.wiki = wiki) then []
    else match store.readyFromReference wiki index.newestValidReady with
      | .error _ => []
      | .ok ready =>
        match (store.previous wiki).filter fun proof =>
            proof.snapshot = index.newestValidReady.snapshot with
        | some proof => candidateFingerprintDrift wiki index.newestValidReady proof
            (store.artifactBackedFamilyProofs ready)
        | none => []

/-- How the inspection of a managed wiki ends. -/
def settleWiki (store : Store Ready) (mode : PublicationPreflightMode) (wiki : String)
    (inspection : Inspection) :
    Except String (ReadyCandidateReference × SortedMap MetricId CandidateMergeContract) → Inspection
  | .error reason => (recordWikiBlockers wiki mode [reason] inspection).2
  | .ok candidate => selectWiki wiki (store.previous wiki) candidate.1 candidate.2 inspection

/-- The deferral of an entry of the registry. -/
def Store.deferral (store : Store Ready) (entry : String × LifecycleWiki) :
    Option PublicationDeferral :=
  if entry.2.isManaged then
    match store.readiness entry.1 with
    | .error reason => some ⟨entry.1, reason⟩
    | .ok _ => none
  else none

section Visit

variable {store : Store Ready} {mode : PublicationPreflightMode} {inspection : Inspection}
  {entry : String × LifecycleWiki}

theorem block_nil : inspection.block [] = inspection := by
  unfold Inspection.block
  rw [List.append_nil]

theorem visitWiki_unpublished (h : entry.2.isPublished = false) :
    visitWiki store mode inspection entry = inspection := by
  unfold visitWiki
  rw [h]
  rfl

theorem visitWiki_reused (h : entry.2.isPublished = true)
    (hrefresh : entry.2.refresh.isManaged = false) :
    visitWiki store mode inspection entry
      = reuseWiki entry.1 (store.previous entry.1) inspection := by
  unfold visitWiki
  rw [h, hrefresh]
  rfl

/-- A managed wiki is inspected for its candidate first and then held back or selected. -/
theorem visitWiki_managed (h : entry.2.isManaged = true) :
    visitWiki store mode inspection entry = settleWiki store mode entry.1
      (inspection.block (store.drift entry.1)) (store.readiness entry.1) := by
  obtain ⟨hpublished, hrefresh⟩ := Bool.and_eq_true_iff.mp h
  unfold visitWiki Store.drift Store.readiness
  rw [hpublished, hrefresh]
  dsimp only
  cases store.readyIndex entry.1 with
  | error error =>
    rw [block_nil]
    rfl
  | ok index =>
    dsimp only
    by_cases hidentity : index.schemaVersion = readyIndexSchemaVersion ∧ index.wiki = entry.1
    · rw [if_neg (not_not.mpr hidentity)]
      cases store.readyFromReference entry.1 index.newestValidReady with
      | error error =>
        rw [if_neg (not_not.mpr hidentity), if_neg (not_not.mpr hidentity), block_nil]
        rfl
      | ok ready =>
        dsimp only
        rw [if_neg (not_not.mpr hidentity), if_neg (not_not.mpr hidentity)]
        cases (store.previous entry.1).filter fun proof =>
            proof.snapshot = index.newestValidReady.snapshot with
        | none =>
          rw [block_nil]
          cases store.readyCandidateMergeContracts ready <;> rfl
        | some proof => cases store.readyCandidateMergeContracts ready <;> rfl
    · rw [if_pos hidentity, if_pos hidentity, if_pos hidentity, block_nil]
      rfl

end Visit

/-! ## The two modes -/

/-- The two modes collect the same, except that what one defers blocks the other. -/
structure SameBut (s d : Inspection) : Prop where
  changed : s.changed = d.changed
  reused : s.reused = d.reused
  wikis : s.wikis = d.wikis
  mergeContracts : s.mergeContracts = d.mergeContracts
  incompatible : s.incompatibleMergeMetrics = d.incompatibleMergeMetrics
  deferred : s.deferred = []
  blockers : s.blockers.Perm (d.blockers ++ d.deferred.map PublicationDeferral.reason)

section Modes

variable {s d : Inspection}

theorem SameBut.block (h : SameBut s d) (messages : List String) :
    SameBut (s.block messages) (d.block messages) := by
  refine ⟨h.changed, h.reused, h.wikis, h.mergeContracts, h.incompatible, h.deferred, ?_⟩
  show (s.blockers ++ messages).Perm ((d.blockers ++ messages) ++ d.deferred.map _)
  refine (h.blockers.append_right messages).trans ?_
  rw [List.append_assoc, List.append_assoc]
  exact (List.perm_append_comm).append_left _

theorem SameBut.record (h : SameBut s d) (wiki reason : String) :
    SameBut (recordWikiBlockers wiki .strict [reason] s).2
      (recordWikiBlockers wiki .deferUnavailable [reason] d).2 := by
  refine ⟨h.changed, h.reused, h.wikis, h.mergeContracts, h.incompatible, h.deferred, ?_⟩
  show (s.blockers ++ [reason]).Perm
    (d.blockers ++ (d.deferred ++ [PublicationDeferral.mk wiki reason]).map _)
  rw [List.map_append, ← List.append_assoc]
  exact h.blockers.append_right _

theorem SameBut.reuse (h : SameBut s d) (wiki : String) (previous : Option WikiPublicationProof) :
    SameBut (reuseWiki wiki previous s) (reuseWiki wiki previous d) := by
  refine ⟨h.changed, ?_, ?_, h.mergeContracts, h.incompatible, h.deferred, h.blockers⟩
  · show s.reused ++ _ = d.reused ++ _
    rw [h.reused]
  · show s.wikis ++ _ = d.wikis ++ _
    rw [h.wikis]

theorem SameBut.merge (h : SameBut s d) (wiki : String)
    (entry : MetricId × CandidateMergeContract) :
    SameBut (recordCandidateMergeContract wiki s entry)
      (recordCandidateMergeContract wiki d entry) := by
  unfold recordCandidateMergeContract
  rw [h.mergeContracts, h.incompatible]
  cases d.mergeContracts entry.1 with
  | none =>
    exact ⟨h.changed, h.reused, h.wikis, rfl, rfl, h.deferred, h.blockers⟩
  | some found =>
    dsimp only
    by_cases hconflict : found.2 ≠ entry.2 ∧ entry.1 ∉ d.incompatibleMergeMetrics
    · rw [if_pos hconflict, if_pos hconflict]
      have hblock := h.block [entry.1.asStr
        ++ " candidates have incompatible merge schemas or algorithm versions between "
        ++ found.1 ++ " and " ++ wiki]
      exact ⟨h.changed, h.reused, h.wikis, rfl, rfl, h.deferred, hblock.blockers⟩
    · rw [if_neg hconflict, if_neg hconflict]
      exact h

theorem SameBut.select (h : SameBut s d) (wiki : String) (previous : Option WikiPublicationProof)
    (reference : ReadyCandidateReference) (contracts : SortedMap MetricId CandidateMergeContract) :
    SameBut (selectWiki wiki previous reference contracts s)
      (selectWiki wiki previous reference contracts d) := by
  have hmerged : SameBut (contracts.entries.foldl (recordCandidateMergeContract wiki) s)
      (contracts.entries.foldl (recordCandidateMergeContract wiki) d) := by
    induction contracts.entries generalizing s d with
    | nil => exact h
    | cons entry rest ih => exact ih (h.merge wiki entry)
  have hchecked : ∀ (downgrade : Prop) [Decidable downgrade] (messages : List String),
      SameBut (if downgrade then
        (contracts.entries.foldl (recordCandidateMergeContract wiki) s).block
          messages else contracts.entries.foldl (recordCandidateMergeContract wiki) s)
        (if downgrade then (contracts.entries.foldl (recordCandidateMergeContract wiki) d).block
          messages else contracts.entries.foldl (recordCandidateMergeContract wiki) d) := by
    intro downgrade _ messages
    by_cases hdowngrade : downgrade
    · rw [if_pos hdowngrade, if_pos hdowngrade]
      exact hmerged.block messages
    · rw [if_neg hdowngrade, if_neg hdowngrade]
      exact hmerged
  obtain ⟨hchanged, hreused, hwikis, hcontracts, hincompatible, hdeferred, hblockers⟩ :=
    hchecked ((previous.any fun proof => reference.snapshot < proof.snapshot) = true)
      [wiki ++ " candidate " ++ reference.snapshot ++ " would downgrade the published snapshot"]
  exact ⟨congrArg (· ++ _) hchanged, congrArg (· ++ _) hreused,
    congrArg (· ++ _) hwikis, hcontracts,
    hincompatible, hdeferred, hblockers⟩

theorem SameBut.visit (h : SameBut s d) (store : Store Ready) (entry : String × LifecycleWiki) :
    SameBut (visitWiki store .strict s entry) (visitWiki store .deferUnavailable d entry) := by
  cases hpublished : entry.2.isPublished with
  | false =>
    rw [visitWiki_unpublished hpublished, visitWiki_unpublished hpublished]
    exact h
  | true =>
    cases hrefresh : entry.2.refresh.isManaged with
    | false =>
      rw [visitWiki_reused hpublished hrefresh, visitWiki_reused hpublished hrefresh]
      exact h.reuse ..
    | true =>
      have hmanaged : entry.2.isManaged = true := Bool.and_eq_true_iff.mpr ⟨hpublished, hrefresh⟩
      rw [visitWiki_managed hmanaged, visitWiki_managed hmanaged]
      cases store.readiness entry.1 with
      | error reason => exact (h.block _).record ..
      | ok candidate => exact (h.block _).select ..

/-- **The modes differ in what they do with a wiki that is held back, and in nothing else.** -/
theorem sameBut_inspect (store : Store Ready) :
    SameBut (store.inspect .strict) (store.inspect .deferUnavailable) := by
  have hfold : ∀ (entries : List (String × LifecycleWiki)) {s d : Inspection}, SameBut s d →
      SameBut (entries.foldl (visitWiki store .strict) s)
        (entries.foldl (visitWiki store .deferUnavailable) d) := by
    intro entries
    induction entries with
    | nil => exact fun h => h
    | cons entry rest ih => exact fun h => ih (h.visit store entry)
  refine hfold _ ⟨rfl, rfl, rfl, rfl, rfl, rfl, ?_⟩
  rw [show (Inspection.new store.initialBlockers).deferred = [] from rfl, List.map_nil,
    List.append_nil]

end Modes

/-! ## What is deferred -/

section Deferred

variable (store : Store Ready)

/-- A published wiki that is not held back. -/
def Store.listed (entry : String × LifecycleWiki) : Bool :=
  entry.2.isPublished && (store.deferral entry).isNone

variable {store}

theorem wikis_selectWiki (wiki : String) (inspection : Inspection)
    (previous : Option WikiPublicationProof) (reference : ReadyCandidateReference)
    (contracts : SortedMap MetricId CandidateMergeContract) :
    (selectWiki wiki previous reference contracts inspection).deferred = inspection.deferred ∧
      (selectWiki wiki previous reference contracts inspection).wikis.map
      PublicationPreflightWiki.wiki
        = inspection.wikis.map PublicationPreflightWiki.wiki ++ [wiki] := by
  have hmerged : (contracts.entries.foldl (recordCandidateMergeContract wiki) inspection).deferred
        = inspection.deferred ∧
      (contracts.entries.foldl (recordCandidateMergeContract wiki) inspection).wikis
        = inspection.wikis := by
    induction contracts.entries generalizing inspection with
    | nil => exact ⟨rfl, rfl⟩
    | cons entry rest ih =>
      have hstep : (recordCandidateMergeContract wiki inspection entry).deferred =
        inspection.deferred ∧
          (recordCandidateMergeContract wiki inspection entry).wikis = inspection.wikis := by
        unfold recordCandidateMergeContract
        cases inspection.mergeContracts entry.1 with
        | none => exact ⟨rfl, rfl⟩
        | some found =>
          dsimp only
          split <;> exact ⟨rfl, rfl⟩
      rw [List.foldl_cons, (ih _).1, (ih _).2]
      exact hstep
  unfold selectWiki
  dsimp only
  rw [List.map_append]
  split
  · exact ⟨hmerged.1, by rw [← hmerged.2]; rfl⟩
  · exact ⟨hmerged.1, by rw [hmerged.2]; rfl⟩

/-- A visit lists a wiki or defers it. -/
theorem visitWiki_lists (store : Store Ready) (inspection : Inspection)
    (entry : String × LifecycleWiki) :
    (visitWiki store .deferUnavailable inspection entry).deferred
        = inspection.deferred ++ (store.deferral entry).toList ∧
      (visitWiki store .deferUnavailable inspection entry).wikis.map PublicationPreflightWiki.wiki
        = inspection.wikis.map PublicationPreflightWiki.wiki
          ++ if store.listed entry then [entry.1] else [] := by
  unfold Store.listed Store.deferral
  cases hpublished : entry.2.isPublished with
  | false =>
    have hmanaged : entry.2.isManaged = false := by
      unfold LifecycleWiki.isManaged
      rw [hpublished]
      rfl
    rw [visitWiki_unpublished hpublished, hmanaged]
    exact ⟨(List.append_nil _).symm, (List.append_nil _).symm⟩
  | true =>
    cases hrefresh : entry.2.refresh.isManaged with
    | false =>
      have hmanaged : entry.2.isManaged = false := by
        unfold LifecycleWiki.isManaged
        rw [hrefresh, Bool.and_false]
      rw [visitWiki_reused hpublished hrefresh, hmanaged]
      refine ⟨(List.append_nil _).symm, ?_⟩
      show (inspection.wikis ++ [_]).map _ = _
      rw [List.map_append]
      rfl
    | true =>
      have hmanaged : entry.2.isManaged = true := Bool.and_eq_true_iff.mpr ⟨hpublished, hrefresh⟩
      rw [visitWiki_managed hmanaged, hmanaged, if_pos rfl]
      cases store.readiness entry.1 with
      | error reason => exact ⟨rfl, (List.append_nil _).symm⟩
      | ok candidate =>
        obtain ⟨hdeferred, hwikis⟩ := wikis_selectWiki entry.1
          (inspection.block (store.drift entry.1)) (store.previous entry.1) candidate.1 candidate.2
        exact ⟨hdeferred.trans (List.append_nil _).symm, hwikis⟩

theorem lists_inspect (store : Store Ready) : (store.inspect .deferUnavailable).deferred
      = store.registry.entries.filterMap store.deferral ∧
    (store.inspect .deferUnavailable).wikis.map PublicationPreflightWiki.wiki
      = (store.registry.entries.filter store.listed).map Prod.fst := by
  have hfold : ∀ (entries : List (String × LifecycleWiki)) (inspection : Inspection),
      (entries.foldl (visitWiki store .deferUnavailable) inspection).deferred
          = inspection.deferred ++ entries.filterMap store.deferral ∧
        (entries.foldl (visitWiki store .deferUnavailable) inspection).wikis.map
            PublicationPreflightWiki.wiki
          = inspection.wikis.map PublicationPreflightWiki.wiki
            ++ (entries.filter store.listed).map Prod.fst := by
    intro entries
    induction entries with
    | nil => exact fun inspection => ⟨(List.append_nil _).symm, (List.append_nil _).symm⟩
    | cons entry rest ih =>
      intro inspection
      obtain ⟨hdeferred, hwikis⟩ := visitWiki_lists store inspection entry
      obtain ⟨hdeferred', hwikis'⟩ := ih (visitWiki store .deferUnavailable inspection entry)
      rw [List.foldl_cons, hdeferred', hwikis', hdeferred, hwikis, List.append_assoc,
        List.append_assoc]
      constructor
      · cases hdeferral : store.deferral entry with
        | none => rw [List.filterMap_cons_none hdeferral]; rfl
        | some deferral => rw [List.filterMap_cons_some hdeferral]; rfl
      · cases hlisted : store.listed entry with
        | false => rw [List.filter_cons_of_neg (by simp [hlisted])]; rfl
        | true => rw [List.filter_cons_of_pos hlisted]; rfl
  obtain ⟨hdeferred, hwikis⟩ := hfold store.registry.entries (.new store.initialBlockers)
  exact ⟨hdeferred, hwikis⟩

/-- The published wikis, in the order of the registry. -/
def Store.publishedWikis (store : Store Ready) : List String :=
  (store.registry.entries.filter isPublishedEntry).map Prod.fst

theorem deferral_wiki {entry : String × LifecycleWiki} {deferral : PublicationDeferral}
    (h : store.deferral entry = some deferral) :
    deferral.wiki = entry.1 ∧ entry.2.isManaged = true ∧
      store.readiness entry.1 = .error deferral.reason := by
  unfold Store.deferral at h
  split at h
  next hmanaged =>
    cases hready : store.readiness entry.1 with
    | error reason =>
      rw [hready] at h
      obtain rfl := Option.some.inj h
      exact ⟨rfl, hmanaged, rfl⟩
    | ok candidate =>
      rw [hready] at h
      exact absurd h (by simp)
  next => exact absurd h (by simp)

theorem isPublished_of_isManaged {lifecycle : LifecycleWiki} (h : lifecycle.isManaged = true) :
    lifecycle.isPublished = true := (Bool.and_eq_true_iff.mp h).1

/-- Every published wiki is listed or deferred. -/
theorem listed_append_deferred : ((store.registry.entries.filter store.listed).map Prod.fst
    ++ (store.registry.entries.filterMap store.deferral).map PublicationDeferral.wiki).Perm
      store.publishedWikis := by
  unfold Store.publishedWikis
  induction store.registry.entries with
  | nil => exact List.Perm.refl _
  | cons entry rest ih =>
    cases hdeferral : store.deferral entry with
    | some deferral =>
      obtain ⟨hwiki, hmanaged, -⟩ := deferral_wiki hdeferral
      have hpublished := isPublished_of_isManaged hmanaged
      have hlisted : store.listed entry = false := by
        unfold Store.listed
        rw [hdeferral, hpublished]
        rfl
      rw [List.filterMap_cons_some hdeferral, List.filter_cons_of_neg (by simp [hlisted]),
        List.filter_cons_of_pos (p := isPublishedEntry) hpublished, List.map_cons, List.map_cons,
        hwiki]
      exact (List.perm_middle).trans (ih.cons _)
    | none =>
      have hlisted : store.listed entry = entry.2.isPublished := by
        unfold Store.listed
        rw [hdeferral, Option.isNone_none, Bool.and_true]
      rw [List.filterMap_cons_none hdeferral]
      cases hpublished : entry.2.isPublished with
      | false =>
        rw [List.filter_cons_of_neg (by simp [hlisted, hpublished]),
          List.filter_cons_of_neg (p := isPublishedEntry) (Bool.eq_false_iff.mp hpublished)]
        exact ih
      | true =>
        rw [List.filter_cons_of_pos (hlisted.trans hpublished),
          List.filter_cons_of_pos (p := isPublishedEntry) hpublished, List.map_cons,
          List.map_cons]
        exact ih.cons _

theorem publishedWikis_nodup : store.publishedWikis.Nodup :=
  store.registry.keys_nodup.sublist (List.filter_sublist.map _)

/-- When every managed wiki is held back, what is left of the blockers is their drift. -/
theorem blockers_inspect (hheld : ∀ entry ∈ store.registry.entries, entry.2.isManaged = true →
      ∃ reason, store.readiness entry.1 = .error reason) :
    (store.inspect .deferUnavailable).blockers = store.initialBlockers
      ++ (store.registry.entries.filter isManagedEntry).flatMap fun entry =>
        store.drift entry.1 := by
  have hfold : ∀ (entries : List (String × LifecycleWiki)) (inspection : Inspection),
      (∀ entry ∈ entries, entry.2.isManaged = true →
        ∃ reason, store.readiness entry.1 = .error reason) →
      (entries.foldl (visitWiki store .deferUnavailable) inspection).blockers = inspection.blockers
        ++ (entries.filter isManagedEntry).flatMap fun entry =>
          store.drift entry.1 := by
    intro entries
    induction entries with
    | nil => exact fun inspection _ => (List.append_nil _).symm
    | cons entry rest ih =>
      intro inspection hheld
      rw [List.foldl_cons, ih _ fun e he => hheld e (List.mem_cons_of_mem _ he)]
      cases hmanaged : entry.2.isManaged with
      | true =>
        obtain ⟨reason, hreason⟩ := hheld entry List.mem_cons_self hmanaged
        rw [visitWiki_managed hmanaged, hreason,
          List.filter_cons_of_pos (p := isManagedEntry) hmanaged, List.flatMap_cons,
          ← List.append_assoc]
        rfl
      | false =>
        rw [List.filter_cons_of_neg (p := isManagedEntry) (Bool.eq_false_iff.mp hmanaged)]
        refine congrArg (· ++ _) ?_
        cases hpublished : entry.2.isPublished with
        | false => rw [visitWiki_unpublished hpublished]
        | true =>
          have hrefresh : entry.2.refresh.isManaged = false := by
            unfold LifecycleWiki.isManaged at hmanaged
            rw [hpublished] at hmanaged
            exact hmanaged
          rw [visitWiki_reused hpublished hrefresh]
          rfl
  exact hfold _ _ hheld

end Deferred

/-! ## The verdict of both modes -/

/-- What the reports `s` of `Strict` and `d` of `DeferUnavailable` are to say about `store`. -/
structure Consistent (store : Store Ready) (s d : PublicationPreflightReport) : Prop where
  /-- Every published wiki is listed once or deferred once. -/
  accounted : ∀ wiki ∈ store.publishedWikis, (d.wikis.map PublicationPreflightWiki.wiki).count wiki
    + (d.deferred.map PublicationDeferral.wiki).count wiki = 1
  /-- `Strict` lists the same wikis, and has a blocker for each of those that are deferred. -/
  listed : s.wikis = d.wikis
  blocked : s.deferred = [] ∧
    s.blockers.Perm (d.blockers ++ d.deferred.map PublicationDeferral.reason)
  named : ∀ deferral ∈ d.deferred, ∃ rest, deferral.reason = deferral.wiki ++ " " ++ rest
  strict : s.eligible = true ↔ d.blockers = [] ∧ d.deferred = []
  /-- A run that defers every managed wiki is not eligible. -/
  idle : (∀ entry ∈ store.registry.entries, entry.2.isManaged = true →
    entry.1 ∈ d.deferred.map PublicationDeferral.wiki) → d.eligible = false

/-- When an idle run is noticed: something blocks it for all wikis, some managed wiki is not
held back, or the managed wikis are all the published ones. -/
def Store.IdleNoticed (store : Store Ready) : Prop :=
  (store.recoveryClean = false ∨ store.scrubState = "failed" ∨ store.gate = none) ∨
    (∃ entry ∈ store.registry.entries, entry.2.isManaged = true ∧ store.drift entry.1 ≠ []) ∨
    (∃ entry ∈ store.registry.entries, entry.2.isManaged = true ∧
      ∃ candidate, store.readiness entry.1 = .ok candidate) ∨
    ((∃ entry ∈ store.registry.entries, entry.2.isManaged = true) ∧
      ∀ entry ∈ store.registry.entries, entry.2.isPublished = true → entry.2.isManaged = true)

section Verdict

variable {store : Store Ready}

theorem initialBlockers_eq_nil : store.initialBlockers = [] ↔
    ¬ (store.recoveryClean = false ∨ store.scrubState = "failed" ∨ store.gate = none) := by
  unfold Store.initialBlockers
  by_cases hscrub : store.scrubState = "failed" <;> cases hclean : store.recoveryClean <;>
    cases hgate : store.gate <;> simp [hscrub]

/-- A reason starts with the name of its wiki. -/
theorem readiness_error_names {wiki reason : String} (h : store.readiness wiki = .error reason) :
    ∃ rest, reason = wiki ++ " " ++ rest := by
  have hname : ∀ text rest error : String, text = " " ++ rest →
      wiki ++ text ++ error = wiki ++ " " ++ (rest ++ error) := by
    rintro _ rest error rfl
    simp only [String.append_assoc]
  unfold Store.readiness at h
  cases hindex : store.readyIndex wiki with
  | error error =>
    rw [hindex] at h
    obtain rfl := Except.error.inj h
    exact ⟨_, hname _ "has no readable ready index: " error (by decide)⟩
  | ok index =>
    rw [hindex] at h
    dsimp only at h
    split at h
    next =>
      obtain rfl := Except.error.inj h
      refine ⟨"ready index has an invalid identity" ++ "", ?_⟩
      rw [← hname " ready index has an invalid identity" _ "" (by decide), String.append_empty]
    next =>
      cases hready : store.readyFromReference wiki index.newestValidReady with
      | error error =>
        rw [hready] at h
        obtain rfl := Except.error.inj h
        exact ⟨_, hname _ "newest ready candidate failed authentication: " error (by decide)⟩
      | ok ready =>
        rw [hready] at h
        dsimp only at h
        cases hcontracts : store.readyCandidateMergeContracts ready with
        | error error =>
          rw [hcontracts] at h
          obtain rfl := Except.error.inj h
          exact ⟨_, hname _ "candidate merge contract is invalid: " error (by decide)⟩
        | ok contracts =>
          rw [hcontracts] at h
          exact absurd h (by simp)

/-- A report is the inspection of its mode. -/
theorem preflight_eq_ok {mode : PublicationPreflightMode} {report : PublicationPreflightReport}
    (h : publicationPreflightWithMode store mode = .ok report) :
    report.eligible = ((store.inspect mode).blockers.isEmpty &&
        !(mode = .deferUnavailable && !(store.inspect mode).deferred.isEmpty &&
          (store.inspect mode).deferred.length
            = (store.registry.entries.filter isPublishedEntry).length)) ∧
      report.blockers = (store.inspect mode).blockers ∧
      report.deferred = (store.inspect mode).deferred.insertionSort (fun a b => a.wiki ≤ b.wiki) ∧
      report.wikis = (store.inspect mode).wikis.insertionSort fun a b => a.wiki ≤ b.wiki := by
  obtain ⟨fingerprint, -, h⟩ := bind_eq_ok.mp h
  obtain rfl := Except.ok.inj h
  exact ⟨rfl, rfl, rfl, rfl⟩

variable {s d : PublicationPreflightReport}

/-- Everything but the last part holds of any store. -/
theorem accounted_of_ok (hd : publicationPreflightWithMode store .deferUnavailable = .ok d)
    {wiki : String} (hwiki : wiki ∈ store.publishedWikis) :
    (d.wikis.map PublicationPreflightWiki.wiki).count wiki
      + (d.deferred.map PublicationDeferral.wiki).count wiki = 1 := by
  obtain ⟨-, -, hdeferred, hwikis⟩ := preflight_eq_ok hd
  obtain ⟨hdeferredLists, hwikisLists⟩ := lists_inspect store
  have hwikisPerm : (d.wikis.map PublicationPreflightWiki.wiki).Perm
      ((store.registry.entries.filter store.listed).map Prod.fst) := by
    rw [hwikis, ← hwikisLists]
    exact (List.perm_insertionSort _ _).map _
  have hdeferredPerm : (d.deferred.map PublicationDeferral.wiki).Perm
      ((store.registry.entries.filterMap store.deferral).map PublicationDeferral.wiki) := by
    rw [hdeferred, ← hdeferredLists]
    exact (List.perm_insertionSort _ _).map _
  rw [← List.count_append, (hwikisPerm.append hdeferredPerm).count_eq,
    listed_append_deferred.count_eq]
  exact List.count_eq_one_of_mem publishedWikis_nodup hwiki

theorem blocked_of_ok (hs : publicationPreflightWithMode store .strict = .ok s)
    (hd : publicationPreflightWithMode store .deferUnavailable = .ok d) :
    s.wikis = d.wikis ∧ s.deferred = [] ∧
      s.blockers.Perm (d.blockers ++ d.deferred.map PublicationDeferral.reason) := by
  obtain ⟨-, hblockers, hdeferred, hwikis⟩ := preflight_eq_ok hs
  obtain ⟨-, hblockers', hdeferred', hwikis'⟩ := preflight_eq_ok hd
  have hsame := sameBut_inspect store
  refine ⟨?_, ?_, ?_⟩
  · rw [hwikis, hwikis', hsame.wikis]
  · rw [hdeferred, hsame.deferred]
    rfl
  · rw [hblockers, hblockers', hdeferred']
    exact hsame.blockers.trans
      (((List.perm_insertionSort _ _).map PublicationDeferral.reason).symm.append_left _)

theorem strict_of_ok (hs : publicationPreflightWithMode store .strict = .ok s)
    (hd : publicationPreflightWithMode store .deferUnavailable = .ok d) :
    s.eligible = true ↔ d.blockers = [] ∧ d.deferred = [] := by
  obtain ⟨heligible, hblockers, -, -⟩ := preflight_eq_ok hs
  obtain ⟨-, -, hperm⟩ := blocked_of_ok hs hd
  have hstrict : s.eligible = s.blockers.isEmpty := by
    rw [heligible, hblockers]
    exact Bool.and_true _
  rw [hstrict, List.isEmpty_iff]
  constructor
  · intro hnil
    rw [hnil] at hperm
    obtain ⟨hd, hdeferred⟩ := List.append_eq_nil_iff.mp hperm.nil_eq.symm
    exact ⟨hd, List.map_eq_nil_iff.mp hdeferred⟩
  · rintro ⟨hd, hdeferred⟩
    rw [hd, hdeferred] at hperm
    exact hperm.eq_nil

theorem mem_deferred (hd : publicationPreflightWithMode store .deferUnavailable = .ok d)
    {deferral : PublicationDeferral} : deferral ∈ d.deferred ↔
      ∃ entry ∈ store.registry.entries, store.deferral entry = some deferral := by
  obtain ⟨-, -, hdeferred, -⟩ := preflight_eq_ok hd
  rw [hdeferred, List.mem_insertionSort, (lists_inspect store).1]
  exact List.mem_filterMap

/-- A managed wiki is deferred exactly if it is held back. -/
theorem deferred_iff_held (hd : publicationPreflightWithMode store .deferUnavailable = .ok d) :
    (∀ entry ∈ store.registry.entries, entry.2.isManaged = true →
        entry.1 ∈ d.deferred.map PublicationDeferral.wiki) ↔
      ∀ entry ∈ store.registry.entries, entry.2.isManaged = true →
        ∃ reason, store.readiness entry.1 = .error reason := by
  constructor
  · intro h entry hentry hmanaged
    obtain ⟨deferral, hmem, hwiki⟩ := List.mem_map.mp (h entry hentry hmanaged)
    obtain ⟨entry', -, hdeferral⟩ := (mem_deferred hd).mp hmem
    obtain ⟨hwiki', -, hreason⟩ := deferral_wiki hdeferral
    exact ⟨deferral.reason, by rw [← hwiki, hwiki']; exact hreason⟩
  · intro h entry hentry hmanaged
    obtain ⟨reason, hreason⟩ := h entry hentry hmanaged
    refine List.mem_map.mpr ⟨⟨entry.1, reason⟩, (mem_deferred hd).mpr ⟨entry, hentry, ?_⟩, rfl⟩
    unfold Store.deferral
    rw [if_pos hmanaged, hreason]

theorem length_filterMap_deferral {entries : List (String × LifecycleWiki)}
    (hheld : ∀ entry ∈ entries, entry.2.isManaged = true →
      ∃ reason, store.readiness entry.1 = .error reason) :
    (entries.filterMap store.deferral).length = (entries.filter isManagedEntry).length := by
  induction entries with
  | nil => rfl
  | cons entry rest ih =>
    have hrest := ih fun e he => hheld e (List.mem_cons_of_mem _ he)
    cases hmanaged : entry.2.isManaged with
    | true =>
      obtain ⟨reason, hreason⟩ := hheld entry List.mem_cons_self hmanaged
      have hdeferral : store.deferral entry = some ⟨entry.1, reason⟩ := by
        unfold Store.deferral
        rw [if_pos hmanaged, hreason]
      rw [List.filterMap_cons_some hdeferral,
        List.filter_cons_of_pos (p := isManagedEntry) hmanaged,
        List.length_cons, List.length_cons, hrest]
    | false =>
      have hdeferral : store.deferral entry = none := by
        unfold Store.deferral
        rw [if_neg (Bool.eq_false_iff.mp hmanaged)]
      rw [List.filterMap_cons_none hdeferral,
        List.filter_cons_of_neg (p := isManagedEntry) (Bool.eq_false_iff.mp hmanaged), hrest]

/-- The eligibility of a run that defers every managed wiki. -/
theorem eligible_of_held (hd : publicationPreflightWithMode store .deferUnavailable = .ok d)
    (hheld : ∀ entry ∈ store.registry.entries, entry.2.isManaged = true →
      ∃ reason, store.readiness entry.1 = .error reason) :
    d.eligible = true ↔ store.initialBlockers = [] ∧
      (∀ entry ∈ store.registry.entries, entry.2.isManaged = true → store.drift entry.1 = []) ∧
      (store.registry.entries.filter isManagedEntry = [] ∨
        (store.registry.entries.filter isManagedEntry).length
          ≠ (store.registry.entries.filter isPublishedEntry).length) := by
  obtain ⟨heligible, -, -, -⟩ := preflight_eq_ok hd
  have hlength := length_filterMap_deferral hheld
  have hempty : (store.inspect .deferUnavailable).deferred.isEmpty = true ↔
      store.registry.entries.filter isManagedEntry = [] := by
    rw [List.isEmpty_iff, ← List.length_eq_zero_iff, (lists_inspect store).1, hlength,
      List.length_eq_zero_iff]
  have hdrift : ((store.registry.entries.filter isManagedEntry).flatMap fun entry =>
      store.drift entry.1) = [] ↔
        ∀ entry ∈ store.registry.entries, entry.2.isManaged = true → store.drift entry.1 = [] := by
    rw [List.flatMap_eq_nil_iff]
    exact ⟨fun h entry hentry hmanaged => h entry (List.mem_filter.mpr ⟨hentry, hmanaged⟩),
      fun h entry hentry => h entry (List.mem_filter.mp hentry).1 (List.mem_filter.mp hentry).2⟩
  rw [heligible, blockers_inspect hheld, (lists_inspect store).1,
    hlength, ← (lists_inspect store).1,
    Bool.and_eq_true_iff, List.isEmpty_iff, List.append_eq_nil_iff, hdrift, and_assoc, ← hempty]
  refine and_congr_right fun _ => and_congr_right fun _ => ?_
  cases (store.inspect .deferUnavailable).deferred.isEmpty <;> simp

/-- Fewer wikis are managed than published exactly if one is published without being managed. -/
theorem length_managed (entries : List (String × LifecycleWiki)) :
    (entries.filter isManagedEntry).length ≤ (entries.filter isPublishedEntry).length ∧
      ((entries.filter isManagedEntry).length = (entries.filter isPublishedEntry).length ↔
        ∀ entry ∈ entries, entry.2.isPublished = true → entry.2.isManaged = true) := by
  have hfilter : entries.filter isManagedEntry
      = (entries.filter isPublishedEntry).filter isManagedEntry := by
    rw [List.filter_filter]
    refine List.filter_congr fun entry _ => ?_
    show entry.2.isManaged = (entry.2.isManaged && entry.2.isPublished)
    unfold LifecycleWiki.isManaged
    cases entry.2.isPublished <;> simp
  rw [hfilter]
  refine ⟨List.length_filter_le .., ?_⟩
  rw [List.length_filter_eq_length_iff]
  exact ⟨fun h entry hentry hpublished => h entry (List.mem_filter.mpr ⟨hentry, hpublished⟩),
    fun h entry hentry => h entry (List.mem_filter.mp hentry).1 (List.mem_filter.mp hentry).2⟩

/-- The last part of the verdict says what `IdleNoticed` says. -/
theorem idle_iff (hd : publicationPreflightWithMode store .deferUnavailable = .ok d) :
    ((∀ entry ∈ store.registry.entries, entry.2.isManaged = true →
        entry.1 ∈ d.deferred.map PublicationDeferral.wiki) → d.eligible = false) ↔
      store.IdleNoticed := by
  rw [deferred_iff_held hd]
  by_cases hheld : ∀ entry ∈ store.registry.entries, entry.2.isManaged = true →
      ∃ reason, store.readiness entry.1 = .error reason
  · have hnone : ¬ ∃ entry ∈ store.registry.entries, entry.2.isManaged = true ∧
        ∃ candidate, store.readiness entry.1 = .ok candidate := by
      rintro ⟨entry, hentry, hmanaged, candidate, hready⟩
      obtain ⟨reason, hreason⟩ := hheld entry hentry hmanaged
      exact absurd (hready.symm.trans hreason) (by simp)
    have hsome : (∃ entry ∈ store.registry.entries, entry.2.isManaged = true) ↔
        store.registry.entries.filter isManagedEntry ≠ [] := by
      rw [ne_eq, List.filter_eq_nil_iff]
      push Not
      rfl
    have hdrift : (∀ entry ∈ store.registry.entries, entry.2.isManaged = true →
        store.drift entry.1 = []) ↔ ¬ ∃ entry ∈ store.registry.entries, entry.2.isManaged = true ∧
          store.drift entry.1 ≠ [] := by
      push Not
      rfl
    -- Without a ready wiki, eligible says only that nothing blocks and nothing has drifted.
    have heligible := eligible_of_held hd hheld
    rw [initialBlockers_eq_nil, hdrift] at heligible
    unfold Store.IdleNoticed
    rw [← (length_managed store.registry.entries).2, hsome, ← Bool.not_eq_true, heligible]
    constructor
    · intro h
      by_contra hnot
      refine h hheld ⟨fun hblocked => hnot (Or.inl hblocked),
        fun hdrifted => hnot (Or.inr (Or.inl hdrifted)), ?_⟩
      by_cases hnil : store.registry.entries.filter isManagedEntry = []
      · exact Or.inl hnil
      · exact Or.inr fun hlength => hnot (Or.inr (Or.inr (Or.inr ⟨hnil, hlength⟩)))
    · rintro (hblocked | hdrifted | hready | ⟨hnil, hlength⟩) _ ⟨hclean, hstill, hcase⟩
      · exact hclean hblocked
      · exact hstill hdrifted
      · exact hnone hready
      · exact hcase.elim hnil fun hne => hne hlength
  · -- a managed wiki is ready, so it is not deferred
    refine ⟨fun _ => Or.inr (Or.inr (Or.inl ?_)), fun _ h => absurd h hheld⟩
    push Not at hheld
    obtain ⟨entry, hentry, hmanaged, hready⟩ := hheld
    refine ⟨entry, hentry, hmanaged, ?_⟩
    cases hresult : store.readiness entry.1 with
    | error reason => exact absurd hresult (hready reason)
    | ok candidate => exact ⟨candidate, rfl⟩

theorem exists_report {fingerprint : String} (h : store.siteSourceFingerprint = .ok fingerprint)
    (mode : PublicationPreflightMode) :
    ∃ report, publicationPreflightWithMode store mode = .ok report :=
  ⟨_, bind_eq_ok.mpr ⟨fingerprint, h, rfl⟩⟩

/-- **When the two modes agree on what an idle run is**: exactly if the run is blocked
anyway, refreshes something, or has only managed wikis to publish. -/
theorem preflight_consistent (store : Store Ready) :
    (∀ s d, publicationPreflightWithMode store .strict = .ok s →
      publicationPreflightWithMode store .deferUnavailable = .ok d → Consistent store s d) ↔
    (∃ error, store.siteSourceFingerprint = .error error) ∨ store.IdleNoticed := by
  cases hfingerprint : store.siteSourceFingerprint with
  | error error =>
    refine ⟨fun _ => Or.inl ⟨error, rfl⟩, fun _ s d hs => ?_⟩
    obtain ⟨fingerprint, hok, -⟩ := bind_eq_ok.mp hs
    exact absurd (hfingerprint.symm.trans hok) (by simp)
  | ok fingerprint =>
    constructor
    · intro h
      obtain ⟨s, hs⟩ := exists_report hfingerprint .strict
      obtain ⟨d, hd⟩ := exists_report hfingerprint .deferUnavailable
      exact Or.inr ((idle_iff hd).mp (h s d hs hd).idle)
    · rintro (⟨error, herror⟩ | hnoticed) s d hs hd
      · exact absurd herror (by simp)
      · obtain ⟨hlisted, hdeferred, hblockers⟩ := blocked_of_ok hs hd
        refine ⟨fun wiki hwiki => accounted_of_ok hd hwiki, hlisted, ⟨hdeferred, hblockers⟩,
          fun deferral hmem => ?_, strict_of_ok hs hd, (idle_iff hd).mpr hnoticed⟩
        obtain ⟨entry, -, hdeferral⟩ := (mem_deferred hd).mp hmem
        obtain ⟨hwiki, -, hreason⟩ := deferral_wiki hdeferral
        rw [hwiki]
        exact readiness_error_names hreason

end Verdict

/-! ## A paused wiki next to a deferred one -/

def scheduledWiki : LifecycleWiki where
  publication := .published
  refresh := .scheduled
  hidden_of_qualification := fun h => Refresh.noConfusion h
  paused_of_retired := fun h => PublicationState.noConfusion h

def pausedWiki : LifecycleWiki where
  publication := .published
  refresh := .paused
  hidden_of_qualification := fun h => Refresh.noConfusion h
  paused_of_retired := fun _ => rfl

/-- A scheduled wiki without a ready index, and a paused one. -/
def pausedNextToDeferred : Store Unit where
  registry := (SortedMap.single "arwiki" scheduledWiki).insert "jawiki" pausedWiki
  gate := some ⟨"run-1", .empty⟩
  recovery := [.committed]
  scrubStatus := some "passed"
  readyIndex := fun _ => .error "No such file or directory"
  readyFromReference := fun _ _ => .error "unreachable"
  artifactBackedFamilyProofs := fun _ => .error "unreachable"
  readyCandidateMergeContracts := fun _ => .error "unreachable"
  siteSourceFingerprint := .ok "f1"

/-- Every managed wiki is deferred, and the run is eligible. -/
theorem idle_run_eligible : ∃ s d,
    publicationPreflightWithMode pausedNextToDeferred .strict = .ok s ∧
      publicationPreflightWithMode pausedNextToDeferred .deferUnavailable = .ok d ∧
      d.eligible = true ∧ ¬ Consistent pausedNextToDeferred s d := by
  have hfingerprint : pausedNextToDeferred.siteSourceFingerprint = .ok "f1" := rfl
  obtain ⟨s, hs⟩ := exists_report hfingerprint .strict
  obtain ⟨d, hd⟩ := exists_report hfingerprint .deferUnavailable
  obtain ⟨heligible, -, hdeferred, -⟩ := preflight_eq_ok hd
  have hrun : d.eligible = true := by
    rw [heligible]
    decide +kernel
  refine ⟨s, d, hs, hd, hrun, fun hconsistent => ?_⟩
  have hidle := hconsistent.idle (by
    rw [hdeferred]
    decide +kernel)
  exact Bool.false_ne_true (hidle.symm.trans hrun)

end WikiEcon.Publication
