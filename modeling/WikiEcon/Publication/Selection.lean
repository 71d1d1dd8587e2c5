import WikiEcon.Lib.Faults
import WikiEcon.Publication.Lineage

/-!
# Selecting candidates and going back

`publication.rs`: a publication moves the output of every selected wiki into the backups of its
transaction, puts a link to the candidate in its place and points the wiki at the candidate's
snapshot. Only then are the files at the top of the output directory merged anew and validated.
The selection is journaled before the first move, so that a publication that fails or is killed
can be rolled back from the journal: the wikis first, then the merged files from their backup, or
by another merge where there is none that is intact.

What the manifests, the retention receipts and the candidates say does not change meanwhile and
is a parameter (`Proofs`). Which merged files there are and how they are made is left open, and
so are `verify`, the check of the site and `validate`, which read them: what they answer may be
anything, and may depend on all that is there (`Merging`). The newest-candidate index, retired
candidates and links that do not lie in the output directory are left out.
-/

namespace WikiEcon.Publication.Selection

open Programs

/-- A path below the output directory. -/
abbrev Path := List String

/-- What is at the place of a wiki's output. -/
inductive Output (Content : Type)
  | absent
  | directory (content : Content)
  | link (target : Path)
  deriving DecidableEq

/-- A ready candidate, as far as a selection needs it. It has a generation record, and the key of a
record is checked. -/
structure ReadyWikiCandidate where
  wiki : String
  snapshot : String
  runId : String
  identified : validComponent wiki = true ∧ isSnapshotVersion snapshot = true ∧
    validComponent runId = true
  deriving DecidableEq

/-- Its directory, relative to the output directory. -/
def ReadyWikiCandidate.candidateRelative (ready : ReadyWikiCandidate) : Path :=
  ["_candidates", ready.wiki, ready.snapshot, ready.runId]

structure SelectionEntry where
  wiki : String
  snapshot : String
  candidateRelative : Path
  previousCandidateRelative : Option Path
  previousSnapshot : Option String
  /-- The backup, in the transaction under the name of the wiki, if there is one. -/
  hasBackup : Bool
  deriving DecidableEq

structure PublicationSelection where
  schemaVersion : ℕ
  runId : String
  state : String
  entries : List SelectionEntry
  deriving DecidableEq

/-- What a selected candidate is linked as. -/
def SelectionEntry.expectedTarget (entry : SelectionEntry) : Path :=
  entry.candidateRelative ++ [entry.wiki]

/-- What other files say of candidates and snapshots. -/
structure Proofs where
  /-- `validate_ready_candidate`. -/
  validateReadyCandidate : ReadyWikiCandidate → Except String Unit
  /-- `validate_active_ready_candidates`. -/
  validateActive : List ReadyWikiCandidate → Except String Unit
  /-- Whether there is a generation manifest. -/
  manifestIsFile : String → String → Bool
  /-- Whether there is a retention receipt. -/
  retentionIsFile : String → String → Bool
  /-- What `publish_current_snapshot` asks. -/
  publishable : String → String → Except String Unit
  /-- What a retention receipt must say of a snapshot and a candidate. -/
  retained : String → String → Path → Except String Unit
  /-- `previous_candidate_recoverable`, of a candidate and its snapshot. -/
  recoverable : String → Path → String → Bool

/-! ## The files -/

/-- The output directory, the snapshot pointers and the transaction of one publication. -/
structure Site (Content : Type) where
  /-- What is in the place of a wiki's output. -/
  active : String → Output Content
  /-- What is in the backups of the transaction under the name of the wiki. -/
  backup : String → Output Content
  /-- The link that is renamed into place. -/
  temporary : String → Option Path
  /-- The current snapshot of a wiki. -/
  pointer : String → Option String
  /-- Whether the directory of the transaction is there. -/
  transaction : Bool
  /-- The selection as it was last written. -/
  journal : Option PublicationSelection
  /-- The files at the top of the output directory, and the site that is built from them. -/
  merged : Content
  /-- The publication backup, if it is complete: if its manifest is there. -/
  publicationBackup : Option Content

/-- What reads and writes the merged files. A write that fails may have written some. -/
class Merging (Content : Type) where
  /-- `verify`. -/
  verify : Site Content → Except String Unit
  /-- `current_site_matches_publication`. -/
  currentSiteMatches : Site Content → Except String Bool
  /-- The selected snapshot versions of the gate. -/
  selectedSnapshotVersions : Site Content → Except String (String → Option String)
  /-- The files of a backup, put over those that are there. -/
  restored : Content → Content → Content
  /-- `begin_selected_run`, of a run and the snapshots it has selected. -/
  beginSelectedRun : String → List (String × String) → Site Content → Except String Unit × Content
  /-- `merge_outputs`. -/
  mergeOutputs : String → Site Content → Except String Unit × Content
  /-- `validate`, which writes the gate. -/
  validate : String → Site Content → Except String Unit × Content

/-- What is asked of the operating system, and of the code that is left open. -/
inductive Call
  | transactionExists
  | readActive (wiki : String)
  | activeIsPresent (wiki : String)
  | activeIsDirectory (wiki : String)
  | backupIsPresent (wiki : String)
  | readPointer (wiki : String)
  | createTransaction
  | snapshotPublicationArtifacts
  | removeTransaction
  | writeJournal (selection : PublicationSelection)
  | readJournal
  | moveToBackup (wiki : String)
  | removeTemporary (wiki : String)
  | linkTemporary (wiki : String) (target : Path)
  | renameTemporary (wiki : String)
  | removeLink (wiki : String)
  | restoreBackup (wiki : String)
  | linkActive (wiki : String) (target : Path)
  | writePointer (wiki snapshot : String)
  | removePointer (wiki : String)
  | refreshIndex (wiki : String)
  | verify
  | currentSiteMatches
  | readGate
  | restorePublicationArtifacts
  | removePublicationArtifactBackup
  | beginSelectedRun (runId : String) (snapshots : List (String × String))
  | mergeOutputs (runId : String)
  | validate (runId : String)

/-- What a call that does not fail answers. -/
abbrev Call.Answer : Call → Type
  | .transactionExists => Bool
  | .readActive _ => Option Path
  | .activeIsPresent _ => Bool
  | .activeIsDirectory _ => Bool
  | .backupIsPresent _ => Bool
  | .readPointer _ => Option String
  | .readJournal => PublicationSelection
  | .snapshotPublicationArtifacts => Bool
  | .currentSiteMatches => Bool
  | .readGate => String → Option String
  | .restorePublicationArtifacts => Bool
  | _ => Unit

/-- To look whether something is there does not fail. -/
def Call.fallible : Call → Bool
  | .transactionExists => false
  | .activeIsPresent _ => false
  | .activeIsDirectory _ => false
  | .backupIsPresent _ => false
  | _ => true

variable {Content : Type} [Merging Content]

/-- Where it leads, if it is a link. -/
def Output.target : Output Content → Option Path
  | .link target => some target
  | _ => none

def Output.isPresent : Output Content → Bool
  | .absent => false
  | _ => true

def Output.isDirectory : Output Content → Bool
  | .directory _ => true
  | _ => false

/-- What `rename` puts where, if it does. -/
def renameOnto : Output Content → Output Content → Except String (Output Content)
  | .absent, _ => .error "No such file or directory"
  | source, .absent => .ok source
  | .link target, .link _ => .ok (.link target)
  | .link _, .directory _ => .error "Is a directory"
  | .directory _, .link _ => .error "Not a directory"
  | .directory _, .directory _ => .error "Directory not empty"

def Site.setActive (s : Site Content) (wiki : String) (output : Output Content) : Site Content :=
  { s with active := Function.update s.active wiki output }

def Site.setBackup (s : Site Content) (wiki : String) (output : Output Content) : Site Content :=
  { s with backup := Function.update s.backup wiki output }

def Site.setTemporary (s : Site Content) (wiki : String) (link : Option Path) : Site Content :=
  { s with temporary := Function.update s.temporary wiki link }

def Site.setPointer (s : Site Content) (wiki : String) (snapshot : Option String) : Site Content :=
  { s with pointer := Function.update s.pointer wiki snapshot }

/-- A rename between two places, if the operating system makes it. -/
def renamed (s : Site Content) (source target : Output Content)
    (move : Output Content → Site Content) :
    Except String Unit × Site Content :=
  match renameOnto source target with
  | .ok output => (.ok (), move output)
  | .error message => (.error message, s)

/-- The site with the merged files that a write left. -/
def Site.written (s : Site Content) (outcome : Except String Unit × Content) :
    Except String Unit × Site Content :=
  (outcome.1, { s with merged := outcome.2 })

/-- The merged files with those of the backup put back, if it is complete. -/
def Site.restoredMerged (s : Site Content) : Content :=
  match s.publicationBackup with
  | none => s.merged
  | some backup => Merging.restored backup s.merged

/-- What a call does that meets no fault. -/
def Site.perform (s : Site Content) : (c : Call) → Except String c.Answer × Site Content
  | .transactionExists => (.ok s.transaction, s)
  | .readActive wiki => (.ok (s.active wiki).target, s)
  | .activeIsPresent wiki => (.ok (s.active wiki).isPresent, s)
  | .activeIsDirectory wiki => (.ok (s.active wiki).isDirectory, s)
  | .backupIsPresent wiki => (.ok (s.backup wiki).isPresent, s)
  | .readPointer wiki => (.ok (s.pointer wiki), s)
  | .createTransaction => (.ok (), { s with transaction := true })
  | .snapshotPublicationArtifacts =>
    -- a publication that does not verify is left without a backup
    if (Merging.verify s).isOk then (.ok true, { s with publicationBackup := some s.merged })
    else (.ok false, s)
  | .removeTransaction =>
    (.ok (), { s with transaction := false, journal := none, backup := fun _ => .absent,
                      publicationBackup := none })
  | .writeJournal selection => (.ok (), { s with journal := some selection })
  | .readJournal => (context s.journal "No such file or directory", s)
  | .moveToBackup wiki => renamed s (s.active wiki) (s.backup wiki) fun output =>
    (s.setActive wiki .absent).setBackup wiki output
  | .removeTemporary wiki => (.ok (), s.setTemporary wiki none)
  | .linkTemporary wiki target =>
    if s.temporary wiki = none then (.ok (), s.setTemporary wiki (some target))
    else (.error "File exists", s)
  | .renameTemporary wiki => match s.temporary wiki with
    | none => (.error "No such file or directory", s)
    | some target => renamed s (.link target) (s.active wiki) fun output =>
      (s.setActive wiki output).setTemporary wiki none
  | .removeLink wiki =>
    (.ok (), if (s.active wiki).target.isSome then s.setActive wiki .absent else s)
  | .restoreBackup wiki => renamed s (s.backup wiki) (s.active wiki) fun output =>
    (s.setActive wiki output).setBackup wiki .absent
  | .linkActive wiki target =>
    if (s.active wiki).isPresent = true then (.error "File exists", s)
    else (.ok (), s.setActive wiki (.link target))
  | .writePointer wiki snapshot => (.ok (), s.setPointer wiki (some snapshot))
  | .removePointer wiki => (.ok (), s.setPointer wiki none)
  | .refreshIndex _ => (.ok (), s)
  | .verify => (Merging.verify s, s)
  | .currentSiteMatches => (Merging.currentSiteMatches s, s)
  | .readGate => (Merging.selectedSnapshotVersions s, s)
  | .restorePublicationArtifacts =>
    (.ok s.publicationBackup.isSome, { s with merged := s.restoredMerged })
  | .removePublicationArtifactBackup => (.ok (), { s with publicationBackup := none })
  | .beginSelectedRun runId snapshots => s.written (Merging.beginSelectedRun runId snapshots s)
  | .mergeOutputs runId => s.written (Merging.mergeOutputs runId s)
  | .validate runId => s.written (Merging.validate runId s)

abbrev Reply (c : Call) : Type := Except String c.Answer

abbrev Action (α : Type) : Type := Program String Call Reply α

abbrev performFaulty (w : Faulty (Site Content)) (c : Call) : Reply c × Faulty (Site Content) :=
  faulty Call.fallible Site.perform "I/O error" w c

def ask (c : Call) : Action c.Answer := Program.ask c >>= Program.check

def check {α : Type} (x : Except String α) : Action α := Program.check x

/-! ## Pointers -/

/-- `publish_current_snapshot`. -/
def publishCurrentSnapshot (proofs : Proofs) (wiki snapshot : String) : Action Unit := do
  check (proofs.publishable wiki snapshot)
  ask (.writePointer wiki snapshot)

def setCurrentSnapshotForReadyCandidate (proofs : Proofs) (wiki snapshot : String)
    (candidateRelative : Path) : Action Unit :=
  if proofs.manifestIsFile wiki snapshot || !proofs.retentionIsFile wiki snapshot then
    publishCurrentSnapshot proofs wiki snapshot
  else do
    check (proofs.retained wiki snapshot candidateRelative)
    ask (.writePointer wiki snapshot)

/-- The snapshot pointer of an entry as it was before. -/
def restorePointer (proofs : Proofs) (entry : SelectionEntry) : Action Unit :=
  match entry.previousSnapshot with
  | none => ask (.removePointer entry.wiki)
  | some snapshot =>
    if proofs.manifestIsFile entry.wiki snapshot then
      publishCurrentSnapshot proofs entry.wiki snapshot
    else do
      let previous ← check (context entry.previousCandidateRelative
        "retained rollback snapshot has no previous candidate")
      setCurrentSnapshotForReadyCandidate proofs entry.wiki snapshot previous

/-! ## Activation -/

/-- The candidate that the output of a wiki is a link to. -/
def activeCandidateRelative (target : Option Path) (wiki : String) : Option Path :=
  match target with
  | some ["_candidates", candidateWiki, snapshot, runId, name] =>
    if candidateWiki = wiki ∧ isSnapshotVersion snapshot = true ∧ validComponent runId = true
        ∧ name = wiki then
      some ["_candidates", candidateWiki, snapshot, runId]
    else none
  | _ => none

/-- Whether the candidate is linked and pointed to already. -/
def isSelected (ready : ReadyWikiCandidate) : Action Bool := do
  let activeTarget ← ask (.readActive ready.wiki)
  if activeTarget = some (ready.candidateRelative ++ [ready.wiki]) then do
    let pointer ← ask (.readPointer ready.wiki)
    return pointer = some ready.snapshot
  else return false

/-- The entry of a candidate, after those before it. -/
def selectCandidate (proofs : Proofs) (entries : List SelectionEntry) (ready : ReadyWikiCandidate) :
    Action (List SelectionEntry) := do
  let selected ← isSelected ready
  if selected then return entries
  else do
    check (proofs.validateReadyCandidate ready)
    let present ← ask (.activeIsPresent ready.wiki)
    let previousSnapshot ← ask (.readPointer ready.wiki)
    let activeTarget ← ask (.readActive ready.wiki)
    return entries ++ [{
      wiki := ready.wiki
      snapshot := ready.snapshot
      candidateRelative := ready.candidateRelative
      previousCandidateRelative := activeCandidateRelative activeTarget ready.wiki
      previousSnapshot := previousSnapshot
      hasBackup := present }]

def moveActiveToBackup (entry : SelectionEntry) : Action Unit :=
  if entry.hasBackup then ask (.moveToBackup entry.wiki) else return ()

/-- The output of a wiki is replaced by a link to its candidate. -/
def activateEntry (proofs : Proofs) (entry : SelectionEntry) : Action Unit := do
  moveActiveToBackup entry
  ask (.removeTemporary entry.wiki)
  ask (.linkTemporary entry.wiki entry.expectedTarget)
  ask (.renameTemporary entry.wiki)
  setCurrentSnapshotForReadyCandidate proofs entry.wiki entry.snapshot entry.candidateRelative

def forEach {α : Type} (l : List α) (body : α → Action Unit) : Action Unit :=
  l.foldlM (fun _ a => body a) ()

/-! ## Rollback -/

def backupExists (entry : SelectionEntry) : Action Bool :=
  if entry.hasBackup then ask (.backupIsPresent entry.wiki) else return false

/-- `previous_is_live`. -/
def SelectionEntry.previousIsLive (entry : SelectionEntry) (activeTarget : Option Path)
    (directoryIsLive : Bool) : Bool :=
  match entry.previousCandidateRelative with
  | none => directoryIsLive
  | some previous => activeTarget = some (previous ++ [entry.wiki])

/-- `previous_candidate_recoverable`. -/
def SelectionEntry.previousIsRecoverable (entry : SelectionEntry) (proofs : Proofs) : Bool :=
  match entry.previousCandidateRelative, entry.previousSnapshot with
  | some previous, some snapshot => proofs.recoverable entry.wiki previous snapshot
  | _, _ => false

/-- `remove_selection_link`, of a candidate that is live. -/
def removeSelectionLink (entry : SelectionEntry) (selectedIsLive : Bool) : Action Unit :=
  if selectedIsLive then ask (.removeLink entry.wiki) else return ()

/-- `restore_backup`. -/
def restoreBackup (entry : SelectionEntry) : Action Unit := do
  let present ← backupExists entry
  if present then ask (.restoreBackup entry.wiki) else return ()

/-- The link to the previous candidate, if nothing else is there. -/
def relinkPrevious (proofs : Proofs) (entry : SelectionEntry) : Action Unit := do
  let present ← ask (.activeIsPresent entry.wiki)
  match entry.previousCandidateRelative with
  | none => return ()
  | some previous =>
    if !present && entry.previousIsRecoverable proofs then
      ask (.linkActive entry.wiki (previous ++ [entry.wiki]))
    else return ()

/-- The output and the pointer of an entry that is not restored yet. -/
def restoreEntry (proofs : Proofs) (entry : SelectionEntry) (selectedIsLive : Bool) :
    Action Unit := do
  removeSelectionLink entry selectedIsLive
  restoreBackup entry
  relinkPrevious proofs entry
  restorePointer proofs entry
  ask (.refreshIndex entry.wiki)

/-- The body of the loop of `rollback_selection_files`. -/
def rollbackEntry (proofs : Proofs) (entry : SelectionEntry) : Action Unit := do
  let activeTarget ← ask (.readActive entry.wiki)
  let directoryIsLive ← ask (.activeIsDirectory entry.wiki)
  let backupExists ← backupExists entry
  let pointer ← ask (.readPointer entry.wiki)
  let selectedIsLive : Bool := activeTarget = some entry.expectedTarget
  let previousIsLive := entry.previousIsLive activeTarget directoryIsLive
  let snapshotIsRestored : Bool := pointer = entry.previousSnapshot
  if !selectedIsLive && !backupExists && previousIsLive && snapshotIsRestored then return ()
  else do
    let present ← ask (.activeIsPresent entry.wiki)
    -- an initial publication whose link is gone
    if entry.previousCandidateRelative.isNone && !present && !backupExists &&
      snapshotIsRestored then
      return ()
    else do
      check (ensure ((selectedIsLive || backupExists || previousIsLive) = true)
        ("publication rollback cannot prove a selected, backup, or previously restored target for "
          ++ entry.wiki))
      restoreEntry proofs entry selectedIsLive

def rollbackSelectionFiles (proofs : Proofs) (selection : PublicationSelection) : Action Unit :=
  forEach selection.entries.reverse (rollbackEntry proofs)

/-! ## Transactions -/

/-- The journal says that everything is as it was. -/
def recordRolledBack (selection : PublicationSelection) : Action Unit :=
  ask (.writeJournal { selection with state := "rolled_back" })

/-- The merged files anew. -/
def rebuildPublication (runId : String) (snapshots : List (String × String)) : Action Unit := do
  ask (.beginSelectedRun runId snapshots)
  ask (.mergeOutputs runId)
  ask (.validate runId)

/-- An activation that failed. -/
def abandonActivation (proofs : Proofs) (selection : PublicationSelection) (message : String) :
    Action PublicationSelection := do
  forEach selection.entries fun entry => ask (.removeTemporary entry.wiki)
  rollbackSelectionFiles proofs selection
  recordRolledBack selection
  ask .removePublicationArtifactBackup
  Program.fail message

/-- The candidates are the newest of the published wikis, as `latest_ready_candidates` has them. -/
def activateReadyCandidates (proofs : Proofs) (candidates : List ReadyWikiCandidate)
    (runId : String) : Action PublicationSelection := do
  check (ensure (validComponent runId = true) "unsafe publication selection run ID")
  let present ← ask .transactionExists
  check (ensure (present = false) "publication transaction already exists")
  let entries ← candidates.foldlM (selectCandidate proofs) []
  ask .createTransaction
  let artifacts ← (ask .snapshotPublicationArtifacts).attempt
  match artifacts with
  | .error message => do
    ask .removeTransaction
    Program.fail message
  | .ok _ => do
    let selection : PublicationSelection := ⟨1, runId, "activating", entries⟩
    ask (.writeJournal selection)
    let activation ← (forEach entries (activateEntry proofs)).attempt
    match activation with
    | .error message => abandonActivation proofs selection message
    | .ok _ => do
      ask (.writeJournal { selection with state := "selected" })
      return { selection with state := "selected" }

/-- Merged files that were restored must verify. -/
def verifyRestored (restored : Bool) : Action Unit :=
  if restored then ask .verify else return ()

/-- A publication that could not be merged or validated. -/
def abandonPublication (proofs : Proofs) (selection : PublicationSelection) (message : String) :
    Action Unit := do
  rollbackSelectionFiles proofs selection
  let restored ← ask .restorePublicationArtifacts
  verifyRestored restored
  recordRolledBack selection
  ask .removePublicationArtifactBackup
  Program.fail message

/-- Without a newer candidate the merged files are repaired, from the candidates that are live. -/
def validateRepair (proofs : Proofs) (candidates : List ReadyWikiCandidate)
    (selection : PublicationSelection) : Action Unit :=
  if selection.entries = [] then check (proofs.validateActive candidates) else return ()

/-- `prepare_ready_publication_with_merge`, of a publication that is needed. -/
def prepareReadyPublication (proofs : Proofs) (candidates : List ReadyWikiCandidate)
    (runId : String) : Action Unit := do
  let selection ← activateReadyCandidates proofs candidates runId
  validateRepair proofs candidates selection
  let rebuilt ← (rebuildPublication runId
    (selection.entries.map fun entry => (entry.wiki, entry.snapshot))).attempt
  match rebuilt with
  | .error message => abandonPublication proofs selection message
  | .ok _ => return ()

/-! ## From the journal -/

/-- The snapshot and the run of a candidate's directory. A directory right below the output
directory is no candidate's either: the caller compares the whole path. -/
def directoryIdentity (directory : Path) : Option (String × String) :=
  match directory.reverse with
  | runId :: snapshot :: _ =>
    if validComponent runId && isSnapshotVersion snapshot then some (snapshot, runId) else none
  | _ => none

/-- `wiki_candidate_dir`, relative to the output directory. -/
def wikiCandidateDir (wiki snapshot runId : String) : Except String Path := do
  ensure (validComponent wiki = true) "unsafe candidate wiki identifier"
  ensure (isSnapshotVersion snapshot = true) "invalid snapshot version"
  ensure (validComponent runId = true) "unsafe candidate run identifier"
  return ["_candidates", wiki, snapshot, runId]

/-- What `validate_publication_selection` asks of the previous candidate. -/
def validatePrevious (wiki : String) : Option Path → Except String Unit
  | none => .ok ()
  | some previous => do
    let identity ← context (directoryIdentity previous)
      "previous candidate path has no valid identity"
    let expected ← wikiCandidateDir wiki identity.1 identity.2
    ensure (previous = expected) "previous candidate path does not match its wiki"

/-- What `validate_publication_selection` asks of an entry, after the wikis before it. The path of
a backup needs no check: it is not more here than whether there is one. -/
def validateEntry (wikis : List String) (entry : SelectionEntry) :
    Except String (List String) := do
  ensure (entry.wiki ∉ wikis) ("duplicate selected wiki " ++ entry.wiki)
  ensure (validComponent entry.wiki = true) "unsafe selected wiki identity"
  ensure (isSnapshotVersion entry.snapshot = true) "invalid snapshot version"
  let runId ← context entry.candidateRelative.getLast?
    "selected candidate has no valid run identity"
  let expected ← wikiCandidateDir entry.wiki entry.snapshot runId
  ensure (entry.candidateRelative = expected) "selected candidate path does not match its identity"
  validatePrevious entry.wiki entry.previousCandidateRelative
  return entry.wiki :: wikis

/-- What a journal can say of its publication. -/
def selectionStates : List String :=
  ["activating", "selected", "committing", "committed", "rolled_back", "no_op", "reconciled"]

/-- `validate_publication_selection`. -/
def validatePublicationSelection (expectedRunId : String) (selection : PublicationSelection) :
    Except String Unit := do
  ensure (selection.schemaVersion = 1) "unsupported publication selection schema"
  ensure (selection.runId = expectedRunId ∧ validComponent selection.runId = true)
    "publication selection run identity mismatch"
  ensure (selection.state ∈ selectionStates)
    ("unsupported publication selection state " ++ selection.state)
  let _ ← selection.entries.foldlM validateEntry []
  return ()

/-- `rollback_ready_publication`. -/
def rollbackReadyPublication (proofs : Proofs) (runId : String) : Action Unit := do
  check (ensure (validComponent runId = true) "unsafe publication selection run ID")
  let selection ← ask .readJournal
  check (ensure (selection.schemaVersion = 1 ∧ selection.runId = runId
    ∧ selection.state = "selected") "publication selection is not active")
  rollbackSelectionFiles proofs selection
  let restored ← ask .restorePublicationArtifacts
  if restored then do
    ask .verify
    recordRolledBack selection
    ask .removePublicationArtifactBackup
  else do
    recordRolledBack selection
    rebuildPublication runId []

/-- Whether the merged files, the site and the gate are those of the publication before. -/
def provePreviousPublication (selection : PublicationSelection) : Action Unit := do
  ask .verify
  let siteMatches ← ask .currentSiteMatches
  check (ensure (siteMatches = true) "current site does not match the previous publication gate")
  let gate ← ask .readGate
  check (ensure (∀ entry ∈ selection.entries, gate entry.wiki = entry.previousSnapshot)
    "previous publication gate does not cover every rollback snapshot")

/-- The end of a rollback whose merged files are intact. -/
def keepPreviousPublication (selection : PublicationSelection) : Action Bool := do
  ask .verify
  let siteMatches ← ask .currentSiteMatches
  check (ensure (siteMatches = true)
    "previous publication changed while restoring wiki candidates")
  recordRolledBack selection
  ask .removePublicationArtifactBackup
  return false

/-- The end of a rollback whose merged files are made anew. -/
def rebuildPreviousPublication (recoveryRunId : String) (selection : PublicationSelection) :
    Action Bool := do
  rebuildPublication recoveryRunId []
  recordRolledBack selection
  ask .removePublicationArtifactBackup
  return true

/-- What is done about the merged files when the wikis are restored. -/
def finishRollback (recoveryRunId : String) (selection : PublicationSelection) : Action Bool := do
  let proven ← (provePreviousPublication selection).attempt
  if proven.isOk then keepPreviousPublication selection
  else rebuildPreviousPublication recoveryRunId selection

/-- `rollback_unpublished_selection`: whether the merged files are made anew. -/
def rollbackUnpublishedSelection (proofs : Proofs) (runId recoveryRunId : String) :
    Action Bool := do
  check (ensure (validComponent runId = true) "unsafe publication selection run ID")
  let selection ← ask .readJournal
  check (validatePublicationSelection runId selection)
  check (ensure (selection.state ∈ ["activating", "selected"])
    "publication selection is not recoverable by rollback")
  rollbackSelectionFiles proofs selection
  let _ ← ask .restorePublicationArtifacts
  finishRollback recoveryRunId selection

end WikiEcon.Publication.Selection
