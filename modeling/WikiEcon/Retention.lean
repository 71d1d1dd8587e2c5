import Mathlib.Algebra.BigOperators.Group.List.Basic
import Mathlib.Data.Finset.Dedup
import Mathlib.Data.Finset.Max
import Mathlib.Data.List.Dedup
import Mathlib.Data.List.Infix
import Mathlib.Data.List.Lex
import Mathlib.Data.List.Sort
import Mathlib.Data.String.Basic
import WikiEcon.Fleet.Operations
import WikiEcon.Lib.Transition

/-!
# Purging the inputs of a snapshot

`audit_or_apply` of `retention.rs`, called again and again for one wiki and snapshot and cut
off anywhere. A call writes an authorization, removes what its allowlist names, one entry
after the other, and writes the receipt again with what it has removed.

The history inputs on the allowlist are those of the snapshot, but the patrol source is the
directory of the wiki, which holds the generations of all its snapshots and files that no one
of them owns; and what a call has removed is known to that call only. So a purge is confined
as long as the directory holds nothing but generations of the purged snapshot, and accounted
for as long as what the calls before the last one removed is empty and below a path that the
last one still finds (`purge_promised`, `accounts_iff_recountable`). Neither is checked
(`purge_overreaches`).

A call that is not cut off comes to an end: each of its steps does some of the work that is
left (`left_lt_of_step`), and as long as there is any, a step can be taken (`exists_step`).

The tree is a list of entries under the data directory, directories among them. Sizes are
those of a disk, so their sums are.
-/

namespace WikiEcon.Retention

open Transition

/-- The components of a path below the data directory. -/
abbrev Path := List String

def retentionReceiptSchemaVersion : ℕ := 1

inductive SourceRecoverability
  | redownloadable
  | irreplaceable
deriving DecidableEq, Repr

inductive InputRetention
  | retain
  | purgeAfterReady
deriving DecidableEq, Repr

structure RetentionPolicy where
  sourceRecoverability : SourceRecoverability
  historyInput : InputRetention
  patrolSource : InputRetention
  computedRollbackGenerations : ℕ
deriving DecidableEq, Repr

def RetentionPolicy.validate (policy : RetentionPolicy) : Except String Unit := do
  ensure (policy.computedRollbackGenerations = 1)
    "computed rollback generations must be one until zero-retention publication is implemented"
  if policy.sourceRecoverability = .irreplaceable then
    ensure (policy.historyInput = .retain ∧ policy.patrolSource = .retain)
      "irreplaceable sources cannot use purge-after-ready retention"

def RetentionPolicy.purgesAnyInput (policy : RetentionPolicy) : Bool :=
  policy.historyInput == .purgeAfterReady || policy.patrolSource == .purgeAfterReady

inductive RetentionState
  | authorized
  | applied
deriving DecidableEq, Repr

structure RetentionReceipt where
  schemaVersion : ℕ
  wiki : String
  snapshot : String
  state : RetentionState
  authorizedReadySha256 : String
  sourcePlanSha256 : String
  historyInput : InputRetention
  patrolSource : InputRetention
  authorizedAtUnix : ℕ
  appliedAtUnix : Option ℕ
  removedBytes : ℕ
  removedPaths : List Path
deriving DecidableEq, Repr

structure RetentionAuthorization where
  wiki : String
  snapshot : String
  readySha256 : String
  sourcePlanSha256 : String
  policy : RetentionPolicy
deriving DecidableEq, Repr

/-! ## Paths -/

/-- The letters of a wiki's name. -/
def isWikiName (wiki : String) : Bool :=
  !wiki.isEmpty && wiki.toList.all fun c => c.isLower || c.isDigit || c == '_'

def receiptPath (wiki snapshot : String) : Except String Path := do
  Fleet.validateSnapshotVersion snapshot
  ensure (isWikiName wiki = true) "unsafe retention wiki identifier"
  return ["retention", wiki, snapshot ++ ".json"]

/-- `snapshot_plan::plan_path`. -/
def planPath (wiki snapshot : String) : Except String Path := do
  ensure (isWikiName wiki = true ∧ wiki.utf8ByteSize ≤ 128) "invalid wiki database name"
  Fleet.validateSnapshotVersion snapshot
  return ["snapshots", wiki, snapshot, "source-plan.json"]

/-- The history inputs of a snapshot, in the order of the source. -/
def historyPaths (wiki snapshot : String) : List Path := [
  ["parquet", wiki, "_snapshots", snapshot],
  ["warehouse", wiki, "_snapshots", snapshot],
  ["metric-input", wiki, "_snapshots", snapshot],
  ["snapshots", wiki, snapshot, "generation-manifest.json"],
  ["snapshots", wiki, snapshot, "compaction-manifest.json"],
  ["snapshots", wiki, snapshot, "compaction-transaction.json"],
  ["stages", wiki, snapshot, "ingest.json"]]

/-- The patrol generations of a snapshot; `generation_dir` is a directory in it. -/
def patrolGenerations (wiki snapshot : String) : Path := ["patrol", wiki, "generations", snapshot]

/-- The first half of `purge_paths`. -/
def purgedHistory (wiki snapshot : String) (policy : RetentionPolicy) : Except String (List Path) :=
  if policy.historyInput = .purgeAfterReady then do
    Fleet.validateSnapshotVersion snapshot
    return historyPaths wiki snapshot
  else return []

def purgePaths (wiki snapshot : String) (policy : RetentionPolicy) : Except String (List Path) := do
  let history ← purgedHistory wiki snapshot policy
  let patrol : List Path := if policy.patrolSource = .purgeAfterReady then [["patrol", wiki]]
    else []
  return ((history ++ patrol).insertionSort fun a b => a ≤ b).dedup

/-! ## The tree -/

inductive Node
  | dir
  | file (content : List UInt8)
deriving DecidableEq, Repr

def Node.size : Node → ℕ
  | .dir => 0
  | .file content => content.length

abbrev Tree := List (Path × Node)

def contentAt (tree : Tree) (path : Path) : Option (List UInt8) :=
  match tree.lookup path with
  | some (.file content) => some content
  | _ => none

/-- `path.exists()`. -/
def existsAt (tree : Tree) (path : Path) : Bool := tree.any fun entry => entry.1 = path

def totalSize (tree : Tree) : ℕ := (tree.map fun entry => entry.2.size).sum

/-- `path_bytes`. -/
def pathBytes (tree : Tree) (path : Path) : ℕ :=
  totalSize (tree.filter fun entry => path.isPrefixOf entry.1)

/-- `validate_purged_snapshot`, on the receipt of the snapshot. -/
def validatePurgedSnapshot (sha256 : List UInt8 → String) (tree : Tree)
    (stored : Option RetentionReceipt) (wiki snapshot : String) : Except String RetentionReceipt :=
  do
  let _ ← receiptPath wiki snapshot
  let receipt ← context stored "failed to read retention receipt"
  ensure (receipt.schemaVersion = retentionReceiptSchemaVersion ∧ receipt.wiki = wiki ∧
      receipt.snapshot = snapshot ∧ (receipt.state = .authorized ∨ receipt.state = .applied) ∧
      receipt.authorizedReadySha256.length = 64 ∧ receipt.sourcePlanSha256.length = 64)
    "retention receipt identity is invalid"
  ensure (receipt.historyInput = .purgeAfterReady)
    "retention receipt does not authorize purged history input"
  let sourcePlan ← planPath wiki snapshot
  let content ← context (contentAt tree sourcePlan)
    "purged snapshot canonical source plan is missing"
  ensure (sha256 content = receipt.sourcePlanSha256)
    "purged snapshot source plan changed after retention authorization"
  return receipt

/-! ## A call, step by step -/

/-- What a call does before it writes anything: the receipt, and the allowlist. -/
def begin (authorization : RetentionAuthorization) (now : ℕ) :
    Except String (RetentionReceipt × List Path) := do
  authorization.policy.validate
  ensure (authorization.policy.sourceRecoverability = .redownloadable)
    "retention purge requires redownloadable sources"
  ensure (authorization.policy.purgesAnyInput = true)
    "retention policy does not authorize input purging"
  let paths ← purgePaths authorization.wiki authorization.snapshot authorization.policy
  let _ ← receiptPath authorization.wiki authorization.snapshot
  return ({
    schemaVersion := retentionReceiptSchemaVersion
    wiki := authorization.wiki
    snapshot := authorization.snapshot
    state := .authorized
    authorizedReadySha256 := authorization.readySha256
    sourcePlanSha256 := authorization.sourcePlanSha256
    historyInput := authorization.policy.historyInput
    patrolSource := authorization.policy.patrolSource
    authorizedAtUnix := now
    appliedAtUnix := none
    removedBytes := 0
    removedPaths := [] }, paths)

/-- Where a call is; `bytes` and `removed` are what it has removed. -/
inductive Phase
  | idle
  /-- before the authorization is written -/
  | authorizing (receipt : RetentionReceipt) (paths : List Path)
  | removing (receipt : RetentionReceipt) (paths : List Path) (bytes : ℕ) (removed : List Path)
  /-- in `remove_path`, of a path of this size -/
  | deleting (receipt : RetentionReceipt) (path : Path) (size : ℕ) (paths : List Path) (bytes : ℕ)
      (removed : List Path)
  | done
deriving DecidableEq

/-- The data directory, the receipt of the snapshot, and whether a call has written one. -/
structure State where
  tree : Tree
  receipt : Option RetentionReceipt
  durable : Bool
  phase : Phase

inductive Event
  /-- `audit_or_apply(.., true)` is called. -/
  | call (authorization : RetentionAuthorization) (now : ℕ)
  /-- the first `atomic_json` -/
  | authorize
  /-- `path.exists()`, and `path_bytes` -/
  | look
  /-- one entry is removed -/
  | unlink (path : Path)
  /-- `remove_path` returns -/
  | removed
  /-- the last `atomic_json` -/
  | apply (now : ℕ)
  /-- the process dies -/
  | cut

/-- How many steps a call has at most left. -/
def State.left (s : State) : ℕ :=
  match s.phase with
  | .idle | .done => 0
  | .authorizing _ paths => 2 * paths.length + s.tree.length + 2
  | .removing _ paths _ _ => 2 * paths.length + s.tree.length + 1
  | .deleting _ _ _ paths _ _ => 2 * paths.length + s.tree.length + 2

/-- A call fails before it writes anything, or goes on to write. -/
def State.called (s : State) (authorization : RetentionAuthorization) (now : ℕ) : State :=
  match begin authorization now with
  | .error _ => { s with phase := .idle }
  | .ok (receipt, paths) => { s with phase := .authorizing receipt paths }

def State.step (s : State) : Event → Option State
  | .call authorization now =>
    match s.phase with
    | .idle | .done => some (s.called authorization now)
    | _ => none
  | .authorize =>
    match s.phase with
    | .authorizing receipt paths =>
      some { s with
        receipt := some receipt, durable := true, phase := .removing receipt paths 0 [] }
    | _ => none
  | .look =>
    match s.phase with
    | .removing receipt (path :: paths) bytes removed =>
      some { s with
        phase := if existsAt s.tree path then
            .deleting receipt path (pathBytes s.tree path) paths bytes removed
          else .removing receipt paths bytes removed }
    | _ => none
  | .unlink path =>
    match s.phase with
    | .deleting _ root .. =>
      -- an entry below the root that has none below it
      if root.isPrefixOf path && existsAt s.tree path &&
          s.tree.all fun entry => !path.isPrefixOf entry.1 || entry.1 = path
      then some { s with tree := s.tree.filter fun entry => entry.1 ≠ path }
      else none
    | _ => none
  | .removed =>
    match s.phase with
    | .deleting receipt path size paths bytes removed =>
      if s.tree.any fun entry => path.isPrefixOf entry.1 then none
      else some { s with phase := .removing receipt paths (bytes + size) (removed ++ [path]) }
    | _ => none
  | .apply now =>
    match s.phase with
    | .removing receipt [] bytes removed =>
      some { s with
        receipt := some { receipt with
          state := .applied
          appliedAtUnix := some now
          removedBytes := bytes
          removedPaths := removed }
        phase := .done }
    | _ => none
  | .cut => some { s with phase := .idle }

/-! ## Runs -/

/-- The steps of a call once it has begun, none of them cut off. -/
def Event.ofCall : Event → Bool
  | .call _ _ | .cut => false
  | .authorize | .look | .unlink _ | .removed | .apply _ => true

/-- Which snapshot is purged, and how. -/
structure Scope where
  wiki : String
  snapshot : String
  policy : RetentionPolicy

/-- What `authorize_input_retention` returns: the hashes of a ready candidate and of the source
plan as it is. -/
def Scope.Authorizes (scope : Scope) (sha256 : List UInt8 → String) (tree : Tree)
    (authorization : RetentionAuthorization) : Prop :=
  authorization.wiki = scope.wiki ∧ authorization.snapshot = scope.snapshot ∧
    authorization.policy = scope.policy ∧
    (∃ ready, authorization.readySha256 = sha256 ready) ∧
    ∃ path content, planPath scope.wiki scope.snapshot = .ok path ∧
      contentAt tree path = some content ∧ authorization.sourcePlanSha256 = sha256 content

/-- Calls for one snapshot, each of them authorized, and what is between two of their steps. -/
def purging (scope : Scope) (sha256 : List UInt8 → String) (initial : State) :
    System State Event where
  init s := s = initial
  step s e t := s.step e = some t ∧
    ∀ authorization now, e = .call authorization now → scope.Authorizes sha256 s.tree authorization

/-- A call that is left to run. -/
def working : System State Event where
  init _ := True
  step s e t := e.ofCall = true ∧ s.step e = some t

/-! ## What is promised of a purge -/

/-- The snapshot of a directory of generations: `fetch` builds a generation of 2026-08 in one
named as `.2026-08.311.17.tmp`. -/
def snapshotOf (name : String) : String :=
  match name.toList with
  | '.' :: rest => String.ofList (rest.takeWhile fun c => c ≠ '.')
  | _ => name

/-- Whether what is in the patrol directory of a wiki, under this path, is an input of the
snapshot. The generations are of one snapshot each; the rest (the autopatrol groups that
`preflight` caches, the tables of a wiki without generations, the pointer to the current one)
is read for all of them. -/
def ofPatrol (snapshot : String) : Path → Bool
  | [] | ["generations"] => false
  | "generations" :: name :: _ => snapshotOf name = snapshot
  | _ => true

/-- What computing a snapshot needs: the history inputs, the source plan, the patrol source. -/
def isInput (wiki snapshot : String) (path : Path) : Bool :=
  ((["snapshots", wiki, snapshot, "source-plan.json"] :: historyPaths wiki snapshot).any
      fun input => input.isPrefixOf path) ||
    match path with
    | "patrol" :: other :: rest => other = wiki && ofPatrol snapshot rest
    | _ => false

/-- The receipt accounts for everything that is gone. -/
structure Accounts (initial tree : Tree) (receipt : RetentionReceipt) : Prop where
  applied : receipt.state = .applied
  bytes : totalSize initial = totalSize tree + receipt.removedBytes
  paths : ∀ entry ∈ initial, entry ∉ tree → ∃ path ∈ receipt.removedPaths, path <+: entry.1

/-- Every run of a call that is left alone from here on is bounded, and where it ends the receipt
is applied and accounts for everything. -/
def Completes (initial : Tree) (s : State) : Prop :=
  ∀ labels t, working.Run s labels t → labels.length ≤ s.left ∧
    ((∀ e u, ¬working.step t e u) →
      t.phase = .done ∧ ∃ receipt, t.receipt = some receipt ∧ Accounts initial t.tree receipt)

/-- What is promised in every state of a run. -/
structure Promised (scope : Scope) (sha256 : List UInt8 → String) (initial : Tree) (s : State) :
    Prop where
  /-- No input of another wiki or of another snapshot is removed. -/
  confined : ∀ wiki snapshot, (wiki, snapshot) ≠ (scope.wiki, scope.snapshot) →
    ∀ entry ∈ initial, isInput wiki snapshot entry.1 = true → entry ∈ s.tree
  plan : ∀ path, planPath scope.wiki scope.snapshot = .ok path →
    contentAt s.tree path = contentAt initial path
  validates : s.durable = true → scope.policy.historyInput = .purgeAfterReady →
    ∃ receipt, validatePurgedSnapshot sha256 s.tree s.receipt scope.wiki
      scope.snapshot = .ok receipt
  /-- An authorized call under a policy that purges anything goes on to write. -/
  begins : scope.policy.validate = .ok () → scope.policy.purgesAnyInput = true →
    ∀ authorization now, scope.Authorizes sha256 s.tree authorization →
      (s.called authorization now).phase ≠ .idle
  completes : s.phase ≠ .idle → Completes initial s

/-- The patrol source is kept, or there is nothing in the directory of the wiki but generations
of the snapshot. -/
def PatrolIsOwn (scope : Scope) (initial : Tree) : Prop :=
  scope.policy.patrolSource = .purgeAfterReady → ∀ entry ∈ initial, ∀ rest,
    entry.1 = "patrol" :: scope.wiki :: rest →
      rest = [] ∨ rest = ["generations"] ∨
        ∃ name below, rest = "generations" :: name :: below ∧ snapshotOf name = scope.snapshot

/-- What a policy allows to remove, as `purge_paths` lists it. -/
def allowlist (scope : Scope) : List Path :=
  (if scope.policy.historyInput = .purgeAfterReady then historyPaths scope.wiki scope.snapshot
    else []) ++
  if scope.policy.patrolSource = .purgeAfterReady then [["patrol", scope.wiki]] else []

/-- What is gone from the tree was empty, and a call finds a path above it that is still there. -/
structure Recountable (scope : Scope) (initial tree : Tree) : Prop where
  bytes : totalSize tree = totalSize initial
  paths : ∀ entry ∈ initial, entry ∉ tree →
    ∃ path ∈ allowlist scope, path <+: entry.1 ∧ existsAt tree path = true

/-- A call begins while what is gone is recountable; it may be cut off anywhere. -/
def Recounts (scope : Scope) (initial : Tree) (s : State) : Event → Prop
  | .call _ _ => Recountable scope initial s.tree
  | _ => True

/-- The runs whose calls begin while what is gone is recountable. -/
def keptWithin (scope : Scope) (sha256 : List UInt8 → String) (initial : State) :
    System State Event where
  init s := s = initial
  step s e t := (purging scope sha256 initial).step s e t ∧ Recounts scope initial.tree s e

section Proof

variable {scope : Scope} {sha256 : List UInt8 → String}

/-! ## What the allowlist names -/

/-- Whose history input an entry is, read from its path. -/
def owner (path : Path) : Option String × Option String :=
  (path[1]?, if path[0]? = some "snapshots" ∨ path[0]? = some "stages" then path[2]? else path[3]?)

theorem owner_of_history {wiki snapshot : String} {path entry : Path}
    (hpath : path ∈ ["snapshots", wiki, snapshot, "source-plan.json"] :: historyPaths wiki snapshot)
    (hunder : path <+: entry) :
    owner entry = (some wiki, some snapshot) ∧ entry[0]? ≠ some "patrol" := by
  obtain ⟨rest, rfl⟩ := hunder
  unfold historyPaths at hpath
  simp only [List.mem_cons, List.not_mem_nil, or_false] at hpath
  rcases hpath with rfl | rfl | rfl | rfl | rfl | rfl | rfl | rfl <;>
    exact ⟨rfl, by simp⟩

/-- An input is below a path of its snapshot, or in the patrol directory of its wiki. -/
theorem isInput_cases {wiki snapshot : String} {path : Path}
    (h : isInput wiki snapshot path = true) :
    (owner path = (some wiki, some snapshot) ∧ path[0]? ≠ some "patrol") ∨
      ∃ rest, path = "patrol" :: wiki :: rest ∧ ofPatrol snapshot rest = true := by
  unfold isInput at h
  rcases Bool.or_eq_true _ _ ▸ h with hhistory | hpatrol
  · obtain ⟨input, hinput, hunder⟩ := List.any_eq_true.mp hhistory
    exact Or.inl (owner_of_history hinput (List.isPrefixOf_iff_prefix.mp hunder))
  · right
    split at hpatrol
    · next other rest =>
      obtain ⟨hsame, hof⟩ := Bool.and_eq_true _ _ ▸ hpatrol
      exact ⟨rest, by rw [of_decide_eq_true hsame], hof⟩
    · cases hpatrol

/-- What a call may remove. -/
def allowed (scope : Scope) (path : Path) : Prop :=
  scope.policy.historyInput = .purgeAfterReady ∧ path ∈ historyPaths scope.wiki scope.snapshot ∨
    scope.policy.patrolSource = .purgeAfterReady ∧ path = ["patrol", scope.wiki]

theorem mem_allowlist {path : Path} : path ∈ allowlist scope ↔ allowed scope path := by
  unfold allowlist allowed
  rw [List.mem_append]
  by_cases hhistory : scope.policy.historyInput = .purgeAfterReady <;>
    by_cases hpatrol : scope.policy.patrolSource = .purgeAfterReady <;>
      simp [hhistory, hpatrol]

/-- The paths of a call are those that are allowed, each of them once. -/
theorem allowed_iff_mem {paths : List Path}
    (h : purgePaths scope.wiki scope.snapshot scope.policy = .ok paths) :
    paths.Nodup ∧ ∀ path, allowed scope path ↔ path ∈ paths := by
  obtain ⟨history, hhistory, hpaths⟩ := bind_eq_ok.mp h
  cases hpaths
  refine ⟨List.nodup_dedup _, fun path => ?_⟩
  rw [List.mem_dedup, List.mem_insertionSort, ← mem_allowlist]
  have hsame : history = if scope.policy.historyInput = .purgeAfterReady
      then historyPaths scope.wiki scope.snapshot else [] := by
    unfold purgedHistory at hhistory
    by_cases hpurge : scope.policy.historyInput = .purgeAfterReady
    · rw [if_pos hpurge] at hhistory ⊢
      obtain ⟨_, -, hok⟩ := bind_eq_ok.mp hhistory
      cases hok
      rfl
    · rw [if_neg hpurge] at hhistory ⊢
      cases hhistory
      rfl
  rw [hsame]
  rfl

/-- No allowed path is below another. -/
theorem eq_of_allowed {path other : Path} (hpath : allowed scope path)
    (hother : allowed scope other)
    (hunder : path <+: other) : path = other := by
  unfold allowed historyPaths at hpath hother
  simp only [List.mem_cons, List.not_mem_nil, or_false] at hpath hother
  rcases hpath with ⟨-, hpath⟩ | ⟨-, rfl⟩
  · rcases hother with ⟨-, hother⟩ | ⟨-, rfl⟩
    · rcases hpath with rfl | rfl | rfl | rfl | rfl | rfl | rfl <;>
        rcases hother with rfl | rfl | rfl | rfl | rfl | rfl | rfl <;>
          simp_all [List.cons_prefix_cons]
    · have hlength := hunder.length_le
      rcases hpath with rfl | rfl | rfl | rfl | rfl | rfl | rfl <;> simp at hlength
  · rcases hother with ⟨-, hother⟩ | ⟨-, rfl⟩
    · rcases hother with rfl | rfl | rfl | rfl | rfl | rfl | rfl <;>
        simp [List.cons_prefix_cons] at hunder
    · rfl

/-- What is under an allowed path is no input of another snapshot. -/
theorem not_input_of_allowed {initial : Tree} (hown : PatrolIsOwn scope initial) {path : Path}
    {entry : Path × Node} (hentry : entry ∈ initial) (hallowed : allowed scope path)
    (hunder : path <+: entry.1) {wiki snapshot : String}
    (hinput : isInput wiki snapshot entry.1 = true) :
    (wiki, snapshot) = (scope.wiki, scope.snapshot) := by
  rcases hallowed with ⟨-, hhistory⟩ | ⟨hpurge, rfl⟩
  · obtain ⟨howner, hfirst⟩ := owner_of_history (List.mem_cons_of_mem _ hhistory) hunder
    rcases isInput_cases hinput with ⟨howner', -⟩ | ⟨rest, hrest, -⟩
    · have hsame := howner'.symm.trans howner
      simp only [Prod.mk.injEq, Option.some.injEq] at hsame
      exact Prod.ext hsame.1 hsame.2
    · exact absurd (by rw [hrest]; rfl) hfirst
  · obtain ⟨rest, hrest⟩ := hunder
    rcases isInput_cases hinput with ⟨-, hfirst⟩ | ⟨below, hbelow, hof⟩
    · exact absurd (by rw [← hrest]; rfl) hfirst
    · have hsame : "patrol" :: scope.wiki :: rest = "patrol" :: wiki :: below := hrest.trans hbelow
      injection hsame with _ hsame
      injection hsame with hwiki hsame
      subst hwiki hsame
      -- only a generation of the purged snapshot is there to be removed
      rcases hown hpurge entry hentry rest hbelow with rfl | rfl | ⟨name, deeper, rfl, hname⟩
      · cases hof
      · cases hof
      · have hsnapshot : snapshotOf name = snapshot := of_decide_eq_true hof
        rw [← hsnapshot, hname]

/-- The source plan is under no allowed path. -/
theorem not_plan_of_allowed {path : Path} (hallowed : allowed scope path) :
    ¬path <+: ["snapshots", scope.wiki, scope.snapshot, "source-plan.json"] := by
  rcases hallowed with ⟨-, hhistory⟩ | ⟨-, rfl⟩
  · unfold historyPaths at hhistory
    simp only [List.mem_cons, List.not_mem_nil, or_false] at hhistory
    rcases hhistory with rfl | rfl | rfl | rfl | rfl | rfl | rfl <;>
      simp [List.cons_prefix_cons]
  · simp [List.cons_prefix_cons]

/-! ## Sizes -/

theorem totalSize_filter (tree : Tree) (keep : Path × Node → Bool) :
    totalSize tree = totalSize (tree.filter keep) +
      totalSize (tree.filter fun entry => !keep entry) := by
  induction tree with
  | nil => rfl
  | cons entry rest ih =>
    have hcons : totalSize (entry :: rest) = entry.2.size + totalSize rest := List.sum_cons
    rw [hcons, ih]
    cases hkeep : keep entry with
    | true =>
      rw [List.filter_cons_of_pos hkeep, List.filter_cons_of_neg (by simp [hkeep])]
      have hcons' : totalSize (entry :: rest.filter keep)
          = entry.2.size + totalSize (rest.filter keep) := List.sum_cons
      omega
    | false =>
      rw [List.filter_cons_of_neg (by simp [hkeep]), List.filter_cons_of_pos (by simp [hkeep])]
      have hcons' : totalSize (entry :: rest.filter fun entry => !keep entry)
          = entry.2.size + totalSize (rest.filter fun entry => !keep entry) := List.sum_cons
      omega

/-- What an entry below a directory takes from the tree, it takes from the directory. -/
theorem pathBytes_unlink (tree : Tree) {root path : Path} (hunder : root <+: path) :
    totalSize tree + pathBytes (tree.filter fun entry => entry.1 ≠ path) root
      = totalSize (tree.filter fun entry => entry.1 ≠ path) + pathBytes tree root := by
  have hall := totalSize_filter tree fun entry => decide (entry.1 ≠ path)
  have hbelow := totalSize_filter (tree.filter fun entry => root.isPrefixOf entry.1)
    fun entry => decide (entry.1 ≠ path)
  -- the entry itself is below the directory
  have hgone : ((tree.filter fun entry => root.isPrefixOf entry.1).filter
      fun entry => !decide (entry.1 ≠ path)) =
        tree.filter fun entry => !decide (entry.1 ≠ path) := by
    rw [List.filter_filter]
    refine List.filter_congr fun entry _ => ?_
    by_cases heq : entry.1 = path
    · have hprefix : root.isPrefixOf entry.1 = true := List.isPrefixOf_iff_prefix.mpr (heq ▸ hunder)
      simp [heq ▸ hprefix, heq]
    · simp [heq]
  have hleft : (tree.filter fun entry => decide (entry.1 ≠ path)).filter
      (fun entry => root.isPrefixOf entry.1)
      = (tree.filter fun entry => root.isPrefixOf entry.1).filter
        fun entry => decide (entry.1 ≠ path) := List.filter_comm _ _ _
  rw [hgone] at hbelow
  unfold pathBytes
  rw [hleft]
  omega

theorem pathBytes_eq_zero {tree : Tree} {path : Path}
    (h : (tree.any fun entry => path.isPrefixOf entry.1) = false) : pathBytes tree path = 0 := by
  have hnone : (tree.filter fun entry => path.isPrefixOf entry.1) = [] := by
    rw [List.filter_eq_nil_iff]
    exact List.any_eq_false.mp h
  unfold pathBytes
  rw [hnone]
  rfl

theorem lookup_filter {tree : Tree} {path other : Path} (hne : other ≠ path) :
    (tree.filter fun entry => entry.1 ≠ path).lookup other = tree.lookup other := by
  induction tree with
  | nil => rfl
  | cons entry rest ih =>
    by_cases heq : entry.1 = path
    · rw [List.filter_cons_of_neg (by simpa using heq), ih, List.lookup_cons]
      have hbeq : (other == entry.1) = false := beq_eq_false_iff_ne.mpr (heq ▸ hne)
      rw [hbeq]
    · rw [List.filter_cons_of_pos (by simpa using heq), List.lookup_cons, List.lookup_cons, ih]

/-! ## What a step of a call does -/

/-- The states after a step of a call. -/
theorem ofCall_cases {s t : State} {e : Event} (hcall : e.ofCall = true)
    (hnext : s.step e = some t) :
    (∃ receipt paths, s.phase = .authorizing receipt paths ∧
      t = { s with
        receipt := some receipt, durable := true, phase := .removing receipt paths 0 [] }) ∨
    (∃ receipt path paths bytes removed, s.phase = .removing receipt (path :: paths) bytes removed ∧
      t = { s with
        phase := if existsAt s.tree path then
            .deleting receipt path (pathBytes s.tree path) paths bytes removed
          else .removing receipt paths bytes removed }) ∨
    (∃ receipt root size paths bytes removed path,
      s.phase = .deleting receipt root size paths bytes removed ∧ root <+: path ∧
        existsAt s.tree path = true ∧
        t = { s with tree := s.tree.filter fun entry => entry.1 ≠ path }) ∨
    (∃ receipt path size paths bytes removed,
      s.phase = .deleting receipt path size paths bytes removed ∧
        (s.tree.any fun entry => path.isPrefixOf entry.1) = false ∧
        t = { s with phase := .removing receipt paths (bytes + size) (removed ++ [path]) }) ∨
    ∃ receipt bytes removed now, s.phase = .removing receipt [] bytes removed ∧
      t = { s with
        receipt := some { receipt with
          state := .applied
          appliedAtUnix := some now
          removedBytes := bytes
          removedPaths := removed }
        phase := .done } := by
  -- One case for each step of a call; the phase says which step it can be.
  cases e with
  | call authorization now => cases hcall
  | cut => cases hcall
  | authorize =>
    left
    unfold State.step at hnext
    cases hphase : s.phase <;> simp only [hphase, reduceCtorEq, Option.some.injEq] at hnext
    exact ⟨_, _, rfl, hnext.symm⟩
  | look =>
    refine Or.inr (Or.inl ?_)
    unfold State.step at hnext
    cases hphase : s.phase with
    | removing receipt paths bytes removed =>
      cases paths with
      | nil => simp only [hphase, reduceCtorEq] at hnext
      | cons path paths =>
        simp only [hphase, Option.some.injEq] at hnext
        exact ⟨_, _, _, _, _, rfl, hnext.symm⟩
    | _ => simp only [hphase, reduceCtorEq] at hnext
  | unlink path =>
    refine Or.inr (Or.inr (Or.inl ?_))
    unfold State.step at hnext
    cases hphase : s.phase with
    | deleting receipt root size paths bytes removed =>
      simp only [hphase] at hnext
      split at hnext
      · next hcan =>
        rw [Bool.and_eq_true, Bool.and_eq_true] at hcan
        exact ⟨_, _, _, _, _, _, path, rfl, List.isPrefixOf_iff_prefix.mp hcan.1.1, hcan.1.2,
          hphase ▸ (Option.some.inj hnext).symm⟩
      · cases hnext
    | _ => simp only [hphase, reduceCtorEq] at hnext
  | removed =>
    refine Or.inr (Or.inr (Or.inr (Or.inl ?_)))
    unfold State.step at hnext
    cases hphase : s.phase with
    | deleting receipt root size paths bytes removed =>
      simp only [hphase] at hnext
      split at hnext
      · cases hnext
      · next hempty =>
        exact ⟨_, _, _, _, _, _, rfl, Bool.eq_false_iff.mpr hempty, (Option.some.inj hnext).symm⟩
    | _ => simp only [hphase, reduceCtorEq] at hnext
  | apply now =>
    refine Or.inr (Or.inr (Or.inr (Or.inr ?_)))
    unfold State.step at hnext
    cases hphase : s.phase with
    | removing receipt paths bytes removed =>
      cases paths with
      | nil =>
        simp only [hphase, Option.some.injEq] at hnext
        exact ⟨_, _, _, now, rfl, hnext.symm⟩
      | cons path paths => simp only [hphase, reduceCtorEq] at hnext
    | _ => simp only [hphase, reduceCtorEq] at hnext

/-! ## What a run keeps -/

/-- The receipt of an authorized call. -/
structure Authentic (scope : Scope) (sha256 : List UInt8 → String) (initial : Tree)
    (receipt : RetentionReceipt) : Prop where
  schemaVersion : receipt.schemaVersion = retentionReceiptSchemaVersion
  wiki : receipt.wiki = scope.wiki
  snapshot : receipt.snapshot = scope.snapshot
  ready : ∃ ready, receipt.authorizedReadySha256 = sha256 ready
  plan : ∃ path content, planPath scope.wiki scope.snapshot = .ok path ∧
    contentAt initial path = some content ∧ receipt.sourcePlanSha256 = sha256 content
  history : receipt.historyInput = scope.policy.historyInput
  located : ∃ path, receiptPath scope.wiki scope.snapshot = .ok path

/-- What a call that is under way has in hand. -/
def InHand (scope : Scope) (sha256 : List UInt8 → String) (initial : Tree) : Phase → Prop
  | .idle | .done => True
  | .authorizing receipt paths => Authentic scope sha256 initial receipt ∧ paths.Nodup ∧
      ∀ path, allowed scope path ↔ path ∈ paths
  | .removing receipt paths _ _ => Authentic scope sha256 initial receipt ∧ paths.Nodup ∧
      ∀ path ∈ paths, allowed scope path
  | .deleting receipt root _ paths _ _ => Authentic scope sha256 initial receipt ∧
      (root :: paths).Nodup ∧ ∀ path ∈ root :: paths, allowed scope path

/-- What holds in every state, wherever the calls are cut off. -/
structure Kept (scope : Scope) (sha256 : List UInt8 → String) (initial : Tree) (s : State) :
    Prop where
  kept : ∀ entry ∈ initial, (∀ path, allowed scope path → ¬path <+: entry.1) → entry ∈ s.tree
  within : s.tree ⊆ initial
  content : ∀ other, (∀ path, allowed scope path → ¬path <+: other) →
    contentAt s.tree other = contentAt initial other
  receipt : s.durable = true → ∃ receipt, s.receipt = some receipt ∧
    Authentic scope sha256 initial receipt
  inHand : InHand scope sha256 initial s.phase

theorem plan_of_planPath {path : Path} (h : planPath scope.wiki scope.snapshot = .ok path) :
    path = ["snapshots", scope.wiki, scope.snapshot, "source-plan.json"] := by
  obtain ⟨_, -, h⟩ := bind_eq_ok.mp h
  obtain ⟨_, -, h⟩ := bind_eq_ok.mp h
  cases h
  rfl

theorem Kept.plan {initial : Tree} {s : State} (h : Kept scope sha256 initial s) {path : Path}
    (hpath : planPath scope.wiki scope.snapshot = .ok path) :
    contentAt s.tree path = contentAt initial path :=
  h.content path fun _ habove => plan_of_planPath hpath ▸ not_plan_of_allowed habove

theorem begin_spec {tree : Tree} {authorization : RetentionAuthorization} {now : ℕ}
    {receipt : RetentionReceipt} {paths : List Path}
    (hauthorized : scope.Authorizes sha256 tree authorization)
    (h : begin authorization now = .ok (receipt, paths)) :
    Authentic scope sha256 tree receipt ∧ paths.Nodup ∧
      ∀ path, allowed scope path ↔ path ∈ paths := by
  obtain ⟨hwiki, hsnapshot, hpolicy, hready, hplan⟩ := hauthorized
  unfold begin at h
  obtain ⟨_, -, h⟩ := bind_eq_ok.mp h
  obtain ⟨_, -, h⟩ := bind_eq_ok.mp h
  obtain ⟨_, -, h⟩ := bind_eq_ok.mp h
  obtain ⟨found, hpaths, h⟩ := bind_eq_ok.mp h
  obtain ⟨located, hlocated, h⟩ := bind_eq_ok.mp h
  cases h
  rw [hwiki, hsnapshot] at hlocated
  rw [hwiki, hsnapshot, hpolicy] at hpaths
  refine ⟨⟨rfl, hwiki, hsnapshot, hready, hplan, ?_, located, hlocated⟩, allowed_iff_mem hpaths⟩
  show authorization.policy.historyInput = scope.policy.historyInput
  rw [hpolicy]

theorem Kept.idle {initial : Tree} {s : State} (h : Kept scope sha256 initial s) :
    Kept scope sha256 initial { s with phase := .idle } :=
  ⟨h.kept, h.within, h.content, h.receipt, trivial⟩

/-- A call is authorized on the source plan of the start. -/
theorem Kept.called {initial : Tree} {s : State} (h : Kept scope sha256 initial s)
    {authorization : RetentionAuthorization}
    (hauthorized : scope.Authorizes sha256 s.tree authorization) (now : ℕ) :
    Kept scope sha256 initial (s.called authorization now) := by
  unfold State.called
  cases hbegin : begin authorization now with
  | error message => exact h.idle
  | ok begun =>
    obtain ⟨hauthentic, hnodup, hpaths⟩ := begin_spec hauthorized hbegin
    obtain ⟨path, content, hpath, hcontent, hplan⟩ := hauthentic.plan
    have hsame : contentAt initial path = some content := (h.plan hpath).symm.trans hcontent
    have hauthentic' : Authentic scope sha256 initial begun.1 :=
      { hauthentic with plan := ⟨path, content, hpath, hsame, hplan⟩ }
    exact ⟨h.kept, h.within, h.content, h.receipt, hauthentic', hnodup, hpaths⟩

/-- An entry that is removed is below an allowed path. -/
theorem Kept.unlink {initial : Tree} {s : State} (h : Kept scope sha256 initial s)
    {root path : Path}
    (hroot : allowed scope root) (hunder : root <+: path) :
    Kept scope sha256 initial { s with tree := s.tree.filter fun entry => entry.1 ≠ path } := by
  refine ⟨fun entry hentry hfree => ?_, fun entry hentry =>
    h.within (List.mem_of_mem_filter hentry),
    fun other hfree => ?_, h.receipt, h.inHand⟩
  · refine List.mem_filter.mpr ⟨h.kept entry hentry hfree, decide_eq_true fun heq => ?_⟩
    exact hfree root hroot (heq ▸ hunder)
  · have hne : other ≠ path := fun heq => hfree root hroot (heq ▸ hunder)
    rw [← h.content other hfree]
    unfold contentAt
    rw [lookup_filter hne]

theorem Kept.ofCall {initial : Tree} {s t : State} {e : Event} (h : Kept scope sha256 initial s)
    (hcall : e.ofCall = true) (hnext : s.step e = some t) : Kept scope sha256 initial t := by
  have hinHand := h.inHand
  rcases ofCall_cases hcall hnext with ⟨receipt, paths, hphase, rfl⟩ |
    ⟨receipt, path, paths, bytes, removed, hphase, rfl⟩ |
    ⟨receipt, root, size, paths, bytes, removed, path, hphase, hunder, -, rfl⟩ |
    ⟨receipt, path, size, paths, bytes, removed, hphase, -, rfl⟩ |
    ⟨receipt, bytes, removed, now, hphase, rfl⟩
  all_goals rw [hphase] at hinHand
  · obtain ⟨hauthentic, hnodup, hpaths⟩ := hinHand
    exact ⟨h.kept, h.within, h.content, fun _ => ⟨receipt, rfl, hauthentic⟩, hauthentic, hnodup,
      fun path hpath => (hpaths path).mpr hpath⟩
  · obtain ⟨hauthentic, hnodup, hpaths⟩ := hinHand
    refine ⟨h.kept, h.within, h.content, h.receipt, ?_⟩
    by_cases hexists : existsAt s.tree path = true
    · rw [if_pos hexists]
      exact ⟨hauthentic, hnodup, hpaths⟩
    · rw [if_neg hexists]
      exact ⟨hauthentic, (List.nodup_cons.mp hnodup).2, fun other hother =>
        hpaths other (List.mem_cons_of_mem path hother)⟩
  · exact h.unlink (hinHand.2.2 root List.mem_cons_self) hunder
  · obtain ⟨hauthentic, hnodup, hpaths⟩ := hinHand
    exact ⟨h.kept, h.within, h.content, h.receipt, hauthentic, (List.nodup_cons.mp hnodup).2,
      fun other hother => hpaths other (List.mem_cons_of_mem path hother)⟩
  · obtain ⟨hauthentic, -, -⟩ := hinHand
    refine ⟨h.kept, h.within, h.content, fun _ => ⟨_, rfl, ?_⟩, trivial⟩
    exact ⟨hauthentic.schemaVersion, hauthentic.wiki, hauthentic.snapshot, hauthentic.ready,
      hauthentic.plan, hauthentic.history, hauthentic.located⟩

/-- What is called is one of the two phases in which a call can begin. -/
theorem called_of_step {s t : State} {authorization : RetentionAuthorization} {now : ℕ}
    (h : s.step (.call authorization now) = some t) : s.called authorization now = t := by
  unfold State.step at h
  cases hphase : s.phase <;> simp only [hphase, reduceCtorEq, Option.some.injEq] at h <;> exact h

theorem Kept.step {initial : Tree} {start s t : State} {e : Event} (h : Kept scope sha256 initial s)
    (hstep : (purging scope sha256 start).step s e t) : Kept scope sha256 initial t := by
  obtain ⟨hnext, hauthorized⟩ := hstep
  cases e with
  | call authorization now =>
    exact called_of_step hnext ▸ h.called (hauthorized authorization now rfl) now
  | cut =>
    cases hnext
    exact h.idle
  | authorize | look | unlink | removed | apply => exact h.ofCall rfl hnext

theorem Kept.start {s : State} (hidle : s.phase = .idle) (hdurable : s.durable = false) :
    Kept scope sha256 s.tree s := by
  refine ⟨fun entry hentry _ => hentry, List.Subset.refl _, fun other _ => rfl,
    fun hwritten => ?_, ?_⟩
  · rw [hdurable] at hwritten
    cases hwritten
  · rw [hidle]
    trivial

/-! ## What is counted -/

/-- What is gone is below a path the call has removed, or below one that it will still find. -/
def Traced (initial tree : Tree) (removed paths : List Path) : Prop :=
  ∀ entry ∈ initial, entry ∉ tree → ∃ path, path <+: entry.1 ∧
    (path ∈ removed ∨ path ∈ paths ∧ existsAt tree path = true)

/-- What the call has removed was there. -/
def Listed (scope : Scope) (initial : Tree) (removed : List Path) : Prop :=
  ∀ path ∈ removed, path ∈ allowlist scope ∧ existsAt initial path = true

/-- The accounts of a call that is under way, against the tree it is to account for. -/
def Account (scope : Scope) (initial : Tree) (s : State) : Prop :=
  match s.phase with
  | .idle => True
  | .authorizing _ _ => Recountable scope initial s.tree
  | .removing _ paths bytes removed => totalSize initial = totalSize s.tree + bytes ∧
      Listed scope initial removed ∧ Traced initial s.tree removed paths
  | .deleting _ root size paths bytes removed =>
      totalSize initial + pathBytes s.tree root = totalSize s.tree + bytes + size ∧
      Listed scope initial (removed ++ [root]) ∧ Traced initial s.tree (removed ++ [root]) paths
  | .done => ∃ receipt, s.receipt = some receipt ∧ Accounts initial s.tree receipt ∧
      Listed scope initial receipt.removedPaths

structure Counted (scope : Scope) (initial : Tree) (s : State) : Prop where
  within : s.tree ⊆ initial
  account : Account scope initial s

theorem existsAt_of_subset {tree initial : Tree} (hsub : tree ⊆ initial) {path : Path}
    (h : existsAt tree path = true) : existsAt initial path = true := by
  obtain ⟨entry, hentry, hat⟩ := List.any_eq_true.mp h
  exact List.any_eq_true.mpr ⟨entry, hsub hentry, hat⟩

/-- The entry that is removed is below the root, and no other allowed path goes with it. -/
theorem Traced.unlink {initial tree : Tree} {root path : Path} {removed paths : List Path}
    (h : Traced initial tree (removed ++ [root]) paths) (hunder : root <+: path)
    (hnodup : (root :: paths).Nodup) (hpaths : ∀ other ∈ root :: paths, allowed scope other) :
    Traced initial (tree.filter fun entry => entry.1 ≠ path) (removed ++ [root]) paths := by
  intro entry hentry hmissing
  by_cases hstill : entry ∈ tree
  · -- it is the entry that has just been removed
    have heq : entry.1 = path := by
      by_contra hne
      exact hmissing (List.mem_filter.mpr ⟨hstill, decide_eq_true hne⟩)
    exact ⟨root, heq ▸ hunder, Or.inl (List.mem_append_right _ (List.mem_singleton_self root))⟩
  · obtain ⟨above, habove, hfound⟩ := h entry hentry hstill
    refine ⟨above, habove, hfound.imp_right fun ⟨hmem, hexists⟩ => ⟨hmem, ?_⟩⟩
    have hne : above ≠ path := fun heq => by
      have hsame := eq_of_allowed (hpaths root List.mem_cons_self)
        (hpaths above (List.mem_cons_of_mem root hmem)) (heq ▸ hunder)
      exact (List.nodup_cons.mp hnodup).1 (hsame ▸ hmem)
    obtain ⟨found, hfound, hat⟩ := List.any_eq_true.mp hexists
    refine List.any_eq_true.mpr ⟨found, List.mem_filter.mpr ⟨hfound, decide_eq_true ?_⟩, hat⟩
    exact of_decide_eq_true hat ▸ hne

/-- A path that is found is listed; one that is not found has nothing gone below it to account
for. -/
theorem Traced.look {initial tree : Tree} {path : Path} {removed paths : List Path}
    (h : Traced initial tree removed (path :: paths)) :
    Traced initial tree (removed ++ [path]) paths ∧
      (existsAt tree path = false → Traced initial tree removed paths) := by
  refine ⟨fun entry hentry hmissing => ?_, fun habsent entry hentry hmissing => ?_⟩
  · obtain ⟨above, habove, hremoved | ⟨hmem, hstill⟩⟩ := h entry hentry hmissing
    · exact ⟨above, habove, Or.inl (List.mem_append_left _ hremoved)⟩
    · rcases List.mem_cons.mp hmem with rfl | hmem
      · exact ⟨above, habove, Or.inl (List.mem_append_right _ (List.mem_singleton_self above))⟩
      · exact ⟨above, habove, Or.inr ⟨hmem, hstill⟩⟩
  · obtain ⟨above, habove, hremoved | ⟨hmem, hstill⟩⟩ := h entry hentry hmissing
    · exact ⟨above, habove, Or.inl hremoved⟩
    · rcases List.mem_cons.mp hmem with rfl | hmem
      · rw [habsent] at hstill
        cases hstill
      · exact ⟨above, habove, Or.inr ⟨hmem, hstill⟩⟩

theorem Counted.ofCall {initial start : Tree} {s t : State} {e : Event}
    (h : Counted scope initial s)
    (hinHand : InHand scope sha256 start s.phase) (hcall : e.ofCall = true)
    (hnext : s.step e = some t) : Counted scope initial t := by
  have haccount := h.account
  unfold Account at haccount
  rcases ofCall_cases hcall hnext with ⟨receipt, paths, hphase, rfl⟩ |
    ⟨receipt, path, paths, bytes, removed, hphase, rfl⟩ |
    ⟨receipt, root, size, paths, bytes, removed, path, hphase, hunder, -, rfl⟩ |
    ⟨receipt, path, size, paths, bytes, removed, hphase, hempty, rfl⟩ |
    ⟨receipt, bytes, removed, now, hphase, rfl⟩
  all_goals
    rw [hphase] at hinHand
    simp only [hphase] at haccount
  · obtain ⟨-, -, hpaths⟩ := hinHand
    refine ⟨h.within, ?_, fun path hpath => absurd hpath List.not_mem_nil,
      fun entry hentry hmissing => ?_⟩
    · show totalSize initial = totalSize s.tree + 0
      rw [haccount.bytes, Nat.add_zero]
    · obtain ⟨path, hmem, hunder, hexists⟩ := haccount.paths entry hentry hmissing
      exact ⟨path, hunder, Or.inr ⟨(hpaths path).mp (mem_allowlist.mp hmem), hexists⟩⟩
  · obtain ⟨hsizes, hlisted, htraced⟩ := haccount
    obtain ⟨hfound, habsent⟩ := htraced.look
    refine ⟨h.within, ?_⟩
    by_cases hexists : existsAt s.tree path = true
    · simp only [Account, if_pos hexists]
      refine ⟨by omega, fun other hother => ?_, hfound⟩
      rcases List.mem_append.mp hother with hother | hother
      · exact hlisted other hother
      · rw [List.mem_singleton.mp hother]
        exact ⟨mem_allowlist.mpr (hinHand.2.2 path List.mem_cons_self),
          existsAt_of_subset h.within hexists⟩
    · simp only [Account, if_neg hexists]
      exact ⟨hsizes, hlisted, habsent (Bool.eq_false_iff.mpr hexists)⟩
  · obtain ⟨hsizes, hlisted, htraced⟩ := haccount
    obtain ⟨-, hnodup, hpaths⟩ := hinHand
    have hstep := pathBytes_unlink s.tree hunder
    refine ⟨fun entry hentry => h.within (List.mem_of_mem_filter hentry), ?_⟩
    simp only [Account, hphase]
    exact ⟨by omega, hlisted, htraced.unlink hunder hnodup hpaths⟩
  · obtain ⟨hsizes, hlisted, htraced⟩ := haccount
    have hzero := pathBytes_eq_zero hempty
    refine ⟨h.within, ?_, hlisted, htraced⟩
    show totalSize initial = totalSize s.tree + (bytes + size)
    omega
  · obtain ⟨hsizes, hlisted, htraced⟩ := haccount
    refine ⟨h.within, _, rfl, ⟨rfl, hsizes, fun entry hentry hmissing => ?_⟩, hlisted⟩
    -- no path is left that it might still find
    obtain ⟨path, hpath, hremoved | ⟨hmem, -⟩⟩ := htraced entry hentry hmissing
    · exact ⟨path, hremoved, hpath⟩
    · exact absurd hmem List.not_mem_nil

theorem Counted.called {initial : Tree} {s : State} (hsub : s.tree ⊆ initial)
    (hrecount : Recountable scope initial s.tree)
    (authorization : RetentionAuthorization) (now : ℕ) :
    Counted scope initial (s.called authorization now) := by
  unfold State.called
  cases hbegin : begin authorization now with
  | error message => exact ⟨hsub, trivial⟩
  | ok begun => exact ⟨hsub, hrecount⟩

/-- What a step keeps, as long as a call begins on what it can recount. -/
theorem Counted.step {initial : Tree} {start s t : State} {e : Event} (h : Counted scope initial s)
    (hkept : Kept scope sha256 initial s) (hstep : (purging scope sha256 start).step s e t)
    (hrecounts : Recounts scope initial s e) : Counted scope initial t := by
  obtain ⟨hnext, -⟩ := hstep
  cases e with
  | call authorization now =>
    exact called_of_step hnext ▸ Counted.called h.within hrecounts authorization now
  | cut =>
    cases hnext
    exact ⟨h.within, trivial⟩
  | authorize | look | unlink | removed | apply => exact h.ofCall hkept.inHand rfl hnext

/-! ## A call comes to an end -/

theorem length_unlink_lt {tree : Tree} {path : Path} (h : existsAt tree path = true) :
    (tree.filter fun entry => entry.1 ≠ path).length < tree.length := by
  obtain ⟨entry, hentry, hat⟩ := List.any_eq_true.mp h
  refine List.length_filter_lt_length_iff_exists.mpr ⟨entry, hentry, ?_⟩
  simpa using hat

/-- Each step of a call does some of the work that is left. -/
theorem left_lt_of_step {s t : State} {e : Event} (hstep : working.step s e t) :
    t.left < s.left := by
  obtain ⟨hcall, hnext⟩ := hstep
  rcases ofCall_cases hcall hnext with ⟨receipt, paths, hphase, rfl⟩ |
    ⟨receipt, path, paths, bytes, removed, hphase, rfl⟩ |
    ⟨receipt, root, size, paths, bytes, removed, path, hphase, -, hexists, rfl⟩ |
    ⟨receipt, path, size, paths, bytes, removed, hphase, -, rfl⟩ |
    ⟨receipt, bytes, removed, now, hphase, rfl⟩
  · simp only [State.left, hphase]
    omega
  · by_cases hexists : existsAt s.tree path = true
    · simp only [State.left, hphase, if_pos hexists, List.length_cons]
      omega
    · simp only [State.left, hphase, if_neg hexists, List.length_cons]
      omega
  · have hless := length_unlink_lt hexists
    simp only [State.left, hphase]
    omega
  · simp only [State.left, hphase]
    omega
  · simp only [State.left, hphase]
    omega

/-- Where there is something below a path, there is something below it with nothing further
below. -/
theorem exists_leaf {tree : Tree} {root : Path}
    (h : (tree.any fun entry => root.isPrefixOf entry.1) = true) :
    ∃ path, root.isPrefixOf path = true ∧ existsAt tree path = true ∧
      (tree.all fun entry => !path.isPrefixOf entry.1 || entry.1 = path) = true := by
  obtain ⟨first, hfirst, hunder⟩ := List.any_eq_true.mp h
  -- the longest path there is
  obtain ⟨last, hlast, hmax⟩ :=
    (tree.filter fun entry => root.isPrefixOf entry.1).toFinset.exists_max_image
    (fun entry => entry.1.length)
      ⟨first, List.mem_toFinset.mpr (List.mem_filter.mpr ⟨hfirst, hunder⟩)⟩
  obtain ⟨hmem, hbelow⟩ := List.mem_filter.mp (List.mem_toFinset.mp hlast)
  refine ⟨last.1, hbelow, List.any_eq_true.mpr ⟨last, hmem, decide_eq_true rfl⟩,
    List.all_eq_true.mpr fun entry hentry => ?_⟩
  by_cases hdeeper : last.1 <+: entry.1
  · have hroot : root.isPrefixOf entry.1 = true :=
      List.isPrefixOf_iff_prefix.mpr ((List.isPrefixOf_iff_prefix.mp hbelow).trans hdeeper)
    have hlength := hmax entry (List.mem_toFinset.mpr (List.mem_filter.mpr ⟨hentry, hroot⟩))
    have hsame : last.1 = entry.1 :=
      hdeeper.eq_of_length (Nat.le_antisymm hdeeper.length_le hlength)
    rw [hsame, decide_eq_true rfl, Bool.or_true]
  · rw [Bool.eq_false_iff.mpr fun hprefix => hdeeper (List.isPrefixOf_iff_prefix.mp hprefix)]
    rfl

/-- A call that is under way can go on. -/
theorem exists_step {s : State} (hidle : s.phase ≠ .idle) (hdone : s.phase ≠ .done) :
    ∃ e t, working.step s e t := by
  -- In every phase of a call there is a next step that does not cut it off.
  cases hphase : s.phase with
  | idle => exact absurd hphase hidle
  | done => exact absurd hphase hdone
  | authorizing receipt paths =>
    refine ⟨.authorize,
      { s with receipt := some receipt, durable := true, phase := .removing receipt paths 0 [] },
        rfl, ?_⟩
    unfold State.step
    simp only [hphase]
  | removing receipt paths bytes removed =>
    cases paths with
    | nil =>
      refine ⟨.apply 0, { s with
        receipt := some { receipt with
          state := .applied
          appliedAtUnix := some 0
          removedBytes := bytes
          removedPaths := removed }
        phase := .done }, rfl, ?_⟩
      unfold State.step
      simp only [hphase]
    | cons path paths =>
      refine ⟨.look, { s with
        phase := if existsAt s.tree path then
            .deleting receipt path (pathBytes s.tree path) paths bytes removed
          else .removing receipt paths bytes removed }, rfl, ?_⟩
      unfold State.step
      simp only [hphase]
  | deleting receipt root size paths bytes removed =>
    cases hany : s.tree.any fun entry => root.isPrefixOf entry.1 with
    | false =>
      refine ⟨.removed,
        { s with phase := .removing receipt paths (bytes + size) (removed ++ [root]) },
        rfl, ?_⟩
      unfold State.step
      simp only [hphase, hany]
      rfl
    | true =>
      obtain ⟨path, hunder, hexists, hleaf⟩ := exists_leaf hany
      refine ⟨.unlink path, { s with tree := s.tree.filter fun entry => entry.1 ≠ path }, rfl, ?_⟩
      unfold State.step
      simp only [hphase, hunder, hexists, hleaf, Bool.and_self, if_true]

theorem phase_ne_idle_of_step {s t : State} {e : Event} (hstep : working.step s e t) :
    t.phase ≠ .idle := by
  obtain ⟨hcall, hnext⟩ := hstep
  rcases ofCall_cases hcall hnext with ⟨receipt, paths, hphase, rfl⟩ |
    ⟨receipt, path, paths, bytes, removed, hphase, rfl⟩ |
    ⟨receipt, root, size, paths, bytes, removed, path, hphase, -, hexists, rfl⟩ |
    ⟨receipt, path, size, paths, bytes, removed, hphase, -, rfl⟩ |
    ⟨receipt, bytes, removed, now, hphase, rfl⟩
  · exact Phase.noConfusion
  · intro hidle
    by_cases hexists : existsAt s.tree path = true
    · simp only [if_pos hexists, reduceCtorEq] at hidle
    · simp only [if_neg hexists, reduceCtorEq] at hidle
  · show s.phase ≠ .idle
    rw [hphase]
    exact Phase.noConfusion
  · exact Phase.noConfusion
  · exact Phase.noConfusion

/-- A call that is left to run: it is over where it can go no further. -/
theorem working_run {s t : State} {labels : List Event} (hrun : working.Run s labels t)
    (hunder : s.phase ≠ .idle) : labels.length ≤ s.left ∧
      ((∀ e u, ¬working.step t e u) → t.phase = .done) := by
  have hlength := hrun.length_add_le State.left fun _ _ _ hstep => left_lt_of_step hstep
  refine ⟨by omega, fun hstuck => ?_⟩
  have hstep : ∀ u e v, u.phase ≠ .idle → working.step u e v → v.phase ≠ .idle :=
    fun _ _ _ _ hnext => phase_ne_idle_of_step hnext
  have hidle : t.phase ≠ .idle := hrun.preserves hstep hunder
  by_contra hne
  obtain ⟨e, u, hstep⟩ := exists_step hidle hne
  exact hstuck e u hstep

theorem Counted.ofRun {initial : Tree} {s t : State} {labels : List Event}
    (h : Counted scope initial s) {start : Tree} (hkept : Kept scope sha256 start s)
    (hrun : working.Run s labels t) : Counted scope initial t := by
  have hstep : ∀ u e v, Counted scope initial u ∧ Kept scope sha256 start u → working.step u e v →
      Counted scope initial v ∧ Kept scope sha256 start v := fun u e v hu hnext =>
    ⟨hu.1.ofCall hu.2.inHand hnext.1 hnext.2, hu.2.ofCall hnext.1 hnext.2⟩
  exact (hrun.preserves hstep ⟨h, hkept⟩).1

theorem Counted.accounts {initial : Tree} {s : State} (h : Counted scope initial s)
    (hdone : s.phase = .done) : ∃ receipt, s.receipt = some receipt ∧
      Accounts initial s.tree receipt ∧ Listed scope initial receipt.removedPaths := by
  have haccount := h.account
  unfold Account at haccount
  simp only [hdone] at haccount
  exact haccount

theorem Counted.completes {initial : Tree} {s : State} (h : Counted scope initial s)
    (hkept : Kept scope sha256 initial s) (hunder : s.phase ≠ .idle) : Completes initial s := by
  intro labels t hrun
  obtain ⟨hlength, hends⟩ := working_run hrun hunder
  refine ⟨hlength, fun hstuck => ?_⟩
  have hdone := hends hstuck
  obtain ⟨receipt, hreceipt, haccounts, -⟩ := (h.ofRun hkept hrun).accounts hdone
  exact ⟨hdone, receipt, hreceipt, haccounts⟩

/-! ## What is promised -/

theorem Authentic.validates {initial tree : Tree} {receipt : RetentionReceipt}
    (h : Authentic scope sha256 initial receipt)
    (hlength : ∀ content, (sha256 content).length = 64)
    (hkept : ∀ path, planPath scope.wiki scope.snapshot = .ok path →
      contentAt tree path = contentAt initial path)
    (hstate : receipt.state = .authorized ∨ receipt.state = .applied)
    (hpurge : scope.policy.historyInput = .purgeAfterReady) :
    validatePurgedSnapshot sha256 tree (some receipt) scope.wiki scope.snapshot = .ok receipt := by
  obtain ⟨located, hlocated⟩ := h.located
  obtain ⟨ready, hready⟩ := h.ready
  obtain ⟨path, content, hpath, hcontent, hsource⟩ := h.plan
  unfold validatePurgedSnapshot
  refine bind_eq_ok.mpr ⟨located, hlocated, bind_eq_ok.mpr ⟨receipt, rfl, ?_⟩⟩
  refine bind_eq_ok.mpr ⟨(),
    ensure_eq_ok.mpr ⟨h.schemaVersion, h.wiki, h.snapshot, hstate, ?_, ?_⟩, ?_⟩
  · rw [hready, hlength]
  · rw [hsource, hlength]
  refine bind_eq_ok.mpr ⟨(), ensure_eq_ok.mpr (h.history.trans hpurge), ?_⟩
  refine bind_eq_ok.mpr ⟨path, hpath, bind_eq_ok.mpr ⟨content, ?_, ?_⟩⟩
  · exact context_eq_ok.mpr ((hkept path hpath).trans hcontent)
  · exact bind_eq_ok.mpr ⟨(), ensure_eq_ok.mpr hsource.symm, rfl⟩

/-- A policy that is valid and purges anything lets an authorized call begin. -/
theorem called_ne_idle {s : State} {authorization : RetentionAuthorization} {now : ℕ}
    (hauthorized : scope.Authorizes sha256 s.tree authorization)
    (hvalid : scope.policy.validate = .ok ()) (hpurges : scope.policy.purgesAnyInput = true) :
    (s.called authorization now).phase ≠ .idle := by
  obtain ⟨hwiki, hsnapshot, hpolicy, -, path, content, hplan, -⟩ := hauthorized
  obtain ⟨_, hname, hplan⟩ := bind_eq_ok.mp hplan
  obtain ⟨_, hversion, -⟩ := bind_eq_ok.mp hplan
  have hredownloadable : scope.policy.sourceRecoverability = .redownloadable := by
    cases hsource : scope.policy.sourceRecoverability with
    | redownloadable => rfl
    | irreplaceable =>
      obtain ⟨_, -, hkeeps⟩ := bind_eq_ok.mp hvalid
      rw [if_pos hsource] at hkeeps
      obtain ⟨hhistory, hpatrol⟩ := ensure_eq_ok.mp hkeeps
      unfold RetentionPolicy.purgesAnyInput at hpurges
      rw [hhistory, hpatrol] at hpurges
      cases hpurges
  have hlist : ∃ history, purgedHistory scope.wiki scope.snapshot scope.policy = .ok history := by
    unfold purgedHistory
    by_cases hpurge : scope.policy.historyInput = .purgeAfterReady
    · rw [if_pos hpurge]
      exact ⟨_, bind_eq_ok.mpr ⟨(), hversion, rfl⟩⟩
    · rw [if_neg hpurge]
      exact ⟨_, rfl⟩
  obtain ⟨history, hhistory⟩ := hlist
  have hbegin : ∃ begun, begin authorization now = .ok begun := by
    unfold begin
    rw [hwiki, hsnapshot, hpolicy]
    refine ⟨_, bind_eq_ok.mpr ⟨(), hvalid, bind_eq_ok.mpr ⟨(), ensure_eq_ok.mpr hredownloadable,
      bind_eq_ok.mpr ⟨(), ensure_eq_ok.mpr hpurges, bind_eq_ok.mpr ⟨_, bind_eq_ok.mpr ⟨history,
        hhistory, rfl⟩, bind_eq_ok.mpr ⟨_, bind_eq_ok.mpr ⟨(), hversion, bind_eq_ok.mpr ⟨(),
          ensure_eq_ok.mpr (ensure_eq_ok.mp hname).1, rfl⟩⟩, rfl⟩⟩⟩⟩⟩⟩
  obtain ⟨begun, hbegin⟩ := hbegin
  unfold State.called
  rw [hbegin]
  exact Phase.noConfusion

theorem Kept.promised {initial : Tree} {s : State} (h : Kept scope sha256 initial s)
    (hcounted : Counted scope initial s) (hlength : ∀ content, (sha256 content).length = 64)
    (hown : PatrolIsOwn scope initial) : Promised scope sha256 initial s := by
  refine ⟨fun wiki snapshot hother entry hentry hinput => ?_, fun path hpath => h.plan hpath,
    fun hwritten hpurge => ?_, fun hvalid hpurges authorization now hauthorized => ?_,
    hcounted.completes h⟩
  · exact h.kept entry hentry fun path hallowed hunder =>
      hother (not_input_of_allowed hown hentry hallowed hunder hinput)
  · obtain ⟨receipt, hreceipt, hauthentic⟩ := h.receipt hwritten
    have hstate : receipt.state = .authorized ∨ receipt.state = .applied := by
      cases receipt.state with
      | authorized => exact Or.inl rfl
      | applied => exact Or.inr rfl
    exact ⟨receipt, hreceipt ▸ hauthentic.validates hlength (fun path hpath => h.plan hpath)
      hstate hpurge⟩
  · exact called_ne_idle hauthorized hvalid hpurges

theorem Promised.accounts {initial : Tree} {s : State} (h : Promised scope sha256 initial s)
    (hdone : s.phase = .done) :
    ∃ receipt, s.receipt = some receipt ∧ Accounts initial s.tree receipt := by
  have hover : ∀ e u, ¬working.step s e u := fun e u hstep => by
    have hless := left_lt_of_step hstep
    simp only [State.left, hdone] at hless
    omega
  exact ((h.completes (by rw [hdone]; exact Phase.noConfusion) [] s (.nil s)).2 hover).2

end Proof

/-- **Confined, resumable and accounted for**, in every state of a run that keeps the patrol
source or finds nothing but this snapshot's generations in it, and whose calls begin on a tree
that has lost nothing they cannot recount; they may be cut off anywhere. -/
theorem purge_promised (scope : Scope) (sha256 : List UInt8 → String) (initial s : State)
    (labels : List Event) (hlength : ∀ content, (sha256 content).length = 64)
    (hidle : initial.phase = .idle) (hdurable : initial.durable = false)
    (hown : PatrolIsOwn scope initial.tree)
    (hrun : (keptWithin scope sha256 initial).Run initial labels s) :
    Promised scope sha256 initial.tree s := by
  have hstep : ∀ t e u, Kept scope sha256 initial.tree t ∧ Counted scope initial.tree t →
      (keptWithin scope sha256 initial).step t e u →
        Kept scope sha256 initial.tree u ∧ Counted scope initial.tree u := fun t e u ht hnext =>
    ⟨ht.1.step hnext.1, ht.2.step ht.1 hnext.1 hnext.2⟩
  obtain ⟨hkept, hcounted⟩ := hrun.preserves hstep
    ⟨Kept.start hidle hdurable, List.Subset.refl _, by simp only [Account, hidle]⟩
  exact hkept.promised hcounted hlength hown

/-- **The accounts are right only then**: whatever the calls before it were cut off at, the
receipt of a call that is left to run accounts for everything since the start exactly if what
was gone when it began is recountable. -/
theorem accounts_iff_recountable (scope : Scope) (sha256 : List UInt8 → String)
    (initial s t : State)
    (before labels : List Event) (authorization : RetentionAuthorization) (now : ℕ)
    (hidle : initial.phase = .idle) (hdurable : initial.durable = false)
    (hrun : (purging scope sha256 initial).Run initial before s)
    (hauthorized : scope.Authorizes sha256 s.tree authorization)
    (hcall : working.Run (s.called authorization now) labels t) (hdone : t.phase = .done) :
    (∃ receipt, t.receipt = some receipt ∧ Accounts initial.tree t.tree receipt) ↔
      Recountable scope initial.tree s.tree := by
  have hkept : Kept scope sha256 initial.tree s :=
    hrun.preserves (fun _ _ _ ht hstep => ht.step hstep) (Kept.start hidle hdurable)
  have hcalled := hkept.called hauthorized now
  constructor
  · rintro ⟨receipt, hreceipt, haccounts⟩
    -- the call accounts for what has gone since it began, and for nothing else
    have hself : Recountable scope s.tree s.tree :=
      ⟨rfl, fun entry hentry hmissing => absurd hentry hmissing⟩
    have hcounted : Counted scope s.tree t :=
      (Counted.called (List.Subset.refl _) hself authorization now).ofRun hcalled hcall
    obtain ⟨receipt', hreceipt', hown, hlisted⟩ := hcounted.accounts hdone
    obtain rfl := Option.some.inj (hreceipt.symm.trans hreceipt')
    refine ⟨?_, fun entry hentry hmissing => ?_⟩
    · have hall := haccounts.bytes
      have hcall := hown.bytes
      omega
    · obtain ⟨path, hpath, hunder⟩ := haccounts.paths entry hentry fun hstill =>
        hmissing (hcounted.within hstill)
      obtain ⟨hmem, hexists⟩ := hlisted path hpath
      exact ⟨path, hmem, hunder, hexists⟩
  · intro hrecount
    obtain ⟨receipt, hreceipt, haccounts, -⟩ :=
      ((Counted.called hkept.within hrecount authorization now).ofRun hcalled hcall).accounts hdone
    exact ⟨receipt, hreceipt, haccounts⟩

/-! ## Two runs for one snapshot -/

def twoFiles : Tree := [
  (["metric-input", "testwiki", "_snapshots", "2026-08"], .dir),
  (["metric-input", "testwiki", "_snapshots", "2026-08", "part.parquet"], .file [80, 65, 82, 49]),
  (["snapshots", "testwiki", "2026-08", "source-plan.json"], .file [112, 108, 97, 110]),
  (["patrol", "testwiki"], .dir),
  (["patrol", "testwiki", "generations"], .dir),
  (["patrol", "testwiki", "generations", "2026-09"], .dir),
  (["patrol", "testwiki", "generations", "2026-09", "manifest.json"], .file [123, 125])]

/-- The hashes of the two files that are hashed. -/
def sha256OfTwo (content : List UInt8) : String :=
  if content = [112, 108, 97, 110] then
    "64879f7d6b960a01909762d911a32d4582c20010c5641ee90278b644a9e3b525"
  else "44136fa355b3678a1146ad16f7e8649e94fb4fc21fe77e8310c060f61caaff8a"

theorem length_sha256OfTwo (content : List UInt8) : (sha256OfTwo content).length = 64 := by
  unfold sha256OfTwo
  split <;> decide +kernel

def august (historyInput patrolSource : InputRetention) : Scope where
  wiki := "testwiki"
  snapshot := "2026-08"
  policy := ⟨.redownloadable, historyInput, patrolSource, 1⟩

/-- What is returned for a ready candidate that is an empty object. -/
def Scope.authorization (scope : Scope) : RetentionAuthorization where
  wiki := scope.wiki
  snapshot := scope.snapshot
  readySha256 := sha256OfTwo [123, 125]
  sourcePlanSha256 := sha256OfTwo [112, 108, 97, 110]
  policy := scope.policy

def atStart (tree : Tree) : State := ⟨tree, none, false, .idle⟩

/-- The steps of a call, from the authorization on to the removal of the first path there is. -/
def removing (authorization : RetentionAuthorization) (absent : ℕ) (entries : List Path) :
    List Event :=
  [.call authorization 1, .authorize] ++ List.replicate (absent + 1) .look ++
    entries.map Event.unlink ++ [.removed]

/-- A step whose call has this authorization, with the source plan in place. -/
def stepUnder (authorization : RetentionAuthorization) (s : State) (e : Event) : Option State :=
  match e with
  | .call other now =>
    if other = authorization ∧
        contentAt s.tree ["snapshots", "testwiki", "2026-08", "source-plan.json"]
          = some [112, 108, 97, 110]
    then s.step (.call other now) else none
  | e => s.step e

theorem purging_of_stepUnder {historyInput patrolSource : InputRetention}
    {start s t : State} {e : Event}
    (h : stepUnder (august historyInput patrolSource).authorization s e = some t) :
    (purging (august historyInput patrolSource) sha256OfTwo start).step s e t := by
  cases e with
  | call other now =>
    obtain ⟨⟨rfl, hcontent⟩, hnext⟩ := Option.ite_none_right_eq_some.mp h
    refine ⟨hnext, fun authorization later hsame => ?_⟩
    cases hsame
    have hpath : planPath "testwiki" "2026-08"
        = .ok ["snapshots", "testwiki", "2026-08", "source-plan.json"] := by decide +kernel
    exact ⟨rfl, rfl, rfl, ⟨[123, 125], rfl⟩, _, _, hpath, hcontent, rfl⟩
  | _ => exact ⟨h, fun authorization later hsame => by cases hsame⟩

/-- One call, which purges the patrol source only. -/
def patrolOnly : List Event :=
  removing (august .retain .purgeAfterReady).authorization 0 [
    ["patrol", "testwiki", "generations", "2026-09", "manifest.json"],
    ["patrol", "testwiki", "generations", "2026-09"], ["patrol", "testwiki", "generations"],
    ["patrol", "testwiki"]] ++ [.apply 2]

/-- A call that is cut off after the first path, and one that finds nothing left to remove. -/
def cutAfterOne : List Event :=
  removing (august .purgeAfterReady .retain).authorization 0 [
    ["metric-input", "testwiki", "_snapshots", "2026-08", "part.parquet"],
    ["metric-input", "testwiki", "_snapshots", "2026-08"]] ++
  [.cut, .call (august .purgeAfterReady .retain).authorization 3, .authorize] ++
  List.replicate 7 .look ++ [.apply 4]

/-- The patrol generation of a newer snapshot goes with the directory of the wiki; and the
receipt of the call that is not cut off says nothing of what the other has removed. -/
theorem purge_overreaches :
    (∃ s, (purging (august .retain .purgeAfterReady) sha256OfTwo (atStart twoFiles)).Run
        (atStart twoFiles) patrolOnly s ∧
      ¬Promised (august .retain .purgeAfterReady) sha256OfTwo twoFiles s) ∧
    ∃ s, (purging (august .purgeAfterReady .retain) sha256OfTwo (atStart twoFiles)).Run
        (atStart twoFiles) cutAfterOne s ∧
      ¬Promised (august .purgeAfterReady .retain) sha256OfTwo twoFiles s := by
  refine ⟨?_, ?_⟩
  · have hends : (patrolOnly.foldlM (stepUnder (august .retain .purgeAfterReady).authorization)
        (atStart twoFiles)).any (fun s => (["patrol", "testwiki", "generations", "2026-09",
          "manifest.json"], Node.file [123, 125]) ∉ s.tree) = true := by decide +kernel
    obtain ⟨s, hs, hgone⟩ := (Option.any_eq_true _ _).mp hends
    refine ⟨s, System.run_of_foldlM (fun _ _ _ h => purging_of_stepUnder h) hs, fun h => ?_⟩
    exact of_decide_eq_true hgone (h.confined "testwiki" "2026-09" (by decide) _ (by decide)
      (by decide +kernel))
  · have hends : (cutAfterOne.foldlM (stepUnder (august .purgeAfterReady .retain).authorization)
        (atStart twoFiles)).any (fun s => s.phase = .done ∧ totalSize s.tree = 6 ∧
          s.receipt.map RetentionReceipt.removedBytes = some 0) = true := by decide +kernel
    obtain ⟨s, hs, hfacts⟩ := (Option.any_eq_true _ _).mp hends
    obtain ⟨hdone, hleft, hbytes⟩ := of_decide_eq_true hfacts
    refine ⟨s, System.run_of_foldlM (fun _ _ _ h => purging_of_stepUnder h) hs, fun h => ?_⟩
    obtain ⟨receipt, hreceipt, haccounts⟩ := h.accounts hdone
    have hall : totalSize twoFiles = 10 := by decide
    have hzero : receipt.removedBytes = 0 := by
      rw [hreceipt] at hbytes
      exact Option.some.inj hbytes
    have hsum := haccounts.bytes
    omega

/-! ## A run that is cut off twice and keeps what is promised -/

/-- The inputs of the snapshot, its patrol generation, and the inputs of the next one. -/
def ownGeneration : Tree := [
  (["metric-input", "testwiki", "_snapshots", "2026-08"], .dir),
  (["metric-input", "testwiki", "_snapshots", "2026-08", ".tmp"], .dir),
  (["metric-input", "testwiki", "_snapshots", "2026-08", "part.parquet"], .file [80, 65, 82, 49]),
  (["metric-input", "testwiki", "_snapshots", "2026-09", "part.parquet"], .file [80, 65, 82]),
  (["snapshots", "testwiki", "2026-08", "source-plan.json"], .file [112, 108, 97, 110]),
  (["patrol", "testwiki"], .dir),
  (["patrol", "testwiki", "generations"], .dir),
  (["patrol", "testwiki", "generations", "2026-08"], .dir),
  (["patrol", "testwiki", "generations", "2026-08", "manifest.json"], .file [123, 125])]

instance instDecidableRecountable (scope : Scope) (initial tree : Tree) :
    Decidable (Recountable scope initial tree) :=
  decidable_of_iff (totalSize tree = totalSize initial ∧ ∀ entry ∈ initial, entry ∉ tree →
      ∃ path ∈ allowlist scope, path <+: entry.1 ∧ existsAt tree path = true)
    ⟨fun h => ⟨h.1, h.2⟩, fun h => ⟨h.bytes, h.paths⟩⟩

instance instDecidableRecounts (scope : Scope) (initial : Tree) (s : State) : (e : Event) →
    Decidable (Recounts scope initial s e)
  | .call _ _ => inferInstanceAs (Decidable (Recountable scope initial s.tree))
  | .authorize | .look | .unlink _ | .removed | .apply _ | .cut => inferInstanceAs (Decidable True)

theorem keptWithin_of_stepUnder {historyInput patrolSource : InputRetention} {tree : Tree}
    {s t : State} {e : Event}
    (h : (if Recounts (august historyInput patrolSource) tree s e then
        stepUnder (august historyInput patrolSource).authorization s e else none) = some t) :
    (keptWithin (august historyInput patrolSource) sha256OfTwo (atStart tree)).step s e t := by
  obtain ⟨hrecounts, hnext⟩ := Option.ite_none_right_eq_some.mp h
  exact ⟨purging_of_stepUnder hnext, hrecounts⟩

/-- A call that is cut off once it has written the authorization, one that is cut off once it has
removed an empty directory, and one that is left to run. -/
def cutTwice : List Event :=
  let authorization := (august .purgeAfterReady .purgeAfterReady).authorization
  [.call authorization 1, .authorize, .cut,
    .call authorization 2, .authorize, .look,
    .unlink ["metric-input", "testwiki", "_snapshots", "2026-08", ".tmp"], .cut] ++
  removing authorization 0 [
    ["metric-input", "testwiki", "_snapshots", "2026-08", "part.parquet"],
    ["metric-input", "testwiki", "_snapshots", "2026-08"]] ++
  [.look, .look,
    .unlink ["patrol", "testwiki", "generations", "2026-08", "manifest.json"],
    .unlink ["patrol", "testwiki", "generations", "2026-08"],
    .unlink ["patrol", "testwiki", "generations"], .unlink ["patrol", "testwiki"], .removed] ++
  List.replicate 5 .look ++ [.apply 4]

theorem patrolIsOwn_ownGeneration (historyInput patrolSource : InputRetention) :
    PatrolIsOwn (august historyInput patrolSource) ownGeneration := by
  intro _ entry hentry rest hrest
  unfold ownGeneration at hentry
  simp only [List.mem_cons, List.not_mem_nil, or_false] at hentry
  rcases hentry with rfl | rfl | rfl | rfl | rfl | rfl | rfl | rfl | rfl <;>
    simp only [List.cons.injEq, String.reduceEq, false_and] at hrest <;> obtain ⟨-, -, rfl⟩ := hrest
  · exact Or.inl rfl
  · exact Or.inr (Or.inl rfl)
  · exact Or.inr (Or.inr ⟨"2026-08", [], rfl, rfl⟩)
  · exact Or.inr (Or.inr ⟨"2026-08", ["manifest.json"], rfl, rfl⟩)

theorem purge_promised_cutTwice :
    ∃ s, (keptWithin (august .purgeAfterReady .purgeAfterReady) sha256OfTwo
        (atStart ownGeneration)).Run (atStart ownGeneration) cutTwice s ∧
      s.phase = .done ∧ s.receipt.map RetentionReceipt.removedBytes = some 6 ∧
      Promised (august .purgeAfterReady .purgeAfterReady) sha256OfTwo ownGeneration s := by
  have hends : (cutTwice.foldlM (fun s e =>
      if Recounts (august .purgeAfterReady .purgeAfterReady) ownGeneration s e then
        stepUnder (august .purgeAfterReady .purgeAfterReady).authorization s e else none)
      (atStart ownGeneration)).any (fun s => s.phase = .done ∧
        s.receipt.map RetentionReceipt.removedBytes = some 6) = true := by decide +kernel
  obtain ⟨s, hs, hfacts⟩ := (Option.any_eq_true _ _).mp hends
  obtain ⟨hdone, hbytes⟩ := of_decide_eq_true hfacts
  have hrun : (keptWithin (august .purgeAfterReady .purgeAfterReady) sha256OfTwo
      (atStart ownGeneration)).Run (atStart ownGeneration) cutTwice s :=
    System.run_of_foldlM (fun _ _ _ h => keptWithin_of_stepUnder h) hs
  exact ⟨s, hrun, hdone, hbytes, purge_promised _ sha256OfTwo (atStart ownGeneration) s cutTwice
    length_sha256OfTwo rfl rfl (patrolIsOwn_ownGeneration _ _) hrun⟩

end WikiEcon.Retention
