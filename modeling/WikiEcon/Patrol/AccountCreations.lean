import WikiEcon.Compute.Frames
import WikiEcon.Fleet.Operations
import WikiEcon.Patrol.BlockState
import WikiEcon.Patrol.RightsSpool

/-!
# The account-creation report

`patrol.rs`: the account creations and block transitions of the logging dump are collected in
maps, the revision history marks the accounts that edited, and both are counted by month. Log
items and revisions come in whatever order the files have them, and hash maps are walked in any
order (`RowOrder`).

Of the statistics only those are kept that can stop the report; the files themselves, and the
fields of the report that are not its rows, are left out.
-/

namespace WikiEcon.Patrol

open Std (ExtTreeMap)
open Compute (RowOrder addCount)

/-! ## Names -/

/-- `timestamp.get(..7)`, validated. -/
def loggedMonth (timestamp message : String) : Except String String := do
  let month ← context ((takeBytes 7 timestamp.toList).map String.ofList) message
  Fleet.validateSnapshotVersion month
  return month

/-- `snapshot_contains_complete_month`. -/
def snapshotContainsCompleteMonth (snapshot month : String) : Bool := month ≤ snapshot

def normalizeAccountName (name : String) : String :=
  String.ofList ((trim name.toList).map fun c => if c = '_' then ' ' else c)

/-! ## Block transitions -/

/-- What the libraries say of the texts of a block event. -/
structure BlockTexts where
  /-- Group 1 of the named or else of the legacy duration expression. -/
  capturedDuration : String → Option String
  /-- `parse::<IpAddr>().is_ok()`. -/
  isIpAddress : String → Bool

variable (texts : BlockTexts)

def isIpBlockTarget (target : String) : Bool :=
  texts.isIpAddress (String.ofList (target.toList.takeWhile (· ≠ '/')))

def accountBlockTargetName (logTitle : String) : Option String :=
  let target := normalizeAccountName (afterColon logTitle)
  match target.toList with
  | [] => none
  | c :: _ => if c = '#' ∨ c = '~' ∨ isIpBlockTarget texts target = true then none else some target

def isIndefiniteDuration (duration : String) : Bool :=
  let duration := String.ofList ((trim duration.toList).map Char.toLower)
  duration = "infinite" || duration = "infinity" || duration = "indefinite"
    || duration = "indefinitely" || duration = "never"

def classifyBlockDuration (params : Option String) : AccountBlockState :=
  match params.map fun params => trim params.toList with
  | none => .indefinite
  | some [] => .indefinite
  | some params =>
    match texts.capturedDuration (String.ofList params) with
    | some duration => if isIndefiniteDuration duration then .indefinite else .notIndefinite
    | none =>
      if ['a', ':'].isPrefixOf params then
        -- a complete serialized row without a duration has the default
        if params.getLast? = some '}' then .indefinite else .unclassified
      else
        let legacyDuration := String.ofList (trim ((lines params).head?.getD []))
        if legacyDuration = "" || isIndefiniteDuration legacyDuration then .indefinite
        else .notIndefinite

/-- `parse_account_block_transition_common`, with the target of the transition. -/
def parseAccountBlockTransition (snapshot : String) (event : BlockEvent) :
    Except String (Option (String × AccountBlockTransition)) :=
  if event.action = "block" ∨ event.action = "reblock" ∨ event.action = "unblock" then do
    let month ← loggedMonth event.timestamp "block timestamp has no event month"
    if snapshotContainsCompleteMonth snapshot month then
      return (event.logTitle.bind (accountBlockTargetName texts)).map fun target =>
        (target, {
          timestamp := event.timestamp
          logId := event.logId.getD 0
          state := if event.action = "unblock" then .notIndefinite
            else classifyBlockDuration texts event.params })
    else return none
  else return none

/-! ## Collecting -/

/-- What the log items say; stable accounts have an id, fallback accounts the log item alone. -/
structure Collected where
  accounts : ExtTreeMap ℤ (String × Bool) := ∅
  fallbackAccounts : ExtTreeMap ℤ (String × Bool × Option String) := ∅
  accountNames : ExtTreeMap ℤ String := ∅
  blockTransitions : String → Option AccountBlockTransition := fun _ => none
  temporaryByMonth : ExtTreeMap String ℕ := ∅
  unresolvedPermanent : ℕ := 0

/-- The earliest month stands. -/
def earliestMonth (month : String) : Option (String × Bool) → String × Bool
  | none => (month, false)
  | some (existing, edited) => if month < existing then (month, edited) else (existing, edited)

/-- The first name stands. -/
def firstName (userId : ℤ) (targetUser : Option String) (names : ExtTreeMap ℤ String) :
    ExtTreeMap ℤ String :=
  match targetUser with
  | some name => names.alter userId fun existing => some (existing.getD (normalizeAccountName name))
  | none => names

def recordFallback (logId : ℤ) (month : String) (targetUser : Option String)
    (accounts : ExtTreeMap ℤ (String × Bool × Option String)) :
    Except String (ExtTreeMap ℤ (String × Bool × Option String)) :=
  match accounts[logId]? with
  | some (existingMonth, _, existingUser) => do
    ensure (existingMonth = month ∧ existingUser = targetUser)
      ("account-creation log " ++ toString logId ++ " has conflicting target identities")
    return accounts
  | none => return accounts.insert logId (month, false, targetUser)

def recordAccountCreationEvent (snapshot : String) (s : Collected) (row : AccountCreationEvent) :
    Except String Collected := do
  let month ← loggedMonth row.timestamp "newusers timestamp has no event month"
  if snapshotContainsCompleteMonth snapshot month = false then return s
  else if row.isTemporary then do
    let temporary ← addCount "temporary account month count overflow" s.temporaryByMonth month
    return { s with temporaryByMonth := temporary }
  else match row.targetUserId, row.logId with
    | some userId, _ => return { s with
        accountNames := firstName userId row.targetUser s.accountNames
        accounts := s.accounts.alter userId fun entry => some (earliestMonth month entry) }
    | none, some logId => do
      let fallback ← recordFallback logId month row.targetUser s.fallbackAccounts
      return { s with fallbackAccounts := fallback }
    | none, none => return { s with unresolvedPermanent := s.unresolvedPermanent + 1 }

def recordAccountBlockTransition (snapshot : String) (s : Collected) (event : BlockEvent) :
    Except String Collected := do
  let parsed ← parseAccountBlockTransition texts snapshot event
  match parsed with
  | none => return s
  | some (target, transition) => do
    let transitions ← updateNamedBlockTransition s.blockTransitions target transition
    return { s with blockTransitions := transitions }

def recordEvent (snapshot : String) (s : Collected) : LoggingEvent → Except String Collected
  | .accountCreation row => recordAccountCreationEvent snapshot s row
  | .block event => recordAccountBlockTransition texts snapshot s event
  | _ => return s

/-- The sources one after the other, into the same maps. -/
def collect (snapshot : String) (sources : List (List LoggingEvent)) : Except String Collected :=
  sources.foldlM (fun s events => events.foldlM (recordEvent texts snapshot) s) {}

/-! ## Matching revisions -/

/-- Who made a revision. -/
structure RevisionIdentity where
  userId : Option ℤ
  historicalName : Option String
  currentName : Option String
  deriving DecidableEq

structure Matched where
  accounts : ExtTreeMap ℤ (String × Bool)
  fallbackAccounts : ExtTreeMap ℤ (String × Bool × Option String)
  accountBlockTransitions : ℤ → Option AccountBlockTransition

def blockTransitionForName (transitions : String → Option AccountBlockTransition) (name : String) :
    Option AccountBlockTransition :=
  let trimmed := String.ofList (trim name.toList)
  (transitions trimmed).or
    (if '_' ∈ trimmed.toList then transitions (normalizeAccountName trimmed) else none)

/-- A later transition replaces the one there is. -/
def laterTransition (candidate : AccountBlockTransition)
    (existing : Option AccountBlockTransition) :
    Option AccountBlockTransition :=
  match existing with
  | none => some candidate
  | some existing => if existing.order < candidate.order then some candidate else some existing

def updateAccountBlockTransition (transitions : ℤ → Option AccountBlockTransition) (userId : ℤ)
    (candidate : AccountBlockTransition) : ℤ → Option AccountBlockTransition :=
  Function.update transitions userId (laterTransition candidate (transitions userId))

/-- The log items of the fallback accounts of a name, ascending. -/
def fallbackNameIndex (order : RowOrder)
    (accounts : ExtTreeMap ℤ (String × Bool × Option String)) (name : String) : List ℤ :=
  ((order.arrange accounts.toList).filterMap fun (logId, _, _, user) =>
    if user = some name then some logId else none).insertionSort (· ≤ ·)

def RevisionIdentity.names (revision : RevisionIdentity) : List String :=
  [revision.historicalName, revision.currentName].filterMap id

def markFallback (accounts : ExtTreeMap ℤ (String × Bool × Option String)) (logId : ℤ) :
    ExtTreeMap ℤ (String × Bool × Option String) :=
  accounts.alter logId fun entry => entry.map fun (month, _, user) => (month, true, user)

/-- The revision's user id is that of an account. -/
def markAccount (blockTransitions : String → Option AccountBlockTransition) (m : Matched)
    (userId : ℤ) (names : List String) : Matched :=
  if (m.accounts[userId]?).isSome then { m with
    accounts := m.accounts.alter userId fun entry => entry.map fun (month, _) => (month, true)
    accountBlockTransitions := (names.filterMap (blockTransitionForName blockTransitions)).foldl
      (fun transitions candidate => updateAccountBlockTransition transitions userId candidate)
      m.accountBlockTransitions }
  else m

/-- `AccountRevisionMatcher::mark`. -/
def mark (blockTransitions : String → Option AccountBlockTransition) (index : String → List ℤ)
    (m : Matched) (revision : RevisionIdentity) : Matched :=
  let marked := match revision.userId with
    | some userId => markAccount blockTransitions m userId revision.names
    | none => m
  { marked with
    fallbackAccounts := (revision.names.flatMap index).foldl markFallback marked.fallbackAccounts }

/-! ## Counting -/

structure AccountCreationCounts where
  accountsCreated : ℕ := 0
  accountsWithEdits : ℕ := 0
  indefinitelyBlockedAccounts : ℕ := 0
  indefinitelyBlockedWithEdits : ℕ := 0
  deriving DecidableEq

structure AccountCreationMonth where
  yearMonth : String
  accountsCreated : ℕ
  accountsWithEdits : ℕ
  accountsWithoutEdits : ℕ
  indefinitelyBlockedAccounts : ℕ
  indefinitelyBlockedWithEdits : ℕ
  indefinitelyBlockedWithoutEdits : ℕ
  temporaryAccountsExcluded : ℕ
  deriving DecidableEq

def resolveIndefiniteBlockState (transition : Option AccountBlockTransition) : Except String Bool :=
  match transition with
  | none => return false
  | some transition => match transition.state with
    | .indefinite => return true
    | .notIndefinite => return false
    | .unclassified => .error ("latest matching local block duration cannot be classified at "
        ++ transition.timestamp ++ " / " ++ toString transition.logId)

/-- One more on a `u32`, if the account is to be counted. -/
def countIf (counted : Bool) (n : ℕ) (message : String) : Except String ℕ :=
  if counted then context (checkedAdd u32Max n 1) message else return n

/-- The counts of a month with one more account. -/
def AccountCreationCounts.add (counts : AccountCreationCounts) (edited blocked : Bool) :
    Except String AccountCreationCounts := do
  let created ← countIf true counts.accountsCreated "account count overflow"
  let withEdits ← countIf edited counts.accountsWithEdits "edited account count overflow"
  let blockedAccounts ← countIf blocked counts.indefinitelyBlockedAccounts
    "indefinitely blocked account count overflow"
  let blockedWithEdits ← countIf (blocked && edited) counts.indefinitelyBlockedWithEdits
    "edited indefinitely blocked account count overflow"
  return ⟨created, withEdits, blockedAccounts, blockedWithEdits⟩

def accumulateAccountMonth (monthly : ExtTreeMap String AccountCreationCounts) (month : String)
    (edited blocked : Bool) : Except String (ExtTreeMap String AccountCreationCounts) := do
  let counts ← (monthly[month]?.getD {}).add edited blocked
  return monthly.insert month counts

def countAccount (transitions : ℤ → Option AccountBlockTransition)
    (monthly : ExtTreeMap String AccountCreationCounts) (account : ℤ × String × Bool) :
    Except String (ExtTreeMap String AccountCreationCounts) := do
  let blocked ← resolveIndefiniteBlockState (transitions account.1)
  accumulateAccountMonth monthly account.2.1 account.2.2 blocked

def countFallback (blockTransitions : String → Option AccountBlockTransition)
    (monthly : ExtTreeMap String AccountCreationCounts)
    (account : ℤ × String × Bool × Option String) :
    Except String (ExtTreeMap String AccountCreationCounts) := do
  let blocked ← resolveIndefiniteBlockState
    (account.2.2.2.bind (blockTransitionForName blockTransitions))
  accumulateAccountMonth monthly account.2.1 account.2.2.1 blocked

/-- `checked_sub`. -/
def checkedSub (a b : ℕ) : Option ℕ := if b ≤ a then some (a - b) else none

def monthRow (temporaryByMonth : ExtTreeMap String ℕ) (entry : String × AccountCreationCounts) :
    Except String AccountCreationMonth := do
  let counts := entry.2
  let withoutEdits ← context (checkedSub counts.accountsCreated counts.accountsWithEdits)
    "account-creation conservation failure"
  let blockedWithoutEdits ← context
    (checkedSub counts.indefinitelyBlockedAccounts counts.indefinitelyBlockedWithEdits)
    "indefinite-block conservation failure"
  return {
    yearMonth := entry.1
    accountsCreated := counts.accountsCreated
    accountsWithEdits := counts.accountsWithEdits
    accountsWithoutEdits := withoutEdits
    indefinitelyBlockedAccounts := counts.indefinitelyBlockedAccounts
    indefinitelyBlockedWithEdits := counts.indefinitelyBlockedWithEdits
    indefinitelyBlockedWithoutEdits := blockedWithoutEdits
    temporaryAccountsExcluded := temporaryByMonth[entry.1]?.getD 0 }

/-- The accounts with and without edits are all that were created. -/
def AccountCreationMonth.CreatedConserved (row : AccountCreationMonth) : Prop :=
  row.accountsCreated = row.accountsWithEdits + row.accountsWithoutEdits
  deriving Decidable

/-- And so are those of them that are blocked. -/
def AccountCreationMonth.BlockedConserved (row : AccountCreationMonth) : Prop :=
  row.indefinitelyBlockedAccounts
      = row.indefinitelyBlockedWithEdits + row.indefinitelyBlockedWithoutEdits ∧
    row.indefinitelyBlockedWithEdits ≤ row.accountsWithEdits ∧
    row.indefinitelyBlockedWithoutEdits ≤ row.accountsWithoutEdits
  deriving Decidable

/-- The transitions of the accounts whose names the log has. -/
def namedTransitions (order : RowOrder) (s : Collected) : ℤ → Option AccountBlockTransition :=
  (order.arrange s.accountNames.toList).foldl (fun transitions (userId, name) =>
    match blockTransitionForName s.blockTransitions name with
    | some transition => Function.update transitions userId (some transition)
    | none => transitions) fun _ => none

def matchRevisions (order : RowOrder) (s : Collected) (revisions : List RevisionIdentity) :
    Matched :=
  revisions.foldl (mark s.blockTransitions (fallbackNameIndex order s.fallbackAccounts))
    ⟨s.accounts, s.fallbackAccounts, namedTransitions order s⟩

def countMonths (order : RowOrder) (s : Collected) (m : Matched) :
    Except String (ExtTreeMap String AccountCreationCounts) := do
  let monthly ← (order.arrange m.accounts.toList).foldlM (countAccount m.accountBlockTransitions) ∅
  let monthly ← (order.arrange m.fallbackAccounts.toList).foldlM
    (countFallback s.blockTransitions) monthly
  return s.temporaryByMonth.toList.foldl (fun monthly (month, _) =>
    monthly.alter month fun counts => some (counts.getD {})) monthly

/-- The rows of what was collected and matched. -/
def monthRows (order : RowOrder) (s : Collected) (revisions : List RevisionIdentity) :
    Except String (List AccountCreationMonth) := do
  let monthly ← countMonths order s (matchRevisions order s revisions)
  let rows ← monthly.toList.mapM (monthRow s.temporaryByMonth)
  ensure (∀ row ∈ rows, row.CreatedConserved)
    "account-creation split does not conserve its cohort total"
  ensure (∀ row ∈ rows, row.BlockedConserved)
    "indefinite-block split does not conserve its cohort total"
  return rows

/-- `build_account_creation_staging_report`: the rows. -/
def buildAccountCreationRows (order : RowOrder) (wiki snapshot : String)
    (sources : List (List LoggingEvent)) (revisions : List RevisionIdentity) :
    Except String (List AccountCreationMonth) := do
  let s ← collect texts snapshot sources
  ensure (s.unresolvedPermanent = 0) (wiki ++ "/" ++ snapshot ++ " has "
    ++ toString s.unresolvedPermanent
    ++ " permanent account-creation events without a usable target identity")
  ensure (s.accounts.isEmpty = false ∨ s.fallbackAccounts.isEmpty = false)
    (wiki ++ "/" ++ snapshot ++ " has no permanent account creations in logging coverage")
  monthRows order s revisions

end WikiEcon.Patrol
