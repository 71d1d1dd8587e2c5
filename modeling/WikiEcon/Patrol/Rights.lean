import Mathlib.Data.Finset.Sort
import Mathlib.Data.List.DropRight
import Mathlib.Data.List.Lex
import Mathlib.Data.List.Sort
import Mathlib.Data.String.Basic
import WikiEcon.Compute.Frames
import WikiEcon.Lib.Civil
import WikiEcon.Lib.Fallible
import WikiEcon.Lib.PrefixCode
import WikiEcon.Rust

/-!
# Autopatrol rights

An edit is autopatrolled if its author held an autopatrol group at the time. The
rights log says when a user's groups changed; `buildAutopatrolIntervals` reads the
whole of it, and `advanceRightsMonth` reads one month of it with the users in hand
who held the right when the month began. The users are carried from month to month
and written down every December, and a later run starts from such a checkpoint.

Dates are read by `chrono` and hashed by `sha256`; both are parameters. Months are
`YearMonth`s: `month_bounds` refuses every other text.
-/

namespace WikiEcon.Patrol

open Compute Fallible

/-! ## Months and timestamps -/

/-- `format_year_month`. -/
def formatYearMonth (yearMonthKey : ℤ) : String :=
  zeroPad 4 (yearMonthKey.tdiv 100) ++ "-" ++ zeroPad 2 (yearMonthKey.tmod 100)

def monthText (m : YearMonth) : String := formatYearMonth m.key

def shiftMonthKey (yearMonthKey deltaMonths : ℤ) : Option ℤ :=
  let year := yearMonthKey.tdiv 100
  let month := yearMonthKey.tmod 100
  if 1 ≤ month ∧ month ≤ 12 ∧ -2 ^ 31 ≤ year * 12 ∧ year * 12 < 2 ^ 31 then
    let absolute := year * 12 + (month - 1) + deltaMonths
    if absolute < 0 then none else some (absolute.tdiv 12 * 100 + (absolute.tmod 12 + 1))
  else none

/-- `starts_with`. -/
def startsWith (text start : String) : Bool := start.toList.isPrefixOf text.toList

/-- The date parser. -/
structure Chrono where
  /-- `NaiveDateTime::parse_from_str` with `%Y-%m-%d %H:%M:%S`. -/
  parseFromStr : String → Option Civil.NaiveDateTime
  /-- A text that starts with a month is read in that month. -/
  reads : ∀ (m : YearMonth) (text : String) (t : Civil.NaiveDateTime),
    startsWith text (monthText m) = true → parseFromStr text = some t →
      t.year = m.year ∧ t.month = m.month
  /-- Midnight at the start of a month. -/
  midnight : ∀ m : YearMonth, parseFromStr (monthText m ++ "-01 00:00:00")
    = some (.firstOf m.year m.month m.month_pos m.month_le)
  /-- After the year 9999 an initial sign is required. -/
  unsigned : parseFromStr "10000-01-01 00:00:00" = none

/-- `replace('T', " ")`, `trim_end_matches('Z')` and the part before the first dot. -/
def normalizeTimestamp (timestamp : String) : String :=
  let spaced := timestamp.toList.map fun c => if c = 'T' then ' ' else c
  String.ofList ((spaced.rdropWhile fun c => c = 'Z').takeWhile fun c => c ≠ '.')

def parseTimestampSeconds (chrono : Chrono) (value : String) : Option ℤ :=
  (chrono.parseFromStr (normalizeTimestamp value)).map Civil.NaiveDateTime.timestamp

def monthBounds (chrono : Chrono) (month : YearMonth) : Except String (ℤ × ℤ) := do
  let next ← context (shiftMonthKey month.key 1) "rights checkpoint month overflow"
  let start ← context (parseTimestampSeconds chrono (monthText month ++ "-01 00:00:00"))
    "invalid rights month start"
  let stop ← context (parseTimestampSeconds chrono (formatYearMonth next ++ "-01 00:00:00"))
    "invalid rights month end"
  return (start, stop)

/-! ## The rights log -/

structure RightsRow where
  timestamp : Option String
  targetUser : Option String
  oldGroups : Option String
  newGroups : Option String
  deriving DecidableEq

def splitGroups (value : Option String) : List String :=
  let parts := (value.getD "").toList.splitOn ','
  let trimmed := parts.map trim
  (trimmed.filter fun part => !part.isEmpty).map String.ofList

def hasAny (autopatrolGroups : List String) (value : Option String) : Bool :=
  (splitGroups value).any fun group => autopatrolGroups.contains group

/-- `Vec<(i64, Option<i64>)>` of each user; a user without intervals has no entry. -/
abbrev AutopatrolIntervals := String → List (ℤ × Option ℤ)

def noIntervals : AutopatrolIntervals := fun _ => []

def userHasAutopatrolAt (intervals : AutopatrolIntervals) (username : String)
    (timestampSeconds : ℤ) : Bool :=
  (intervals username).any fun interval =>
    interval.1 ≤ timestampSeconds && interval.2.all fun stop => timestampSeconds < stop

/-! ## The whole log -/

/-- The change a row makes, with its user; rows without a user or a readable timestamp
are passed over, and so are those that leave the right as it was. -/
def readChange (chrono : Chrono) (autopatrolGroups : List String) (row : RightsRow) :
    Option (String × ℤ × Bool) := do
  let username ← row.targetUser
  let timestamp ← row.timestamp.bind (parseTimestampSeconds chrono)
  let newHas := hasAny autopatrolGroups row.newGroups
  if hasAny autopatrolGroups row.oldGroups = newHas then none
  else some (username, timestamp, newHas)

/-- One change of a user. -/
def buildStep (state : Option ℤ × List (ℤ × Option ℤ)) (change : ℤ × Bool) :
    Option ℤ × List (ℤ × Option ℤ) :=
  if change.2 && state.1.isNone then (some change.1, state.2)
  else if change.2 then state
  else match state.1 with
    | some start => (none, state.2 ++ [(start, some change.1)])
    | none => state

def buildIntervals (changes : List (ℤ × Bool)) : List (ℤ × Option ℤ) :=
  let sorted := changes.insertionSort fun a b => a.1 ≤ b.1
  let (current, closed) := sorted.foldl buildStep (none, [])
  match current with
  | some start => closed ++ [(start, none)]
  | none => closed

/-- The changes of one user, in the order of the log. -/
def changesOf (changes : List (String × ℤ × Bool)) (username : String) : List (ℤ × Bool) :=
  (changes.filter fun change => change.1 = username).map Prod.snd

/-- `build_autopatrol_intervals`; no rows where the file does not exist. -/
def buildAutopatrolIntervals (chrono : Chrono) (rights : Option (List RightsRow))
    (autopatrolGroups : List String) : AutopatrolIntervals :=
  match rights with
  | none => noIntervals
  | some rows =>
    if autopatrolGroups.isEmpty then noIntervals
    else fun username =>
      buildIntervals (changesOf (rows.filterMap (readChange chrono autopatrolGroups)) username)

/-! ## One month -/

/-- A change of a month: its second, and the right before and after. -/
structure MonthEvent where
  timestamp : ℤ
  oldHas : Bool
  newHas : Bool
  deriving DecidableEq

/-- What is known after some rows of a month: the timestamp of the last one, and the
events with their users. -/
structure MonthRead where
  previousTimestamp : Option ℤ
  events : List (String × MonthEvent)

def readRow (chrono : Chrono) (month : YearMonth) (autopatrolGroups : List String)
    (read : MonthRead) (row : RightsRow) : Except String MonthRead := do
  let timestampText ← context row.timestamp "rights event has no timestamp"
  ensure (startsWith timestampText (monthText month))
    "rights event is outside its monthly partition"
  let timestamp ← context (parseTimestampSeconds chrono timestampText)
    "rights event has an invalid timestamp"
  ensure (read.previousTimestamp.all fun previous => previous ≤ timestamp)
    "rights month is not ordered chronologically"
  let username ← context row.targetUser "rights event has no target user"
  let oldHas := hasAny autopatrolGroups row.oldGroups
  let newHas := hasAny autopatrolGroups row.newGroups
  return {
    previousTimestamp := some timestamp
    events := if oldHas ≠ newHas then read.events ++ [(username, ⟨timestamp, oldHas, newHas⟩)]
      else read.events }

/-- Close the open interval, if there is one. -/
def closeInterval (timestamp : ℤ) (state : Option ℤ × List (ℤ × Option ℤ)) :
    Option ℤ × List (ℤ × Option ℤ) :=
  match state.1 with
  | some opened => (none, state.2 ++ [(opened, some timestamp)])
  | none => state

/-- One event of a user. An event that took away a right the user was not known to
hold was preceded by it since the start of the month. -/
def advanceEvent (monthStart : ℤ) (state : Option ℤ × List (ℤ × Option ℤ)) (event : MonthEvent) :
    Option ℤ × List (ℤ × Option ℤ) :=
  let state :=
    if event.oldHas && state.1.isNone then (some monthStart, state.2)
    else if !event.oldHas then closeInterval event.timestamp state
    else state
  if event.newHas && state.1.isNone then (some event.timestamp, state.2)
  else if !event.newHas then closeInterval event.timestamp state
  else state

/-- `retain`: an interval with a second in the month, or one that starts in it. -/
def inMonth (monthStart monthEnd : ℤ) (interval : ℤ × Option ℤ) : Bool :=
  interval.1 < monthEnd && interval.2.all fun stop => monthStart < stop && interval.1 < stop

def eventsOf (events : List (String × MonthEvent)) (username : String) : List MonthEvent :=
  (events.filter fun event => event.1 = username).map Prod.snd

/-- One turn of the loop over the users. -/
def advanceUser (monthStart monthEnd : ℤ) (events : List (String × MonthEvent))
    (state : Finset String × AutopatrolIntervals) (username : String) :
    Finset String × AutopatrolIntervals :=
  let opened := if username ∈ state.1 then some monthStart else none
  let (start, closed) := (eventsOf events username).foldl (advanceEvent monthStart) (opened, [])
  let userIntervals := closed ++ (start.map fun opened => (opened, none)).toList
  (if start.isSome then insert username state.1 else state.1.erase username,
    Function.update state.2 username (userIntervals.filter (inMonth monthStart monthEnd)))

/-- `advance_rights_month`; no rows where the month has no file. -/
def advanceRightsMonth (chrono : Chrono) (rights : Option (List RightsRow)) (month : YearMonth)
    (autopatrolGroups : List String) (activeUsers : Finset String) :
    Except String (AutopatrolIntervals × Finset String) := do
  let bounds ← monthBounds chrono month
  let read ← (rights.getD []).foldlM (readRow chrono month autopatrolGroups) ⟨none, []⟩
  let users := (activeUsers ∪ (read.events.map Prod.fst).toFinset).sort (· ≤ ·)
  let (active, intervals) :=
    users.foldl (advanceUser bounds.1 bounds.2 read.events) (activeUsers, noIntervals)
  return (intervals, active)

/-! ## Checkpoints -/

def rightsStateVersion : String := "patrol-rights-state-v1"
def checkpointSchemaVersion : ℕ := 1

def utf8 (text : String) : List UInt8 := text.toByteArray.data.toList

def updateString (value : String) : List UInt8 := PrefixCode.lengthPrefixed (utf8 value)

/-- `derived_digest`. -/
def derivedDigest (sha256 : List UInt8 → String) (kind algorithmVersion : String)
    (inputDigests : List String) : String :=
  sha256 (utf8 "wiki-economics" ++ [0] ++ utf8 "derived-incremental-input" ++ [0]
    ++ updateString kind ++ updateString algorithmVersion ++ inputDigests.flatMap updateString)

structure RightsCheckpoint where
  schemaVersion : ℕ
  throughMonth : String
  rightsPrefixDigest : String
  groupsDigest : String
  activeUsers : List String
  stateSha256 : String
  deriving DecidableEq

def RightsCheckpoint.canonicalHash (sha256 : List UInt8 → String) (c : RightsCheckpoint) : String :=
  sha256 (utf8 "wiki-economics" ++ [0] ++ utf8 "patrol-rights-checkpoint" ++ [0]
    ++ PrefixCode.beBytes 4 c.schemaVersion
    ++ [c.throughMonth, c.rightsPrefixDigest, c.groupsDigest].flatMap updateString
    ++ c.activeUsers.flatMap updateString)

def RightsCheckpoint.new (sha256 : List UInt8 → String) (throughMonth : YearMonth)
    (rightsPrefixDigest groupsDigest : String) (activeUsers : Finset String) : RightsCheckpoint :=
  let checkpoint : RightsCheckpoint := {
    schemaVersion := checkpointSchemaVersion
    throughMonth := monthText throughMonth
    rightsPrefixDigest := rightsPrefixDigest
    groupsDigest := groupsDigest
    activeUsers := activeUsers.sort (· ≤ ·)
    stateSha256 := "" }
  { checkpoint with stateSha256 := checkpoint.canonicalHash sha256 }

/-- `windows(2).all(|pair| pair[0] < pair[1])`. -/
def strictlySorted : List String → Bool
  | a :: b :: rest => a < b && strictlySorted (b :: rest)
  | _ => true

def RightsCheckpoint.validate (sha256 : List UInt8 → String) (c : RightsCheckpoint)
    (month : YearMonth) (rightsPrefix groups : String) : Except String Unit := do
  ensure (c.schemaVersion = checkpointSchemaVersion ∧ c.throughMonth = monthText month
      ∧ c.rightsPrefixDigest = rightsPrefix ∧ c.groupsDigest = groups
      ∧ strictlySorted c.activeUsers = true)
    "patrol rights checkpoint identity changed"
  ensure (c.stateSha256 = c.canonicalHash sha256) "patrol rights checkpoint state hash changed"

/-- A month's artifact of the rights log. -/
structure MonthArtifact where
  artifactSha256 : String
  rows : List RightsRow

/-- What a run over the months of one generation works with. -/
structure Generation where
  chrono : Chrono
  sha256 : List UInt8 → String
  rightsArtifacts : YearMonth → Option MonthArtifact
  /-- The output months and the rights months up to the last of them. -/
  timelineMonths : List YearMonth
  autopatrolGroups : List String
  groupsDigest : String

/-- `rights_prefixes`: the artifacts of the timeline up to a month. -/
def Generation.rightsPrefix (g : Generation) (month : YearMonth) : String :=
  derivedDigest g.sha256 "patrol_rights_prefix" rightsStateVersion
    ((g.timelineMonths.filter (· ≤ month)).filterMap fun m =>
      (g.rightsArtifacts m).map MonthArtifact.artifactSha256)

def Generation.checkpointDigest (g : Generation) (month : YearMonth) : String :=
  derivedDigest g.sha256 "patrol_rights_checkpoint" rightsStateVersion
    [monthText month, g.rightsPrefix month, g.groupsDigest]

/-- The checkpoints in the cache, and what is carried from month to month. -/
structure Walk where
  cache : String → Option RightsCheckpoint
  activeUsers : Finset String
  rightsStateMonth : Option YearMonth

def Walk.holds (walk : Walk) (digest : String) : Option RightsCheckpoint := walk.cache digest

def writeOrValidateCheckpoint (g : Generation) (month : YearMonth) : Fallible String Walk Unit := do
  let walk ← read
  match walk.holds (g.checkpointDigest month) with
  | some checkpoint =>
    lift (checkpoint.validate g.sha256 month (g.rightsPrefix month) g.groupsDigest)
    lift (ensure (checkpoint.activeUsers = walk.activeUsers.sort (· ≤ ·))
      "patrol rights checkpoint state changed")
  | none =>
    update fun walk => { walk with
      cache := Function.update walk.cache (g.checkpointDigest month)
        (some (.new g.sha256 month (g.rightsPrefix month) g.groupsDigest walk.activeUsers)) }

/-- One turn of the loop of `advance_state_through`. -/
def advanceMonth (g : Generation) (month : YearMonth) : Fallible String Walk AutopatrolIntervals :=
  do
  let walk ← read
  let advanced ← lift (advanceRightsMonth g.chrono
    ((g.rightsArtifacts month).map MonthArtifact.rows)
    month g.autopatrolGroups walk.activeUsers)
  update fun walk => { walk with activeUsers := advanced.2 }
  if month.isDecember then writeOrValidateCheckpoint g month else pure ()
  update fun walk => { walk with rightsStateMonth := some month }
  return advanced.1

def advanceMonths (g : Generation) (targetMonth : YearMonth) :
    List YearMonth → AutopatrolIntervals → Fallible String Walk AutopatrolIntervals
  | [], found => return found
  | month :: rest, found => do
    let intervals ← advanceMonth g month
    advanceMonths g targetMonth rest (if month = targetMonth then intervals else found)

def advanceStateThrough (g : Generation) (targetMonth : YearMonth) :
    Fallible String Walk AutopatrolIntervals := do
  let walk ← read
  let months := (g.timelineMonths.filter fun month =>
    walk.rightsStateMonth.all fun start => start < month).takeWhile (· ≤ targetMonth)
  let found ← advanceMonths g targetMonth months noIntervals
  let walk ← read
  lift (ensure (walk.rightsStateMonth = some targetMonth)
    "rights state did not advance to patrol output month")
  return found

/-- The checkpoints of these months are tried in order. -/
def restoreFrom (g : Generation) : List YearMonth → Fallible String Walk Unit
  | [] => update fun walk => { walk with activeUsers := ∅, rightsStateMonth := none }
  | month :: rest => do
    let walk ← read
    match walk.holds (g.checkpointDigest month) with
    | none => restoreFrom g rest
    | some checkpoint => do
      lift (checkpoint.validate g.sha256 month (g.rightsPrefix month) g.groupsDigest)
      update fun walk => { walk with
        activeUsers := checkpoint.activeUsers.toFinset
        rightsStateMonth := some month }

def restoreRightsCheckpoint (g : Generation) (targetMonth : YearMonth) :
    Fallible String Walk Unit :=
  restoreFrom g (g.timelineMonths.reverse.filter fun month =>
    month < targetMonth && month.isDecember)

end WikiEcon.Patrol
