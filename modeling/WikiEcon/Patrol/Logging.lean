import Mathlib.Data.List.Destutter
import Mathlib.Data.List.DropRight
import Mathlib.Data.List.Lex
import Mathlib.Data.List.Sort
import Mathlib.Data.String.Basic
import WikiEcon.Patrol.Rights

/-!
# The decoder of the pages-logging dump

`logging.rs`: `stream_file` reads the events of an XML reader and hands one typed event for
each `<logitem>` to a consumer. The reader is outside the repository: the decoder is a
function of the events it delivers, and a text that cannot be decoded is a reader that
fails. What the regular expressions capture is a parameter.
-/

namespace WikiEcon.Patrol

/-! ## Typed events -/

structure PatrolEvent where
  timestamp : String
  logId : ℤ
  user : Option String
  userId : Option ℤ
  pageTitle : Option String
  currentRevisionId : ℤ
  prevRevisionId : ℤ
  isAuto : Bool
  deriving DecidableEq

structure RightsEvent where
  timestamp : String
  targetUser : String
  oldGroups : String
  newGroups : String
  deriving DecidableEq

structure AccountCreationEvent where
  logId : Option ℤ
  timestamp : String
  targetUserId : Option ℤ
  targetUser : Option String
  isTemporary : Bool
  deriving DecidableEq

structure BlockEvent where
  action : String
  logId : Option ℤ
  timestamp : String
  logTitle : Option String
  params : Option String
  deriving DecidableEq

inductive LoggingEvent
  | patrol (event : PatrolEvent)
  | rights (event : RightsEvent)
  | block (event : BlockEvent)
  | accountCreation (event : AccountCreationEvent)
  | other (logType logAction : Option String)
  deriving DecidableEq

structure RawLogItem where
  logType : Option String := none
  logAction : Option String := none
  logId : Option ℤ := none
  timestamp : Option String := none
  contributorName : Option String := none
  contributorId : Option ℤ := none
  logTitle : Option String := none
  params : Option String := none
  deriving DecidableEq

/-! ## Reading texts -/

/-- `str::trim_start`. -/
def trimStart (text : List Char) : List Char := text.dropWhile isWhitespace

/-- The digits of `str::parse::<i64>`, after the sign. -/
def parseDigits (digits : List Char) : Option ℕ :=
  if digits.isEmpty then none
  else digits.foldlM (fun n c => if c.isDigit then some (n * 10 + (c.toNat - '0'.toNat))
    else none) 0

/-- `str::parse::<i64>`. -/
def parseI64 (text : List Char) : Option ℤ := do
  let n ← match text with
    | '-' :: digits => (parseDigits digits).map fun n => -(n : ℤ)
    | '+' :: digits => (parseDigits digits).map fun n => (n : ℤ)
    | digits => (parseDigits digits).map fun n => (n : ℤ)
  if i64Min ≤ n ∧ n ≤ i64Max then some n else none

def parseI64Opt (value : String) : Option ℤ := parseI64 (trim value.toList)

/-- `str::lines`: what ends in a line feed loses it, and a carriage return before it. -/
def lines (text : List Char) : List (List Char) :=
  let parts := text.splitOn '\n'
  let ended := parts.dropLast.map fun line =>
    if line.getLast? = some '\r' then line.dropLast else line
  match parts.getLast? with
  | some [] => ended
  | some last => ended ++ [last]
  | none => ended

/-- `str::find` with what follows: the text after the first occurrence of `pattern`. -/
def afterFirst (pattern : List Char) : List Char → Option (List Char)
  | [] => if pattern.isEmpty then some [] else none
  | c :: text =>
    if pattern.isPrefixOf (c :: text) then some ((c :: text).drop pattern.length)
    else afterFirst pattern text

/-- `str::split_once(':')`, the part after the colon or else the whole. -/
def afterColon (text : String) : String :=
  ((afterFirst [':'] text.toList).map String.ofList).getD text

/-- What the regular expressions of the decoder capture. -/
structure Captures where
  /-- `(?:4::)?userid\";i:(\d+)`, group 1 of the first match. -/
  userId : String → Option String
  /-- The fields of `patrol_param_regex`, with their string or integer values. -/
  patrolParams : String → List (String × Option String × Option String)
  /-- `s:\d+:"([^"]+)"`, group 1 of each match. -/
  rightsGroups : String → List String

section Parsers

variable (captures : Captures)

def parseNewUserId (params : String) : Option ℤ :=
  let params := trim params.toList
  match parseI64 params with
  | some value => some value
  | none => (captures.userId (String.ofList params)).bind fun value => parseI64 value.toList

/-- One capture of the serialized parameters of a patrol action. -/
def patrolParam (read : ℤ × ℤ × Bool) (capture : String × Option String × Option String) :
    ℤ × ℤ × Bool :=
  let (field, text, integer) := capture
  let integer := integer.bind fun value => parseI64 value.toList
  let number := ((text.bind fun value => parseI64 value.toList).or integer).getD 0
  match field with
  | "4::curid" => (number, read.2)
  | "5::previd" => (read.1, number, read.2.2)
  | "6::auto" => (read.1, read.2.1, integer.getD 0 == 1)
  | _ => read

def parsePatrolParams (params : String) : ℤ × ℤ × Bool :=
  if (trim params.toList).isEmpty then (0, 0, false)
  else if ['a', ':'].isPrefixOf (trimStart params.toList) then
    (captures.patrolParams params).foldl patrolParam (0, 0, false)
  else
    let lines := lines params.toList
    let number (i : ℕ) := (lines[i]?.bind fun value => parseI64 (trim value)).getD 0
    (number 0, number 1, lines[2]?.any fun value => trim value == ['1'])

/-- The part of `text`, which follows an opening brace, before the brace that closes it. -/
def closingBrace (depth : ℕ) : List Char → Option (List Char)
  | [] => none
  | '{' :: text => (closingBrace (depth + 1) text).map ('{' :: ·)
  | '}' :: text =>
    if depth = 1 then some [] else (closingBrace (depth - 1) text).map ('}' :: ·)
  | c :: text => (closingBrace depth text).map (c :: ·)

def extractPhpArrayBody (value : List Char) : Option (List Char) :=
  (afterFirst ['{'] value).bind (closingBrace 1)

def extractPhpGroups (params : String) (key : String) : List String :=
  let marker := "\"" ++ key ++ "\";"
  match (afterFirst marker.toList params.toList).bind extractPhpArrayBody with
  | none => []
  | some body =>
    let values := (captures.rightsGroups (String.ofList body)).filter fun value =>
      !(value.toList.all Char.isDigit && value.length == 14)
    (values.insertionSort (· ≤ ·)).destutter (· ≠ ·)

def parseRightsParams (params : String) : String × String :=
  if (trim params.toList).isEmpty then ("", "")
  else if (afterFirst ['a', ':'] params.toList).isSome then
    (",".intercalate (extractPhpGroups captures params "4::oldgroups"),
      ",".intercalate (extractPhpGroups captures params "5::newgroups"))
  else
    let lines := lines params.toList
    let line (i : ℕ) := String.ofList (trim (lines[i]?.getD []))
    (line 0, line 1)

def RawLogItem.intoPatrol (item : RawLogItem) : PatrolEvent :=
  let params := parsePatrolParams captures (item.params.getD "")
  { logId := item.logId.getD 0
    timestamp := item.timestamp.getD ""
    user := item.contributorName
    userId := item.contributorId
    pageTitle := item.logTitle
    currentRevisionId := params.1
    prevRevisionId := params.2.1
    isAuto := params.2.2 }

def RawLogItem.intoRights (item : RawLogItem) : RightsEvent :=
  let groups := parseRightsParams captures (item.params.getD "")
  { timestamp := item.timestamp.getD ""
    targetUser := afterColon (item.logTitle.getD "")
    oldGroups := groups.1
    newGroups := groups.2 }

def RawLogItem.intoBlock (item : RawLogItem) : BlockEvent where
  action := item.logAction.getD ""
  logId := item.logId
  timestamp := item.timestamp.getD ""
  logTitle := item.logTitle
  params := item.params

def RawLogItem.intoAccountCreation (item : RawLogItem) : AccountCreationEvent :=
  let action := item.logAction.getD ""
  let created := action == "create" || action == "autocreate" || action == "newusers"
  let targetUser := item.logTitle.bind fun title =>
    let user := String.ofList (trim (afterColon title).toList)
    if user.isEmpty then none else some user
  { logId := item.logId.filter fun logId => 0 < logId
    timestamp := item.timestamp.getD ""
    targetUserId := (item.params.bind (parseNewUserId captures)).or
      (if created then item.contributorId else none)
    targetUser := targetUser
    isTemporary := targetUser.any fun user => startsWith user "~" }

def RawLogItem.intoEvent (item : RawLogItem) : LoggingEvent :=
  match item.logType with
  | some "patrol" => .patrol (item.intoPatrol captures)
  | some "rights" => .rights (item.intoRights captures)
  | some "block" => .block item.intoBlock
  | some "newusers" => .accountCreation (item.intoAccountCreation captures)
  | logType => .other logType item.logAction

end Parsers

/-! ## The decoder -/

/-- An event of the XML reader; tags are local names, texts are decoded. -/
inductive XmlEvent
  | start (tag : String)
  | stop (tag : String)
  | text (value : String)
  | cdata (value : String)
  | generalRef (name : String)
  /-- Any event the decoder has no branch for. -/
  | other
  | error (message : String)
  deriving DecidableEq

structure Decoder where
  current : Option RawLogItem := none
  currentTag : Option String := none
  inContributor : Bool := false
  totalLogItems : ℕ := 0

def applyDecodedText (item : RawLogItem) (tag : String) (inContributor : Bool) (value : String) :
    RawLogItem :=
  match tag, inContributor with
  | "type", _ => { item with logType := some value }
  | "action", _ => { item with logAction := some value }
  | "id", true => { item with contributorId := parseI64Opt value }
  | "id", false => { item with logId := parseI64Opt value }
  | "timestamp", _ => { item with timestamp := some (normalizeTimestamp value) }
  | "username", true => { item with contributorName := some value }
  | "logtitle", _ => { item with logTitle := some value }
  | "params", _ => { item with params := some value }
  | _, _ => item

/-- Text and CDATA of the current tag of the current item. -/
def Decoder.applyText (d : Decoder) (value : String) : Decoder :=
  match d.current, d.currentTag with
  | some item, some tag =>
    { d with current := some (applyDecodedText item tag d.inContributor value) }
  | _, _ => d

variable {σ ε : Type}

/-- One turn of the loop of `stream_file`, with what the consumer has made of the events. -/
def Decoder.read (intoEvent : RawLogItem → ε) (consume : σ → ε → Except String σ)
    (state : Decoder × σ) (event : XmlEvent) : Except String (Decoder × σ) :=
  let (d, s) := state
  match event with
  | .start tag =>
    match tag with
    | "logitem" => .ok ({ d with current := some {} }, s)
    | "contributor" => .ok ({ d with inContributor := true }, s)
    | _ => .ok (if d.current.isSome then { d with currentTag := some tag } else d, s)
  | .stop tag =>
    match tag with
    | "contributor" => .ok ({ d with inContributor := false, currentTag := none }, s)
    | "logitem" =>
      match d.current with
      | some item => do
        let total ← context (checkedAdd u64Max d.totalLogItems 1) "logging item count overflow"
        let s ← consume s (intoEvent item)
        return ({ d with current := none, currentTag := none, totalLogItems := total }, s)
      | none => .ok ({ d with currentTag := none }, s)
    | _ => .ok ({ d with currentTag := none }, s)
  | .text value => .ok (d.applyText value, s)
  | .cdata value => .ok (d.applyText value, s)
  | .generalRef _ => .ok (d, s)
  | .other => .ok (d, s)
  | .error message => .error message

/-- The loop of `stream_file`, for any way of turning a record into an event: what the
consumer has made of the events, and `total_log_items`. -/
def streamRecords (intoEvent : RawLogItem → ε) (consume : σ → ε → Except String σ)
    (events : List XmlEvent) (start : σ) : Except String (σ × ℕ) := do
  let (d, s) ← events.foldlM (Decoder.read intoEvent consume) (({} : Decoder), start)
  return (s, d.totalLogItems)

def streamFile (captures : Captures) (consume : σ → LoggingEvent → Except String σ)
    (events : List XmlEvent) (start : σ) : Except String (σ × ℕ) :=
  streamRecords (RawLogItem.intoEvent captures) consume events start

end WikiEcon.Patrol
