import WikiEcon.Patrol.Logging

/-!
# Log items

What the dump holds: log items, each field an element whose character data the reader
delivers in pieces. `LogItem.record` is the record of an item for a given way of reading the
data of an element: `charData` is the whole data, `lastText` what the decoder keeps of it.

`streamRecords_eq` says what the decoder makes of every stream of log items, and
`decodesWhole_iff` when that is the whole data.
-/

namespace WikiEcon.Patrol

/-! ## Character data -/

/-- A piece of an element's content, before the reader trims it. -/
inductive Piece
  | text (raw : String)
  | cdata (value : String)
  | ref (name : String)
  deriving DecidableEq

/-- The white space of XML, which the reader trims off both ends of a text. -/
def isXmlSpace (c : Char) : Bool := c = ' ' || c = '\t' || c = '\n' || c = '\r'

def trimText (raw : String) : String :=
  String.ofList ((raw.toList.dropWhile isXmlSpace).rdropWhile isXmlSpace)

/-- What is delivered of a piece; a text of nothing but white space is passed over. -/
def Piece.event : Piece → Option XmlEvent
  | .text raw => if trimText raw = "" then none else some (.text (trimText raw))
  | .cdata value => some (.cdata value)
  | .ref name => some (.generalRef name)

/-- A text the decoder reads. -/
def XmlEvent.value : XmlEvent → Option String
  | .text value => some value
  | .cdata value => some value
  | _ => none

/-- The number after `#` or `#x`. -/
def charRefNumber (base : ℕ) (digits : List Char) : ℕ :=
  digits.foldl (fun n c => n * base +
    (if c.isDigit then c.toNat - '0'.toNat else c.toLower.toNat - 'a'.toNat + 10)) 0

/-- The predefined entities and the character references. -/
def resolveReference (name : String) : List Char :=
  match name.toList with
  | ['a', 'm', 'p'] => ['&']
  | ['l', 't'] => ['<']
  | ['g', 't'] => ['>']
  | ['q', 'u', 'o', 't'] => ['"']
  | ['a', 'p', 'o', 's'] => ['\'']
  | '#' :: 'x' :: digits => [Char.ofNat (charRefNumber 16 digits)]
  | '#' :: digits => [Char.ofNat (charRefNumber 10 digits)]
  | _ => []

/-- The characters of a piece, each with whether it is white space of a text. -/
def Piece.chars : Piece → List (Char × Bool)
  | .text raw => raw.toList.map fun c => (c, isXmlSpace c)
  | .cdata value => value.toList.map fun c => (c, false)
  | .ref name => (resolveReference name).map fun c => (c, false)

/-- The decoded character data of an element: its pieces one after the other, references
resolved, and the white space of texts trimmed off both ends. Where nothing is delivered
there is no data. -/
def charData (pieces : List Piece) : Option String :=
  if (pieces.filterMap Piece.event).isEmpty then none
  else some (String.ofList
    ((((pieces.flatMap Piece.chars).dropWhile Prod.snd).rdropWhile Prod.snd).map Prod.fst))

/-- The last text or CDATA that is delivered. -/
def lastText (pieces : List Piece) : Option String :=
  ((pieces.filterMap Piece.event).filterMap XmlEvent.value).getLast?

/-! ## Items -/

/-- An element without elements in it. -/
structure Leaf where
  tag : String
  pieces : List Piece

inductive Child
  | leaf (leaf : Leaf)
  | contributor (leaves : List Leaf)
  /-- What stands between two elements. -/
  | between (piece : Piece)
  /-- An empty-element tag, a comment, a processing instruction. -/
  | other

structure LogItem where
  children : List Child

def Leaf.events (leaf : Leaf) : List XmlEvent :=
  .start leaf.tag :: leaf.pieces.filterMap Piece.event ++ [.stop leaf.tag]

def Child.events : Child → List XmlEvent
  | .leaf l => l.events
  | .contributor leaves =>
    .start "contributor" :: leaves.flatMap Leaf.events ++ [.stop "contributor"]
  | .between piece => piece.event.toList
  | .other => [.other]

def LogItem.events (item : LogItem) : List XmlEvent :=
  .start "logitem" :: item.children.flatMap Child.events ++ [.stop "logitem"]

/-- The elements of a child, with whether they are in the contributor. -/
def Child.leaves : Child → List (Bool × Leaf)
  | .leaf l => [(false, l)]
  | .contributor leaves => leaves.map fun l => (true, l)
  | .between _ => []
  | .other => []

def LogItem.leaves (item : LogItem) : List (Bool × Leaf) := item.children.flatMap Child.leaves

/-- The fields of a record. -/
inductive Slot
  | logType | logAction | logId | timestamp | contributorName | contributorId | logTitle | params
  deriving DecidableEq

/-- The field that an element is read into. -/
def slotOf (inContributor : Bool) (tag : String) : Option Slot :=
  match tag, inContributor with
  | "type", _ => some .logType
  | "action", _ => some .logAction
  | "id", true => some .contributorId
  | "id", false => some .logId
  | "timestamp", _ => some .timestamp
  | "username", true => some .contributorName
  | "logtitle", _ => some .logTitle
  | "params", _ => some .params
  | _, _ => none

/-- The field of an element of an item. -/
def fieldOf (l : Bool × Leaf) : Option Slot := slotOf l.1 l.2.tag

def RawLogItem.set (item : RawLogItem) (value : String) : Slot → RawLogItem
  | .logType => { item with logType := some value }
  | .logAction => { item with logAction := some value }
  | .logId => { item with logId := parseI64Opt value }
  | .timestamp => { item with timestamp := some (normalizeTimestamp value) }
  | .contributorName => { item with contributorName := some value }
  | .contributorId => { item with contributorId := parseI64Opt value }
  | .logTitle => { item with logTitle := some value }
  | .params => { item with params := some value }

/-- What a field holds: a text or a number. -/
def RawLogItem.get (item : RawLogItem) : Slot → Option (String ⊕ ℤ)
  | .logType => item.logType.map .inl
  | .logAction => item.logAction.map .inl
  | .logId => item.logId.map .inr
  | .timestamp => item.timestamp.map .inl
  | .contributorName => item.contributorName.map .inl
  | .contributorId => item.contributorId.map .inr
  | .logTitle => item.logTitle.map .inl
  | .params => item.params.map .inl

/-- How a field reads a text. -/
def Slot.read (value : String) : Slot → Option (String ⊕ ℤ)
  | .logId | .contributorId => (parseI64Opt value).map .inr
  | .timestamp => some (.inl (normalizeTimestamp value))
  | _ => some (.inl value)

/-- An item of a dump: no field twice, and a contributor is a name with an id, or an address. -/
structure LogItem.WellFormed (item : LogItem) : Prop where
  once : (item.leaves.filterMap fieldOf).Nodup
  named : ∀ l ∈ item.leaves, l.2.tag ≠ "logitem" ∧ l.2.tag ≠ "contributor" ∧
    (l.1 = true → l.2.tag = "username" ∨ l.2.tag = "id" ∨ l.2.tag = "ip")

/-- The data of an element of an item, under a way of reading the data of elements. -/
def LogItem.data (content : List Piece → Option String) (item : LogItem) (inContributor : Bool)
    (tag : String) : Option String :=
  (item.leaves.find? fun l => l.1 == inContributor && l.2.tag == tag).bind fun l =>
    content l.2.pieces

/-- The record of an item, under a way of reading the data of elements. -/
def LogItem.record (content : List Piece → Option String) (item : LogItem) : RawLogItem where
  logType := item.data content false "type"
  logAction := item.data content false "action"
  logId := (item.data content false "id").bind parseI64Opt
  timestamp := (item.data content false "timestamp").map normalizeTimestamp
  contributorName := item.data content true "username"
  contributorId := (item.data content true "id").bind parseI64Opt
  logTitle := item.data content false "logtitle"
  params := item.data content false "params"

/-- The record of an item with the whole of its data. -/
def LogItem.complete (item : LogItem) : RawLogItem := item.record charData

/-! ## Streams -/

inductive Segment
  | item (item : LogItem)
  /-- Outside of the log items: the site information and white space. -/
  | outside (event : XmlEvent)

def Segment.events : Segment → List XmlEvent
  | .item i => i.events
  | .outside event => [event]

/-- A dump, which may end within a log item. -/
structure LogStream where
  segments : List Segment
  unclosed : List XmlEvent

def LogStream.events (stream : LogStream) : List XmlEvent :=
  stream.segments.flatMap Segment.events ++ stream.unclosed

def Segment.item? : Segment → Option LogItem
  | .item i => some i
  | .outside _ => none

/-- The closed log items. -/
def LogStream.items (stream : LogStream) : List LogItem := stream.segments.filterMap Segment.item?

/-- Not a tag of a log item or of a contributor, and no failure of the reader. -/
def XmlEvent.isOutside : XmlEvent → Bool
  | .start tag => tag ≠ "logitem" && tag ≠ "contributor"
  | .stop tag => tag ≠ "logitem" && tag ≠ "contributor"
  | .error _ => false
  | _ => true

/-- Neither the end of a log item nor a failure of the reader. -/
def XmlEvent.isUnclosed : XmlEvent → Bool
  | .stop tag => tag ≠ "logitem"
  | .error _ => false
  | _ => true

structure LogStream.WellFormed (stream : LogStream) : Prop where
  items : ∀ item ∈ stream.items, item.WellFormed
  outside : ∀ event, .outside event ∈ stream.segments → event.isOutside = true
  unclosed : ∀ event ∈ stream.unclosed, event.isUnclosed = true

/-! ## One element -/

section Run

variable {σ ε : Type} {intoEvent : RawLogItem → ε} {consume : σ → ε → Except String σ}

/-- What is kept of an element in the record of its item. -/
def applyLeaf (content : List Piece → Option String) (item : RawLogItem) (l : Bool × Leaf) :
    RawLogItem :=
  match content l.2.pieces with
  | some value => applyDecodedText item l.2.tag l.1 value
  | none => item

theorem applyDecodedText_eq (item : RawLogItem) (tag : String) (inContributor : Bool)
    (value : String) : applyDecodedText item tag inContributor value
      = ((slotOf inContributor tag).map (item.set value)).getD item := by
  fun_cases applyDecodedText item tag inContributor value
  case case9 => simp_all [slotOf]
  all_goals rfl

/-- A text replaces the text before it. -/
theorem applyDecodedText_again (item : RawLogItem) (tag : String) (inContributor : Bool)
    (value value' : String) :
    applyDecodedText (applyDecodedText item tag inContributor value) tag inContributor value'
      = applyDecodedText item tag inContributor value' := by
  rw [applyDecodedText_eq, applyDecodedText_eq, applyDecodedText_eq]
  cases slotOf inContributor tag with
  | none => rfl
  | some slot => cases slot <;> rfl

/-- The content of an element leaves its last text in the record. -/
theorem foldlM_read_content {item : RawLogItem} {tag : String} {inContributor : Bool} {total : ℕ}
    {s : σ} (pieces : List Piece) :
    (pieces.filterMap Piece.event).foldlM (Decoder.read intoEvent consume)
        (⟨some item, some tag, inContributor, total⟩, s)
      = .ok (⟨some (applyLeaf lastText item (inContributor, ⟨tag, pieces⟩)), some tag,
          inContributor, total⟩, s) := by
  unfold applyLeaf lastText
  dsimp only
  have hcontent : ∀ event ∈ pieces.filterMap Piece.event, event.value.isSome = true ∨
      ∃ name, event = .generalRef name := by
    intro event hevent
    obtain ⟨piece, -, hpiece⟩ := List.mem_filterMap.mp hevent
    cases piece with
    | text raw =>
      simp only [Piece.event] at hpiece
      split at hpiece
      · exact absurd hpiece (by simp)
      · obtain rfl := Option.some.inj hpiece
        exact Or.inl rfl
    | cdata value =>
      obtain rfl := Option.some.inj hpiece
      exact Or.inl rfl
    | ref name =>
      obtain rfl := Option.some.inj hpiece
      exact Or.inr ⟨name, rfl⟩
  generalize pieces.filterMap Piece.event = events at hcontent
  induction events using List.reverseRecOn with
  | nil => rfl
  | append_singleton events event ih =>
    rw [List.foldlM_append, ih fun e he => hcontent e (List.mem_append_left _ he),
      List.filterMap_append]
    rcases hcontent event (by simp) with hvalue | ⟨name, rfl⟩
    · obtain ⟨value, hvalue⟩ := Option.isSome_iff_exists.mp hvalue
      have hread (item' : RawLogItem) : Decoder.read intoEvent consume
          (⟨some item', some tag, inContributor, total⟩, s) event
            = .ok (⟨some (applyDecodedText item' tag inContributor value), some tag,
                inContributor, total⟩, s) := by
        cases event with
        | text v => obtain rfl := Option.some.inj hvalue; rfl
        | cdata v => obtain rfl := Option.some.inj hvalue; rfl
        | _ => exact absurd hvalue (by simp [XmlEvent.value])
      rw [List.filterMap_cons_some hvalue, List.filterMap_nil, List.getLast?_concat]
      show List.foldlM (Decoder.read intoEvent consume) (_, s) [event] = _
      rw [List.foldlM_cons, hread]
      cases (List.filterMap XmlEvent.value events).getLast? with
      | none => rfl
      | some v =>
        dsimp only
        rw [applyDecodedText_again]
        rfl
    · rw [List.filterMap_cons_none rfl, List.filterMap_nil, List.append_nil]
      rfl

theorem read_start {d : Decoder} {s : σ} {tag : String} (hitem : tag ≠ "logitem")
    (hcontributor : tag ≠ "contributor") :
    Decoder.read intoEvent consume (d, s) (.start tag)
      = .ok (if d.current.isSome then { d with currentTag := some tag } else d, s) := by
  simp only [Decoder.read]

theorem read_stop {d : Decoder} {s : σ} {tag : String} (hitem : tag ≠ "logitem")
    (hcontributor : tag ≠ "contributor") :
    Decoder.read intoEvent consume (d, s) (.stop tag) = .ok ({ d with currentTag := none }, s) := by
  simp only [Decoder.read]

/-- **An element** is read into its field, and leaves no tag behind. -/
theorem foldlM_read_leaf {item : RawLogItem} {inContributor : Bool} {total : ℕ} {s : σ}
    {l : Leaf} (hitem : l.tag ≠ "logitem") (hcontributor : l.tag ≠ "contributor") :
    l.events.foldlM (Decoder.read intoEvent consume)
        (⟨some item, none, inContributor, total⟩, s)
      = .ok (⟨some (applyLeaf lastText item (inContributor, l)), none, inContributor, total⟩,
          s) := by
  unfold Leaf.events
  rw [List.cons_append, List.foldlM_cons, read_start hitem hcontributor]
  show List.foldlM (Decoder.read intoEvent consume)
    (⟨some item, some l.tag, inContributor, total⟩, s) (_ ++ _) = _
  rw [List.foldlM_append, foldlM_read_content]
  show List.foldlM (Decoder.read intoEvent consume) _ [XmlEvent.stop l.tag] = _
  rw [List.foldlM_cons, read_stop hitem hcontributor]
  rfl

theorem foldlM_read_leaves {inContributor : Bool} {total : ℕ} {s : σ} {leaves : List Leaf}
    (hleaves : ∀ l ∈ leaves, l.tag ≠ "logitem" ∧ l.tag ≠ "contributor") (item : RawLogItem) :
    (leaves.flatMap Leaf.events).foldlM (Decoder.read intoEvent consume)
        (⟨some item, none, inContributor, total⟩, s)
      = .ok (⟨some ((leaves.map fun l => (inContributor, l)).foldl (applyLeaf lastText) item),
          none, inContributor, total⟩, s) := by
  induction leaves generalizing item with
  | nil => rfl
  | cons l leaves ih =>
    have htag := hleaves l (List.mem_cons_self ..)
    rw [List.flatMap_cons, List.foldlM_append, foldlM_read_leaf htag.1 htag.2]
    exact ih (fun l' hl' => hleaves l' (List.mem_cons_of_mem _ hl')) _

theorem read_content {d : Decoder} {s : σ} {piece : Piece} {event : XmlEvent}
    (htag : d.currentTag = none) (hevent : piece.event = some event) :
    Decoder.read intoEvent consume (d, s) event = .ok (d, s) := by
  have hidle (value : String) : d.applyText value = d := by
    unfold Decoder.applyText
    rw [htag]
    cases d.current <;> rfl
  cases piece with
  | text raw =>
    simp only [Piece.event] at hevent
    split at hevent
    · exact absurd hevent (by simp)
    · obtain rfl := Option.some.inj hevent
      exact congrArg (fun d => Except.ok (d, s)) (hidle _)
  | cdata value =>
    obtain rfl := Option.some.inj hevent
    exact congrArg (fun d => Except.ok (d, s)) (hidle _)
  | ref name =>
    obtain rfl := Option.some.inj hevent
    rfl

theorem foldlM_read_child {total : ℕ} {s : σ} {child : Child}
    (hleaves : ∀ l ∈ child.leaves, l.2.tag ≠ "logitem" ∧ l.2.tag ≠ "contributor")
    (item : RawLogItem) :
    child.events.foldlM (Decoder.read intoEvent consume) (⟨some item, none, false, total⟩, s)
      = .ok (⟨some (child.leaves.foldl (applyLeaf lastText) item), none, false, total⟩, s) := by
  cases child with
  | leaf l =>
    have htag := hleaves (false, l) (List.mem_singleton.mpr rfl)
    exact foldlM_read_leaf htag.1 htag.2
  | contributor leaves =>
    have hleaves (l : Leaf) (hl : l ∈ leaves) := hleaves (true, l) (List.mem_map_of_mem hl)
    show List.foldlM (Decoder.read intoEvent consume) (⟨some item, none, true, total⟩, s)
      (leaves.flatMap Leaf.events ++ [.stop "contributor"]) = _
    rw [List.foldlM_append, foldlM_read_leaves hleaves]
    rfl
  | between piece =>
    show List.foldlM (Decoder.read intoEvent consume) _ piece.event.toList = _
    cases hevent : piece.event with
    | none => rfl
    | some event =>
      show List.foldlM (Decoder.read intoEvent consume) _ [event] = _
      rw [List.foldlM_cons, read_content rfl hevent]
      rfl
  | other => rfl

theorem foldlM_read_children {total : ℕ} {s : σ} {children : List Child}
    (hleaves : ∀ l ∈ children.flatMap Child.leaves,
      l.2.tag ≠ "logitem" ∧ l.2.tag ≠ "contributor") (item : RawLogItem) :
    (children.flatMap Child.events).foldlM (Decoder.read intoEvent consume)
        (⟨some item, none, false, total⟩, s)
      = .ok (⟨some ((children.flatMap Child.leaves).foldl (applyLeaf lastText) item), none,
          false, total⟩, s) := by
  induction children generalizing item with
  | nil => rfl
  | cons child children ih =>
    rw [List.flatMap_cons] at hleaves
    rw [List.flatMap_cons, List.foldlM_append,
      foldlM_read_child fun l hl => hleaves l (List.mem_append_left _ hl), List.flatMap_cons,
      List.foldl_append]
    exact ih (fun l hl => hleaves l (List.mem_append_right _ hl)) _

end Run

/-! ## The record of an item -/

theorem RawLogItem.ext_get {a b : RawLogItem} (h : ∀ slot, a.get slot = b.get slot) : a = b := by
  have htext : Function.Injective (Option.map (Sum.inl : String → String ⊕ ℤ)) :=
    Option.map_injective Sum.inl_injective
  have hnumber : Function.Injective (Option.map (Sum.inr : ℤ → String ⊕ ℤ)) :=
    Option.map_injective Sum.inr_injective
  cases a
  cases b
  simp only [RawLogItem.mk.injEq]
  exact ⟨htext (h .logType), htext (h .logAction), hnumber (h .logId), htext (h .timestamp),
    htext (h .contributorName), hnumber (h .contributorId), htext (h .logTitle),
    htext (h .params)⟩

theorem RawLogItem.get_set (item : RawLogItem) (value : String) (slot slot' : Slot) :
    (item.set value slot).get slot' = if slot = slot' then slot.read value else item.get slot' := by
  cases slot <;> cases slot' <;> rfl

theorem get_applyDecodedText (item : RawLogItem) (l : Bool × Leaf) (value : String) (slot : Slot) :
    (applyDecodedText item l.2.tag l.1 value).get slot
      = if fieldOf l = some slot then slot.read value else item.get slot := by
  rw [applyDecodedText_eq]
  unfold fieldOf
  cases slotOf l.1 l.2.tag with
  | none => rw [if_neg (by simp)]; rfl
  | some written =>
    refine (RawLogItem.get_set item value written slot).trans ?_
    by_cases heq : written = slot
    · rw [if_pos heq, if_pos (congrArg some heq), heq]
    · rw [if_neg heq, if_neg fun h => heq (Option.some.inj h)]

/-- What the field of an element holds after it. -/
theorem get_applyLeaf (content : List Piece → Option String) {item : RawLogItem}
    (l : Bool × Leaf) {slot : Slot} (hnone : item.get slot = none) :
    (applyLeaf content item l).get slot
      = if fieldOf l = some slot then (content l.2.pieces).bind fun value => slot.read value
        else none := by
  unfold applyLeaf
  cases content l.2.pieces with
  | none => rw [hnone]; split <;> rfl
  | some value =>
    dsimp only
    rw [get_applyDecodedText, hnone]
    rfl

/-- The one element that is read into a field decides it. -/
theorem get_foldl_applyLeaf {content : List Piece → Option String} {leaves : List (Bool × Leaf)}
    (honce : (leaves.filterMap fieldOf).Nodup) {item : RawLogItem}
    {slot : Slot} (hnone : item.get slot = none) :
    (leaves.foldl (applyLeaf content) item).get slot
      = (leaves.find? fun l => fieldOf l == some slot).bind fun l =>
          (content l.2.pieces).bind fun value => slot.read value := by
  induction leaves generalizing item with
  | nil => exact hnone
  | cons l leaves ih =>
    have hrest : (leaves.filterMap fieldOf).Nodup :=
      honce.sublist ((List.sublist_cons_self l leaves).filterMap _)
    have hget := get_applyLeaf content l hnone
    by_cases hslot : fieldOf l = some slot
    · rw [if_pos hslot] at hget
      rw [List.foldl_cons, List.find?_cons_of_pos (by simpa using hslot)]
      -- no later element writes the field
      rw [List.filterMap_cons_some hslot] at honce
      have hother : ∀ l' ∈ leaves, fieldOf l' ≠ some slot := fun l' hl' heq =>
        (List.nodup_cons.mp honce).1 (List.mem_filterMap.mpr ⟨l', hl', heq⟩)
      refine Eq.trans ?_ hget
      generalize applyLeaf content item l = start
      clear ih hget hnone honce hrest
      induction leaves generalizing start with
      | nil => rfl
      | cons l' leaves ih =>
        rw [List.foldl_cons, ih (fun l'' hl'' => hother l'' (List.mem_cons_of_mem _ hl''))]
        unfold applyLeaf
        cases content l'.2.pieces with
        | none => rfl
        | some value =>
          exact (get_applyDecodedText ..).trans (if_neg (hother l' (List.mem_cons_self ..)))
    · rw [if_neg hslot] at hget
      rw [List.foldl_cons, ih hrest hget, List.find?_cons_of_neg (by simpa using hslot)]

/-- Where the element of a field stands, and its tag. -/
def Slot.element : Slot → Bool × String
  | .logType => (false, "type")
  | .logAction => (false, "action")
  | .logId => (false, "id")
  | .timestamp => (false, "timestamp")
  | .contributorName => (true, "username")
  | .contributorId => (true, "id")
  | .logTitle => (false, "logtitle")
  | .params => (false, "params")

theorem slotOf_eq_some {tag : String} {slot : Slot} :
    slotOf false tag = some slot ↔ slot.element = (false, tag) := by
  unfold slotOf
  split <;> cases slot <;> simp_all [Slot.element, eq_comm]

theorem fieldOf_eq_some {l : Bool × Leaf} (slot : Slot)
    (hname : l.1 = true → l.2.tag = "username" ∨ l.2.tag = "id" ∨ l.2.tag = "ip") :
    fieldOf l = some slot ↔ slot.element = (l.1, l.2.tag) := by
  obtain ⟨inContributor, tag, pieces⟩ := l
  cases inContributor with
  | false => exact slotOf_eq_some
  | true =>
    show slotOf true tag = some slot ↔ slot.element = (true, tag)
    rcases hname rfl with htag | htag | htag
    · obtain rfl : tag = "username" := htag
      cases slot <;> simp [slotOf, Slot.element]
    · obtain rfl : tag = "id" := htag
      cases slot <;> simp [slotOf, Slot.element]
    · obtain rfl : tag = "ip" := htag
      cases slot <;> simp [slotOf, Slot.element]

theorem LogItem.get_record (content : List Piece → Option String) (item : LogItem) (slot : Slot) :
    (item.record content).get slot
      = (item.data content slot.element.1 slot.element.2).bind fun value => slot.read value := by
  cases slot <;> simp [LogItem.record, RawLogItem.get, Slot.element, Slot.read,
    Option.map_eq_bind, Option.bind_assoc]

/-- Reading the elements of an item one after the other gives its record. -/
theorem LogItem.WellFormed.foldl_applyLeaf {item : LogItem} (h : item.WellFormed)
    (content : List Piece → Option String) :
    item.leaves.foldl (applyLeaf content) {} = item.record content := by
  refine RawLogItem.ext_get fun slot => ?_
  rw [get_foldl_applyLeaf h.once (by cases slot <;> rfl), item.get_record]
  unfold LogItem.data
  have hsame : (item.leaves.find? fun l => fieldOf l == some slot)
      = item.leaves.find? fun l => l.1 == slot.element.1 && l.2.tag == slot.element.2 := by
    rw [← List.head?_filter, ← List.head?_filter]
    refine congrArg List.head? (List.filter_congr fun l hl => ?_)
    have hfield := fieldOf_eq_some slot (h.named l hl).2.2
    rw [Bool.eq_iff_iff]
    simp only [beq_iff_eq, Bool.and_eq_true]
    rw [hfield, Prod.ext_iff]
    exact and_congr eq_comm eq_comm
  rw [hsame, Option.bind_assoc]

/-! ## Whole streams -/

section Streams

variable {σ ε : Type} (intoEvent : RawLogItem → ε) (consume : σ → ε → Except String σ)

/-- One record is counted, then handed on. -/
def emit (state : ℕ × σ) (record : RawLogItem) : Except String (ℕ × σ) := do
  let total ← context (checkedAdd u64Max state.1 1) "logging item count overflow"
  let s ← consume state.2 (intoEvent record)
  return (total, s)

/-- The decoder between two log items. -/
def Decoder.idle (total : ℕ) : Decoder := ⟨none, none, false, total⟩

variable {intoEvent consume}

theorem foldlM_read_item {total : ℕ} {s : σ} {item : LogItem} (h : item.WellFormed) :
    item.events.foldlM (Decoder.read intoEvent consume) (.idle total, s)
      = (emit intoEvent consume (total, s) (item.record lastText)).map fun state =>
          (.idle state.1, state.2) := by
  show List.foldlM (Decoder.read intoEvent consume) (⟨some {}, none, false, total⟩, s)
    (item.children.flatMap Child.events ++ [.stop "logitem"]) = _
  rw [List.foldlM_append,
    foldlM_read_children fun l hl => ⟨(h.named l hl).1, (h.named l hl).2.1⟩]
  have hrecord : (item.children.flatMap Child.leaves).foldl (applyLeaf lastText) {}
      = item.record lastText := h.foldl_applyLeaf lastText
  rw [hrecord]
  show List.foldlM (Decoder.read intoEvent consume) _ [XmlEvent.stop "logitem"] = _
  rw [List.foldlM_cons]
  unfold emit
  simp only [Decoder.read]
  cases context (checkedAdd u64Max total 1) "logging item count overflow" with
  | error e => rfl
  | ok count =>
    cases consume s (intoEvent (item.record lastText)) with
    | error e => rfl
    | ok s' => rfl

theorem foldlM_read_segments {total : ℕ} {s : σ} {segments : List Segment}
    (hitems : ∀ item ∈ segments.filterMap Segment.item?, item.WellFormed)
    (houtside : ∀ event, .outside event ∈ segments → event.isOutside = true) :
    (segments.flatMap Segment.events).foldlM (Decoder.read intoEvent consume) (.idle total, s)
      = (((segments.filterMap Segment.item?).map (LogItem.record lastText)).foldlM
          (emit intoEvent consume) (total, s)).map fun state => (.idle state.1, state.2) := by
  induction segments generalizing total s with
  | nil => rfl
  | cons segment segments ih =>
    rw [List.flatMap_cons, List.foldlM_append]
    have houtside' (event) (h : .outside event ∈ segments) :=
      houtside event (List.mem_cons_of_mem _ h)
    cases segment with
    | item item =>
      have hitem : Segment.item? (.item item) = some item := rfl
      rw [List.filterMap_cons_some hitem] at hitems ⊢
      show (item.events.foldlM _ _ >>= _) = _
      rw [foldlM_read_item (hitems item (List.mem_cons_self ..)), List.map_cons, List.foldlM_cons]
      cases emit intoEvent consume (total, s) (item.record lastText) with
      | error e => rfl
      | ok state => exact ih (fun i hi => hitems i (List.mem_cons_of_mem _ hi)) houtside'
    | outside event =>
      have hnone : Segment.item? (.outside event) = none := rfl
      rw [List.filterMap_cons_none hnone] at hitems ⊢
      have hread : Decoder.read intoEvent consume (.idle total, s) event
          = .ok (.idle total, s) := by
        have hevent := houtside event (List.mem_cons_self ..)
        cases event with
        | start tag =>
          obtain ⟨hitem, hcontributor⟩ : tag ≠ "logitem" ∧ tag ≠ "contributor" := by
            simpa [XmlEvent.isOutside] using hevent
          rw [read_start hitem hcontributor]
          rfl
        | stop tag =>
          obtain ⟨hitem, hcontributor⟩ : tag ≠ "logitem" ∧ tag ≠ "contributor" := by
            simpa [XmlEvent.isOutside] using hevent
          rw [read_stop hitem hcontributor]
          rfl
        | error message => exact absurd hevent (by simp [XmlEvent.isOutside])
        | _ => rfl
      show (List.foldlM _ _ [event] >>= _) = _
      rw [List.foldlM_cons, hread]
      exact ih hitems houtside'

/-- A log item that is not closed hands nothing on. -/
theorem foldlM_read_unclosed {d : Decoder} {s : σ} {events : List XmlEvent}
    (hevents : ∀ event ∈ events, event.isUnclosed = true) :
    ∃ d', events.foldlM (Decoder.read intoEvent consume) (d, s) = .ok (d', s) ∧
      d'.totalLogItems = d.totalLogItems := by
  induction events generalizing d with
  | nil => exact ⟨d, rfl, rfl⟩
  | cons event events ih =>
    have hread : ∃ d', Decoder.read intoEvent consume (d, s) event = .ok (d', s) ∧
        d'.totalLogItems = d.totalLogItems := by
      have hevent := hevents event (List.mem_cons_self ..)
      have htext (value : String) : (d.applyText value).totalLogItems = d.totalLogItems := by
        unfold Decoder.applyText
        split <;> rfl
      cases event with
      | start tag =>
        simp only [Decoder.read]
        split
        · exact ⟨_, rfl, rfl⟩
        · exact ⟨_, rfl, rfl⟩
        · refine ⟨_, rfl, ?_⟩
          split <;> rfl
      | stop tag =>
        simp only [Decoder.read]
        split
        · exact ⟨_, rfl, rfl⟩
        · exact absurd hevent (by simp [XmlEvent.isUnclosed])
        · exact ⟨_, rfl, rfl⟩
      | text value => exact ⟨_, rfl, htext value⟩
      | cdata value => exact ⟨_, rfl, htext value⟩
      | generalRef name => exact ⟨_, rfl, rfl⟩
      | other => exact ⟨_, rfl, rfl⟩
      | error message => exact absurd hevent (by simp [XmlEvent.isUnclosed])
    obtain ⟨d₁, hread, hsame⟩ := hread
    obtain ⟨d₂, hrest, hsame'⟩ := ih (d := d₁) fun e he => hevents e (List.mem_cons_of_mem _ he)
    refine ⟨d₂, ?_, hsame'.trans hsame⟩
    rw [List.foldlM_cons, hread]
    exact hrest

/-- **What the decoder makes of a dump**: each closed item once, in order, as the record of
the last texts of its elements. -/
theorem streamRecords_eq {stream : LogStream} (h : stream.WellFormed) (start : σ) :
    streamRecords intoEvent consume stream.events start
      = ((stream.items.map (LogItem.record lastText)).foldlM (emit intoEvent consume)
          (0, start)).map Prod.swap := by
  unfold streamRecords LogStream.events
  rw [List.foldlM_append]
  have hsegments : List.foldlM (Decoder.read intoEvent consume) (({} : Decoder), start)
      (stream.segments.flatMap Segment.events) = _ := foldlM_read_segments h.items h.outside
  rw [hsegments]
  unfold LogStream.items
  cases List.foldlM (emit intoEvent consume) (0, start)
      ((stream.segments.filterMap Segment.item?).map (LogItem.record lastText)) with
  | error e => rfl
  | ok state =>
    obtain ⟨d, hunclosed, htotal⟩ :=
      @foldlM_read_unclosed _ _ intoEvent consume (.idle state.1) state.2 _ h.unclosed
    show ((List.foldlM _ _ stream.unclosed) >>= _) = _
    rw [hunclosed]
    show Except.ok (state.2, d.totalLogItems) = _
    rw [htotal]
    rfl

/-- Counting fails only past the last count. -/
theorem foldlM_emit {total : ℕ} {s : σ} {records : List RawLogItem}
    (hfits : total + records.length ≤ u64Max) :
    records.foldlM (emit intoEvent consume) (total, s)
      = (((records.map intoEvent).foldlM consume s).map fun s => (total + records.length, s)) := by
  induction records generalizing total s with
  | nil => rfl
  | cons record records ih =>
    rw [List.length_cons] at hfits ⊢
    rw [List.foldlM_cons, List.map_cons, List.foldlM_cons]
    unfold emit
    rw [checkedAdd_eq_some.mpr ⟨by omega, rfl⟩]
    show ((consume s (intoEvent record) >>= _) >>= _) = _
    cases consume s (intoEvent record) with
    | error e => rfl
    | ok s' =>
      show List.foldlM (emit intoEvent consume) (total + 1, s') records = _
      rw [ih (by omega)]
      show _ = ((records.map intoEvent).foldlM consume s').map _
      rw [show total + 1 + records.length = total + (records.length + 1) by omega]

theorem le_of_foldlM_emit {state state' : ℕ × σ} {records : List RawLogItem}
    (h : records.foldlM (emit intoEvent consume) state = .ok state')
    (hstate : state.1 ≤ u64Max) : state'.1 ≤ u64Max ∧ state'.1 = state.1 + records.length := by
  induction records generalizing state with
  | nil =>
    obtain rfl := Except.ok.inj h
    exact ⟨hstate, rfl⟩
  | cons record records ih =>
    rw [List.foldlM_cons] at h
    obtain ⟨state₁, hemit, h⟩ := bind_eq_ok.mp h
    obtain ⟨total, htotal, hemit⟩ := bind_eq_ok.mp hemit
    obtain ⟨s₁, -, hemit⟩ := bind_eq_ok.mp hemit
    obtain rfl := Except.ok.inj hemit
    obtain ⟨hle, rfl⟩ := checkedAdd_eq_some.mp (context_eq_ok.mp htotal)
    obtain ⟨hmax, heq⟩ := ih h hle
    refine ⟨hmax, heq.trans ?_⟩
    rw [List.length_cons]
    omega

end Streams

/-! ## Whole data -/

/-- The last text of an element reads as the whole of its data does. -/
def Whole (l : Bool × Leaf) : Prop :=
  ∀ slot, fieldOf l = some slot →
    ((lastText l.2.pieces).bind fun value => slot.read value)
      = (charData l.2.pieces).bind fun value => slot.read value

/-- Each closed log item of a dump is handed on once, in order, with the whole of its data,
and counted. `streamFile` is the case of `RawLogItem.intoEvent`. -/
def DecodesWhole (stream : LogStream) : Prop :=
  ∀ (σ ε : Type) (intoEvent : RawLogItem → ε) (consume : σ → ε → Except String σ) (start : σ),
    streamRecords intoEvent consume stream.events start
      = ((stream.items.map fun item => intoEvent item.complete).foldlM consume start).map fun s =>
          (s, stream.items.length)

theorem find?_fieldOf {leaves : List (Bool × Leaf)} (honce : (leaves.filterMap fieldOf).Nodup)
    {l : Bool × Leaf} (hl : l ∈ leaves) {slot : Slot} (hslot : fieldOf l = some slot) :
    leaves.find? (fun l => fieldOf l == some slot) = some l := by
  induction leaves with
  | nil => exact absurd hl List.not_mem_nil
  | cons first leaves ih =>
    rcases List.mem_cons.mp hl with rfl | hl
    · exact List.find?_cons_of_pos (by simpa using hslot)
    · have hrest := honce.sublist ((List.sublist_cons_self first leaves).filterMap _)
      rw [List.find?_cons_of_neg, ih hrest hl]
      intro hfirst
      have hfirst : fieldOf first = some slot := by simpa using hfirst
      rw [List.filterMap_cons_some hfirst] at honce
      exact (List.nodup_cons.mp honce).1 (List.mem_filterMap.mpr ⟨l, hl, hslot⟩)

theorem LogItem.WellFormed.get_record {item : LogItem} (h : item.WellFormed)
    (content : List Piece → Option String) (slot : Slot) :
    (item.record content).get slot
      = (item.leaves.find? fun l => fieldOf l == some slot).bind fun l =>
          (content l.2.pieces).bind fun value => slot.read value := by
  rw [← h.foldl_applyLeaf]
  exact get_foldl_applyLeaf h.once (by cases slot <;> rfl)

theorem LogItem.WellFormed.record_eq_iff {item : LogItem} (h : item.WellFormed) :
    item.record lastText = item.complete ↔ ∀ l ∈ item.leaves, Whole l := by
  constructor
  · intro heq l hl slot hslot
    have hget := congrArg (fun record => RawLogItem.get record slot) heq
    unfold LogItem.complete at hget
    simp only [h.get_record, find?_fieldOf h.once hl hslot] at hget
    exact hget
  · intro hwhole
    refine RawLogItem.ext_get fun slot => ?_
    unfold LogItem.complete
    rw [h.get_record, h.get_record]
    cases hfind : item.leaves.find? fun l => fieldOf l == some slot with
    | none => rfl
    | some l =>
      have hslot : fieldOf l = some slot := by simpa using List.find?_some hfind
      exact hwhole l (List.mem_of_find?_eq_some hfind) slot hslot

theorem foldlM_push {α : Type} (l start : List α) :
    l.foldlM (fun s a => (.ok (s ++ [a]) : Except String (List α))) start = .ok (start ++ l) := by
  induction l generalizing start with
  | nil => rw [List.append_nil]; rfl
  | cons a l ih =>
    rw [List.foldlM_cons]
    show List.foldlM _ (start ++ [a]) l = _
    rw [ih, List.append_assoc]
    rfl

/-- **When log items keep their full text**: exactly if the last text of every element reads
as the whole of its data, in a dump whose items can be counted. -/
theorem decodesWhole_iff {stream : LogStream} (h : stream.WellFormed) :
    DecodesWhole stream ↔ stream.items.length ≤ u64Max ∧
      ∀ item ∈ stream.items, ∀ l ∈ item.leaves, Whole l := by
  constructor
  · intro hdecodes
    -- the events themselves, in a list
    have hlist := hdecodes (List RawLogItem) RawLogItem id (fun s e => .ok (s ++ [e])) []
    rw [streamRecords_eq h, foldlM_push, List.nil_append] at hlist
    cases hemit : (stream.items.map (LogItem.record lastText)).foldlM
        (emit id fun s e => .ok (s ++ [e])) (0, ([] : List RawLogItem)) with
    | error e =>
      rw [hemit] at hlist
      exact absurd hlist (by simp [Except.map])
    | ok state =>
      obtain ⟨hle, hcount⟩ := le_of_foldlM_emit hemit (Nat.zero_le _)
      rw [List.length_map, Nat.zero_add] at hcount
      have hfits : stream.items.length ≤ u64Max := hcount ▸ hle
      refine ⟨hfits, fun item hitem => (h.items item hitem).record_eq_iff.mp ?_⟩
      rw [foldlM_emit (by simpa using hfits), foldlM_push, List.map_id] at hlist
      have hrecords := congrArg Prod.fst (Except.ok.inj hlist)
      exact List.map_inj_left.mp hrecords item hitem
  · rintro ⟨hfits, hwhole⟩ σ ε intoEvent consume start
    have hrecords : stream.items.map (LogItem.record lastText) =
      stream.items.map LogItem.complete :=
      List.map_congr_left fun item hitem => (h.items item hitem).record_eq_iff.mpr
        (hwhole item hitem)
    rw [streamRecords_eq h, foldlM_emit (by simpa using hfits), hrecords, List.map_map]
    rw [List.length_map, Nat.zero_add]
    change Except.map Prod.swap (Except.map _
      ((stream.items.map fun item => intoEvent item.complete).foldlM consume start)) = _
    cases (stream.items.map fun item => intoEvent item.complete).foldlM consume start with
    | error e => rfl
    | ok s => rfl

/-- An element that is delivered as one text is whole. -/
theorem charData_text (raw : String) : charData [.text raw] = lastText [.text raw] := by
  have hchars : ((([Piece.text raw].flatMap Piece.chars).dropWhile Prod.snd).rdropWhile
      Prod.snd).map Prod.fst = (raw.toList.dropWhile isXmlSpace).rdropWhile isXmlSpace := by
    simp [Piece.chars, List.rdropWhile, List.dropWhile_map, ← List.map_reverse, Function.comp_def]
  unfold charData lastText
  rw [hchars]
  by_cases hblank : trimText raw = ""
  · have hevent : Piece.event (.text raw) = none := if_pos hblank
    rw [List.filterMap_cons_none hevent]
    rfl
  · have hevent : Piece.event (.text raw) = some (.text (trimText raw)) := if_neg hblank
    rw [List.filterMap_cons_some hevent]
    rfl

/-- An element that is delivered as one CDATA section is whole. -/
theorem charData_cdata (value : String) : charData [.cdata value] = lastText [.cdata value] := by
  have hchars : ((([Piece.cdata value].flatMap Piece.chars).dropWhile Prod.snd).rdropWhile
      Prod.snd).map Prod.fst = value.toList := by
    have hnone : ∀ l : List Char, (l.map fun c => (c, false)).dropWhile Prod.snd
        = l.map fun c => (c, false) := by
      intro l
      cases l <;> rfl
    simp only [Piece.chars, List.flatMap_cons, List.flatMap_nil, List.append_nil, List.rdropWhile,
      hnone, ← List.map_reverse]
    simp [Function.comp_def]
  unfold charData
  rw [hchars]
  simp [lastText, Piece.event, XmlEvent.value]

theorem whole_of_onePiece {l : Bool × Leaf}
    (h : (∃ raw, l.2.pieces = [.text raw]) ∨ ∃ value, l.2.pieces = [.cdata value]) : Whole l := by
  intro slot _
  rcases h with ⟨raw, h⟩ | ⟨value, h⟩
  · rw [h, charData_text]
  · rw [h, charData_cdata]

/-- A change of rights, with a user whose name is delivered as `pieces`. -/
def rightsItem (pieces : List Piece) : LogItem where
  children := [
    .between (.text "\n  "),
    .leaf ⟨"id", [.text "7"]⟩,
    .leaf ⟨"timestamp", [.text "2024-01-02T03:04:05Z"]⟩,
    .contributor [⟨"username", [.text "Admin"]⟩, ⟨"id", [.text "12"]⟩],
    .leaf ⟨"type", [.text "rights"]⟩,
    .leaf ⟨"action", [.text "rights"]⟩,
    .leaf ⟨"logtitle", pieces⟩,
    .leaf ⟨"params", [.text "editor\nsysop"]⟩]

def rightsDump (pieces : List Piece) : LogStream where
  segments := [.outside (.start "mediawiki"), .item (rightsItem pieces),
    .outside (.stop "mediawiki")]
  unclosed := []

theorem eq_of_mem_rightsDump {pieces : List Piece} {item : LogItem}
    (h : item ∈ (rightsDump pieces).items) : item = rightsItem pieces := by
  simpa [rightsDump, LogStream.items, Segment.item?, eq_comm] using h

theorem rightsDump_wellFormed (pieces : List Piece) : (rightsDump pieces).WellFormed where
  items := by
    intro item hitem
    obtain rfl := eq_of_mem_rightsDump hitem
    constructor
    · have hfields : (rightsItem pieces).leaves.filterMap fieldOf = [.logId, .timestamp,
          .contributorName, .contributorId, .logType, .logAction, .logTitle, .params] := rfl
      rw [hfields]
      decide
    · simp [LogItem.leaves, rightsItem, Child.leaves]
  outside := by
    intro event hevent
    rcases List.mem_cons.mp hevent with h | h
    · obtain rfl := Segment.outside.inj h
      rfl
    · obtain rfl : event = .stop "mediawiki" := by simpa using h
      rfl
  unclosed := fun event hevent => absurd hevent List.not_mem_nil

/-- A name in a CDATA section on a line of its own. -/
def indentedName : List Piece := [.text "\n    ", .cdata "User:A&B", .text "\n  "]

theorem decodesWhole_indented : DecodesWhole (rightsDump indentedName) :=
  (decodesWhole_iff (rightsDump_wellFormed _)).mpr ⟨by decide, fun item hitem l hl => by
    obtain rfl := eq_of_mem_rightsDump hitem
    have hleaf : ∀ l ∈ (rightsItem indentedName).leaves,
        (∃ raw, l.2.pieces = [.text raw]) ∨ l.2.pieces = indentedName := by
      simp [LogItem.leaves, rightsItem, Child.leaves]
    rcases hleaf l hl with hone | hindented
    · exact whole_of_onePiece (Or.inl hone)
    · intro slot _
      have hname : lastText indentedName = charData indentedName := by decide +kernel
      rw [hindented, hname]⟩

def nothingCaptured : Captures := ⟨fun _ => none, fun _ => [], fun _ => []⟩

/-- The text after an ampersand replaces the text before it: the right of `A&B` goes to `B`. -/
theorem ampersand_lost :
    ¬ DecodesWhole (rightsDump [.text "User:A", .ref "amp", .text "B"]) ∧
    streamFile nothingCaptured (fun s e => .ok (s ++ [e]))
        (rightsDump [.text "User:A", .ref "amp", .text "B"]).events []
      = .ok ([.rights ⟨"2024-01-02 03:04:05", "B", "editor", "sysop"⟩], 1) ∧
    (rightsItem [.text "User:A", .ref "amp", .text "B"]).complete.intoEvent nothingCaptured
      = .rights ⟨"2024-01-02 03:04:05", "A&B", "editor", "sysop"⟩ := by
  refine ⟨fun h => ?_, by decide +kernel, by decide +kernel⟩
  have hlist := h (List RawLogItem) RawLogItem id (fun s e => .ok (s ++ [e])) []
  exact absurd hlist (by decide +kernel)

end WikiEcon.Patrol
