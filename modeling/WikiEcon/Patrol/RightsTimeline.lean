import WikiEcon.Lib.Spans
import WikiEcon.Lib.Transition
import WikiEcon.Patrol.Rights

/-!
# Rights month by month

Reading a rights log one month at a time, with the users carried over and sometimes
restored from a checkpoint, gives at every second of every month what reading the
whole log gives. A user's changes are those of a switch (`Spans`), and what is carried
is whether the switch is on: `grantedBefore`.
-/

namespace WikiEcon.Patrol

open Compute Fallible Transition

/-! ## Months as ranges of seconds -/

/-- The number of a month among all months. -/
def monthNumber (m : YearMonth) : ℤ := Civil.monthIndex m.year m.month

def monthStart (m : YearMonth) : ℤ := Civil.monthStart (monthNumber m)
def monthEnd (m : YearMonth) : ℤ := Civil.monthStart (monthNumber m + 1)

theorem monthNumber_lt {a b : YearMonth} : monthNumber a < monthNumber b ↔ a < b := by
  rw [YearMonth.lt_iff]
  have ha := a.month_pos
  have hb := b.month_pos
  have ha' := a.month_le
  have hb' := b.month_le
  unfold monthNumber Civil.monthIndex YearMonth.key
  omega

theorem monthEnd_le_monthStart {a b : YearMonth} (h : a < b) : monthEnd a ≤ monthStart b :=
  Civil.monthStart_le (Int.add_one_le_of_lt (monthNumber_lt.mpr h))

theorem monthStart_lt_monthEnd (m : YearMonth) : monthStart m < monthEnd m :=
  Civil.monthStart_lt (Int.lt_succ _)

theorem key_tdiv (m : YearMonth) : m.key.tdiv 100 = m.year := by
  have hle := m.month_le
  rw [Int.tdiv_eq_ediv_of_nonneg (by unfold YearMonth.key; omega)]
  unfold YearMonth.key
  omega

theorem key_tmod (m : YearMonth) : m.key.tmod 100 = m.month := by
  have hle := m.month_le
  rw [Int.tmod_eq_emod_of_nonneg (by unfold YearMonth.key; omega)]
  unfold YearMonth.key
  omega

theorem toList_monthText (m : YearMonth) :
    (monthText m).toList = (zeroPad 4 m.year).toList ++ '-' :: (zeroPad 2 m.month).toList := by
  unfold monthText formatYearMonth
  rw [key_tdiv, key_tmod, String.toList_append, String.toList_append, List.append_assoc]
  rfl

theorem isDigit_or_dash_of_mem {m : YearMonth} {c : Char} (h : c ∈ (monthText m).toList) :
    c.isDigit = true ∨ c = '-' := by
  rw [toList_monthText] at h
  rcases List.mem_append.mp h with h | h
  · exact Or.inl (isDigit_of_mem_zeroPad h)
  · rcases List.mem_cons.mp h with h | h
    · exact Or.inr h
    · exact Or.inl (isDigit_of_mem_zeroPad h)

/-- A character that `normalizeTimestamp` leaves alone. -/
def plain (c : Char) : Bool := c ≠ 'T' && c ≠ 'Z' && c ≠ '.'

theorem plain_of_mem {m : YearMonth} {c : Char} (h : c ∈ (monthText m).toList) :
    plain c = true := by
  unfold plain
  rcases isDigit_or_dash_of_mem h with hdigit | rfl
  · have hne : ∀ d : Char, d.isDigit = false → c ≠ d := fun d hd heq => by
      rw [heq, hd] at hdigit
      exact absurd hdigit (by decide)
    simp [hne 'T' (by decide), hne 'Z' (by decide), hne '.' (by decide)]
  · decide

theorem prefix_rdropWhile {p l : List Char} {q : Char → Bool} (h : p <+: l)
    (hp : ∀ c ∈ p, q c = false) : p <+: l.rdropWhile q := by
  obtain ⟨rest, rfl⟩ := h
  induction rest using List.reverseRecOn with
  | nil =>
    have hself : p.rdropWhile q = p := by
      refine List.rdropWhile_eq_self_iff.mpr fun hne hlast => ?_
      rw [hp _ (List.getLast_mem hne)] at hlast
      exact absurd hlast (by decide)
    rw [List.append_nil]
    exact ⟨[], by rw [List.append_nil, hself]⟩
  | append_singleton rest c ih =>
    rw [← List.append_assoc]
    by_cases hc : q c = true
    · rw [List.rdropWhile_concat_pos _ _ _ hc]
      exact ih
    · rw [List.rdropWhile_concat_neg _ _ _ hc, List.append_assoc]
      exact List.prefix_append ..

theorem prefix_normalizeTimestamp {p : List Char} {text : String} (h : p <+: text.toList)
    (hp : ∀ c ∈ p, plain c = true) : p <+: (normalizeTimestamp text).toList := by
  have hplain : ∀ c ∈ p, c ≠ 'T' ∧ c ≠ 'Z' ∧ c ≠ '.' := fun c hc => by
    have hc := hp c hc
    simpa [plain, and_assoc] using hc
  have hspaced : p <+: text.toList.map fun c => if c = 'T' then ' ' else c := by
    obtain ⟨rest, hrest⟩ := h
    rw [← hrest, List.map_append, List.map_congr_left fun c hc => if_neg (hplain c hc).1,
      List.map_id']
    exact List.prefix_append ..
  obtain ⟨rest, hrest⟩ := prefix_rdropWhile hspaced fun c hc => decide_eq_false (hplain c hc).2.1
  unfold normalizeTimestamp
  dsimp only
  rw [String.toList_ofList, ← hrest,
    List.takeWhile_append_of_pos fun c hc => decide_eq_true (hplain c hc).2.2]
  exact List.prefix_append ..

/-- A text of plain characters is left as it is. -/
theorem normalizeTimestamp_of_plain {text : String} (h : ∀ c ∈ text.toList, plain c = true) :
    normalizeTimestamp text = text := by
  have hpre := prefix_normalizeTimestamp (List.prefix_refl text.toList) h
  have hlen : (normalizeTimestamp text).toList.length ≤ text.toList.length := by
    unfold normalizeTimestamp
    dsimp only
    rw [String.toList_ofList]
    refine (List.takeWhile_sublist _).length_le.trans ?_
    exact (List.rdropWhile_prefix _ _).length_le.trans (List.length_map ..).le
  exact String.toList_inj.mp (hpre.eq_of_length_le hlen).symm

section Reading

variable (chrono : Chrono)

theorem parseTimestampSeconds_midnight (m : YearMonth) :
    parseTimestampSeconds chrono (monthText m ++ "-01 00:00:00") = some (monthStart m) := by
  have hplain : ∀ c ∈ (monthText m ++ "-01 00:00:00").toList, plain c = true := by
    intro c hc
    rw [String.toList_append] at hc
    rcases List.mem_append.mp hc with hc | hc
    · exact plain_of_mem hc
    · exact List.all_eq_true.mp (show ("-01 00:00:00".toList.all plain) = true by decide) c hc
  unfold parseTimestampSeconds
  rw [normalizeTimestamp_of_plain hplain, chrono.midnight]
  exact congrArg some (Civil.timestamp_firstOf m.month_pos m.month_le)

/-- The seconds of a text that starts with a month lie in the month. -/
theorem parseTimestampSeconds_mem {m : YearMonth} {text : String} {seconds : ℤ}
    (hmonth : startsWith text (monthText m) = true)
    (h : parseTimestampSeconds chrono text = some seconds) :
    monthStart m ≤ seconds ∧ seconds < monthEnd m := by
  obtain ⟨t, ht, rfl⟩ := Option.map_eq_some_iff.mp h
  have hstart : startsWith (normalizeTimestamp text) (monthText m) = true :=
    List.isPrefixOf_iff_prefix.mpr (prefix_normalizeTimestamp
      (List.isPrefixOf_iff_prefix.mp hmonth) fun _ hc => plain_of_mem hc)
  obtain ⟨hyear, hmonth⟩ := chrono.reads m _ t hstart ht
  have hmem := Civil.timestamp_mem t
  rw [hyear, hmonth] at hmem
  exact hmem

/-- The bounds of a month are its first second and that of the next, up to the last
month a four-digit year can name. -/
theorem monthBounds_eq (m : YearMonth) : monthBounds chrono m = .ok (monthStart m, monthEnd m) ∨
    (m.year = 9999 ∧ m.month = 12 ∧ ∃ e, monthBounds chrono m = .error e) := by
  have hpos := m.month_pos
  have hle := m.month_le
  have hlt := m.year_lt
  have hdiv := key_tdiv m
  have hmod := key_tmod m
  -- The next month is reached through a month count, the December of a year included.
  have hshift : ∀ next : ℤ,
    (if m.month = 12 then (m.year + 1) * 100 + 1 else m.key + 1 : ℤ) = next →
      shiftMonthKey m.key 1 = some next := by
    intro next hnext
    have hnat : (m.year * 12 + (m.month - 1) + 1 : ℤ) = ((m.year * 12 + m.month : ℕ) : ℤ) := by
      push_cast
      omega
    unfold shiftMonthKey
    dsimp only
    rw [hdiv, hmod, if_pos (by omega), hnat, if_neg (by omega), ← hnext,
      Int.tdiv_eq_ediv_of_nonneg (by omega), Int.tmod_eq_emod_of_nonneg (by omega)]
    refine congrArg some ?_
    unfold YearMonth.key
    split <;> omega
  have hstart := parseTimestampSeconds_midnight chrono m
  by_cases hlast : m.year = 9999 ∧ m.month = 12
  -- The month after 9999-12 has a year of five digits, which is no timestamp.
  · refine Or.inr ⟨hlast.1, hlast.2, ?_⟩
    have hnext : shiftMonthKey m.key 1 = some 1000001 :=
      hshift _ (by rw [if_pos hlast.2, hlast.1]; rfl)
    have hstop : parseTimestampSeconds chrono
      (formatYearMonth 1000001 ++ "-01 00:00:00") = none := by
      have htext : normalizeTimestamp (formatYearMonth 1000001 ++ "-01 00:00:00")
          = "10000-01-01 00:00:00" := by decide
      unfold parseTimestampSeconds
      rw [htext, chrono.unsigned]
      rfl
    unfold monthBounds
    rw [hnext, hstart]
    show ∃ e, (context (parseTimestampSeconds chrono (formatYearMonth 1000001 ++ "-01 00:00:00")) _
      >>= _) = Except.error e
    rw [hstop]
    exact ⟨_, rfl⟩
  · obtain ⟨next, hkey, hnumber⟩ : ∃ next : YearMonth,
        (if m.month = 12 then (m.year + 1) * 100 + 1 else m.key + 1 : ℤ) = next.key ∧
          monthNumber next = monthNumber m + 1 := by
      by_cases hdecember : m.month = 12
      · refine ⟨⟨m.year + 1, 1, by omega, by omega, by omega⟩, ?_, ?_⟩
        · rw [if_pos hdecember]
          unfold YearMonth.key
          push_cast
          omega
        · unfold monthNumber Civil.monthIndex
          push_cast
          omega
      · refine ⟨⟨m.year, m.month + 1, hlt, by omega, by omega⟩, ?_, ?_⟩
        · rw [if_neg hdecember]
          unfold YearMonth.key
          push_cast
          omega
        · unfold monthNumber Civil.monthIndex
          push_cast
          omega
    have hstop := parseTimestampSeconds_midnight chrono next
    unfold monthBounds
    rw [hshift _ hkey, hstart]
    refine Or.inl ?_
    show (context (parseTimestampSeconds chrono (monthText next ++ "-01 00:00:00")) _ >>= _)
      = Except.ok _
    rw [hstop]
    unfold monthEnd
    rw [← hnumber]
    rfl

end Reading

/-! ## The log -/

/-- What a row says, with its user: nothing where the user or a readable timestamp is
missing. -/
def readEvent (chrono : Chrono) (autopatrolGroups : List String) (row : RightsRow) :
    Option (String × MonthEvent) := do
  let username ← row.targetUser
  let timestamp ← row.timestamp.bind (parseTimestampSeconds chrono)
  return (username, ⟨timestamp, hasAny autopatrolGroups row.oldGroups,
    hasAny autopatrolGroups row.newGroups⟩)

/-- Each event finds the membership the event before it left. -/
def Chained : Bool → List MonthEvent → Prop
  | _, [] => True
  | held, event :: rest => event.oldHas = held ∧ Chained event.newHas rest

/-- The events of a user in the log. -/
def logEvents (chrono : Chrono) (autopatrolGroups : List String) (rows : List RightsRow)
    (username : String) : List MonthEvent :=
  eventsOf (rows.filterMap (readEvent chrono autopatrolGroups)) username

/-- A rights log: each user's events are in order and chain, from no right at first. -/
structure RightsLog (chrono : Chrono) (autopatrolGroups : List String) (rows : List RightsRow) :
    Prop where
  readable : ∀ row ∈ rows, (readEvent chrono autopatrolGroups row).isSome = true
  increasing : ∀ username, (logEvents chrono autopatrolGroups rows username).Pairwise
    fun a b => a.timestamp < b.timestamp
  chained : ∀ username, Chained false (logEvents chrono autopatrolGroups rows username)

def rowIn (m : YearMonth) (row : RightsRow) : Bool :=
  row.timestamp.any fun text => startsWith text (monthText m)

/-- The rows of a month's file. -/
def Generation.rowsOf (g : Generation) (m : YearMonth) : List RightsRow :=
  ((g.rightsArtifacts m).map MonthArtifact.rows).getD []

/-- The files of the months hold the rows of the log, each in order, and the timeline
has every month up to its last that has a file. -/
structure Partitioned (g : Generation) (rows : List RightsRow) : Prop where
  sorted : g.timelineMonths.Pairwise (· < ·)
  covers : ∀ row ∈ rows, ∃ m, rowIn m row = true
  month : ∀ m, (g.rowsOf m).Perm (rows.filter (rowIn m))
  ordered : ∀ m, ((g.rowsOf m).filterMap (readEvent g.chrono g.autopatrolGroups)).Pairwise
    fun a b => a.2.timestamp ≤ b.2.timestamp
  timeline : ∀ m, (g.rightsArtifacts m).isSome = true → ∀ last ∈ g.timelineMonths, m ≤ last →
    m ∈ g.timelineMonths

def changes (event : MonthEvent) : Bool := event.oldHas ≠ event.newHas

def changeOf (event : MonthEvent) : ℤ × Bool := (event.timestamp, event.newHas)

/-- The events of a user that change the right. -/
def switchEvents (chrono : Chrono) (autopatrolGroups : List String) (rows : List RightsRow)
    (username : String) : List MonthEvent :=
  (logEvents chrono autopatrolGroups rows username).filter changes

/-- Whether the last change before a second granted the right. -/
def grantedBefore (events : List MonthEvent) (bound : ℤ) : Bool :=
  Spans.stateAfter false ((events.filter fun event => event.timestamp < bound).map changeOf)

/-! ### Chains -/

/-- The membership a list of events leaves. -/
def heldAfter (held : Bool) (events : List MonthEvent) : Bool :=
  Spans.stateAfter held (events.map changeOf)

theorem chained_append {held : Bool} {a b : List MonthEvent} :
    Chained held (a ++ b) ↔ Chained held a ∧ Chained (heldAfter held a) b := by
  induction a generalizing held with
  | nil => exact ⟨fun h => ⟨trivial, h⟩, And.right⟩
  | cons event rest ih =>
    have hheld : heldAfter held (event :: rest) = heldAfter event.newHas rest := by
      unfold heldAfter
      rw [List.map_cons, Spans.stateAfter_cons]
      rfl
    rw [List.cons_append, hheld]
    show event.oldHas = held ∧ Chained event.newHas (rest ++ b) ↔ _
    rw [ih, ← and_assoc]
    rfl

/-- Events that leave the right as it was can be passed over. -/
theorem Chained.filter {held : Bool} {events : List MonthEvent} (h : Chained held events) :
    Chained held (events.filter changes) := by
  induction events generalizing held with
  | nil => trivial
  | cons event rest ih =>
    obtain ⟨hold, hrest⟩ := h
    by_cases hchange : changes event = true
    · rw [List.filter_cons_of_pos hchange]
      exact ⟨hold, ih hrest⟩
    · rw [List.filter_cons_of_neg hchange]
      have hsame : event.newHas = held := by
        rw [← hold]
        by_contra hne
        exact hchange (decide_eq_true (Ne.symm hne))
      exact ih (hsame ▸ hrest)

theorem advanceEvent_eq_turn (start : ℤ) {state : Option ℤ × List (ℤ × Option ℤ)}
    {event : MonthEvent} (hheld : event.oldHas = state.1.isSome) (hchange : changes event = true) :
    advanceEvent start state event = Spans.turn state (changeOf event) := by
  obtain ⟨opened, closed⟩ := state
  obtain ⟨timestamp, oldHas, newHas⟩ := event
  have hne : oldHas ≠ newHas := of_decide_eq_true hchange
  cases opened <;> cases newHas <;> simp_all [advanceEvent, closeInterval, Spans.turn, changeOf]

theorem foldl_advanceEvent (start : ℤ) {events : List MonthEvent} {opened : Option ℤ}
    {closed : List (ℤ × Option ℤ)} (h : Chained opened.isSome events)
    (hchange : ∀ event ∈ events, changes event = true) :
    events.foldl (advanceEvent start) (opened, closed)
      = (events.map changeOf).foldl Spans.turn (opened, closed) := by
  induction events generalizing opened closed with
  | nil => rfl
  | cons event rest ih =>
    obtain ⟨hold, hrest⟩ := h
    rw [List.foldl_cons, List.map_cons, List.foldl_cons,
      advanceEvent_eq_turn start hold (hchange event List.mem_cons_self)]
    have hstate : (Spans.turn (opened, closed) (changeOf event)).1.isSome = event.newHas := by
      obtain ⟨timestamp, oldHas, newHas⟩ := event
      cases opened <;> cases newHas <;> rfl
    exact ih (hstate ▸ hrest) fun next hnext => hchange next (List.mem_cons_of_mem _ hnext)

theorem buildStep_eq_turn : buildStep = Spans.turn := by
  funext state change
  obtain ⟨opened, closed⟩ := state
  obtain ⟨timestamp, on⟩ := change
  cases opened <;> cases on <;> rfl

/-- Events in order are those before a second and then those from it on. -/
theorem filter_lt_append {events : List MonthEvent}
    (h : events.Pairwise fun a b => a.timestamp < b.timestamp) (bound : ℤ) :
    events.filter (fun event => event.timestamp < bound)
      ++ events.filter (fun event => bound ≤ event.timestamp) = events := by
  induction events with
  | nil => rfl
  | cons event rest ih =>
    obtain ⟨hfirst, hrest⟩ := List.pairwise_cons.mp h
    by_cases hlt : event.timestamp < bound
    · rw [List.filter_cons_of_pos (by simpa using hlt),
        List.filter_cons_of_neg (by simpa using hlt),
        List.cons_append, ih hrest]
    · have hnone : (event :: rest).filter (fun event => event.timestamp < bound) = [] := by
        refine List.filter_eq_nil_iff.mpr fun next hnext hbefore => hlt ?_
        rcases List.mem_cons.mp hnext with rfl | hnext
        · exact of_decide_eq_true hbefore
        · exact (hfirst next hnext).trans (of_decide_eq_true hbefore)
      rw [hnone, List.nil_append, List.filter_eq_self]
      intro next hnext
      rcases List.mem_cons.mp hnext with rfl | hnext
      · exact decide_eq_true (not_lt.mp hlt)
      · exact decide_eq_true ((not_lt.mp hlt).trans (hfirst next hnext).le)

/-! ## One month -/

section Month

variable {chrono : Chrono} {groups : List String} {m : YearMonth}

/-- A month's rows are read if they belong to it, are readable and are in order. -/
theorem foldlM_readRow {rows : List RightsRow} (read : MonthRead)
    (hrows : ∀ row ∈ rows, rowIn m row = true ∧ (readEvent chrono groups row).isSome = true)
    (hordered : (rows.filterMap (readEvent chrono groups)).Pairwise
      fun a b => a.2.timestamp ≤ b.2.timestamp)
    (hprevious : ∀ previous ∈ read.previousTimestamp,
      ∀ event ∈ rows.filterMap (readEvent chrono groups), previous ≤ event.2.timestamp) :
    ∃ previous, rows.foldlM (readRow chrono m groups) read = .ok ⟨previous,
      read.events ++ (rows.filterMap (readEvent chrono groups)).filter fun e => changes e.2⟩ := by
  induction rows generalizing read with
  | nil => exact ⟨read.previousTimestamp, by
      rw [List.filterMap_nil, List.filter_nil, List.append_nil]; rfl⟩
  | cons row rest ih =>
    obtain ⟨hin, hreadable⟩ := hrows row List.mem_cons_self
    obtain ⟨event, hevent⟩ := Option.isSome_iff_exists.mp hreadable
    have hcons : (row :: rest).filterMap (readEvent chrono groups)
        = event :: rest.filterMap (readEvent chrono groups) := List.filterMap_cons_some hevent
    rw [hcons] at hordered hprevious ⊢
    obtain ⟨hfirst, hrest⟩ := List.pairwise_cons.mp hordered
    obtain ⟨username, huser, hevent⟩ := Option.bind_eq_some_iff.mp hevent
    obtain ⟨timestamp, htimestamp, hevent⟩ := Option.bind_eq_some_iff.mp hevent
    obtain ⟨text, htext, hparse⟩ := Option.bind_eq_some_iff.mp htimestamp
    obtain rfl := Option.some.inj hevent
    have hstart : startsWith text (monthText m) = true := by
      unfold rowIn at hin
      rw [htext] at hin
      exact hin
    have hall : (read.previousTimestamp.all fun previous => decide (previous ≤ timestamp)) =
      true := by
      cases hlast : read.previousTimestamp with
      | none => rfl
      | some previous => exact decide_eq_true (hprevious previous hlast _ List.mem_cons_self)
    have hrow : readRow chrono m groups read row = .ok ⟨some timestamp,
        if hasAny groups row.oldGroups ≠ hasAny groups row.newGroups then
          read.events ++ [(username, ⟨timestamp, hasAny groups row.oldGroups,
            hasAny groups row.newGroups⟩)]
        else read.events⟩ := by
      refine bind_eq_ok.mpr ⟨text, context_eq_ok.mpr htext, ?_⟩
      refine bind_eq_ok.mpr ⟨(), ensure_eq_ok.mpr hstart, ?_⟩
      refine bind_eq_ok.mpr ⟨timestamp, context_eq_ok.mpr hparse, ?_⟩
      refine bind_eq_ok.mpr ⟨(), ensure_eq_ok.mpr hall, ?_⟩
      exact bind_eq_ok.mpr ⟨username, context_eq_ok.mpr huser, rfl⟩
    rw [List.foldlM_cons, hrow]
    obtain ⟨previous, hread⟩ := ih ⟨some timestamp, _⟩
      (fun next hnext => hrows next (List.mem_cons_of_mem _ hnext)) hrest fun last hlast => by
        obtain rfl := Option.some.inj hlast
        exact hfirst
    refine ⟨previous, hread.trans ?_⟩
    by_cases hchange : hasAny groups row.oldGroups = hasAny groups row.newGroups
    · rw [if_neg (not_not.mpr hchange), List.filter_cons_of_neg (by simpa [changes] using hchange)]
    · rw [if_pos hchange, List.filter_cons_of_pos (by simpa [changes] using hchange),
        List.append_assoc]
      rfl

theorem eventsOf_filter (events : List (String × MonthEvent)) (username : String) :
    eventsOf (events.filter fun e => changes e.2) username
      = (eventsOf events username).filter changes := by
  unfold eventsOf
  rw [List.filter_map, List.filter_filter, List.filter_filter]
  refine congrArg _ (List.filter_congr fun event _ => ?_)
  exact Bool.and_comm ..

/-- Where reading keeps what the filter asks of a row, filtering first is filtering last. -/
theorem filterMap_filter_of {α β : Type} {f : α → Option β} {p : α → Bool} {q : β → Bool}
    {l : List α} (h : ∀ a ∈ l, ∀ b, f a = some b → p a = q b) :
    (l.filter p).filterMap f = (l.filterMap f).filter q := by
  induction l with
  | nil => rfl
  | cons a l ih =>
    have hrest := ih fun a ha => h a (List.mem_cons_of_mem _ ha)
    cases hfa : f a with
    | none =>
      rw [List.filterMap_cons_none hfa, ← hrest]
      by_cases hp : p a = true
      · rw [List.filter_cons_of_pos hp, List.filterMap_cons_none hfa]
      · rw [List.filter_cons_of_neg hp]
    | some b =>
      have heq := h a List.mem_cons_self b hfa
      rw [List.filterMap_cons_some hfa]
      by_cases hp : p a = true
      · rw [List.filter_cons_of_pos hp, List.filterMap_cons_some hfa,
          List.filter_cons_of_pos (heq ▸ hp), hrest]
      · rw [List.filter_cons_of_neg hp, List.filter_cons_of_neg (heq ▸ hp), hrest]

end Month

/-- Whether a second lies in a month. -/
def inRange (m : YearMonth) (event : MonthEvent) : Bool :=
  monthStart m ≤ event.timestamp && event.timestamp < monthEnd m

section Parts

variable {g : Generation} {rows : List RightsRow}

/-- A row is of one month. -/
theorem rowIn_unique {row : RightsRow} {read : String × MonthEvent}
    (hread : readEvent g.chrono g.autopatrolGroups row = some read) {a b : YearMonth}
    (ha : rowIn a row = true) (hb : rowIn b row = true) : a = b := by
  obtain ⟨username, -, hread⟩ := Option.bind_eq_some_iff.mp hread
  obtain ⟨timestamp, htimestamp, hread⟩ := Option.bind_eq_some_iff.mp hread
  obtain ⟨text, htext, hparse⟩ := Option.bind_eq_some_iff.mp htimestamp
  unfold rowIn at ha hb
  rw [htext] at ha hb
  obtain ⟨hstartA, hendA⟩ := parseTimestampSeconds_mem g.chrono ha hparse
  obtain ⟨hstartB, hendB⟩ := parseTimestampSeconds_mem g.chrono hb hparse
  rcases lt_trichotomy a b with hlt | rfl | hlt
  · exact absurd ((monthEnd_le_monthStart hlt).trans hstartB) (not_le.mpr hendA)
  · rfl
  · exact absurd ((monthEnd_le_monthStart hlt).trans hstartA) (not_le.mpr hendB)

/-- A row is in a month's file exactly when its second lies in the month. -/
theorem rowIn_eq (hpart : Partitioned g rows) {row : RightsRow} (hrow : row ∈ rows)
    {read : String × MonthEvent} (hread : readEvent g.chrono g.autopatrolGroups row = some read)
    (m : YearMonth) : rowIn m row = inRange m read.2 := by
  obtain ⟨username, -, hread⟩ := Option.bind_eq_some_iff.mp hread
  obtain ⟨timestamp, htimestamp, hread⟩ := Option.bind_eq_some_iff.mp hread
  obtain ⟨text, htext, hparse⟩ := Option.bind_eq_some_iff.mp htimestamp
  obtain rfl := Option.some.inj hread
  have hin : ∀ m, rowIn m row = startsWith text (monthText m) := fun m => by
    unfold rowIn
    rw [htext]
    rfl
  rw [Bool.eq_iff_iff]
  unfold inRange
  rw [Bool.and_eq_true, decide_eq_true_eq, decide_eq_true_eq]
  constructor
  · intro hm
    exact parseTimestampSeconds_mem g.chrono (hin m ▸ hm) hparse
  · rintro ⟨hstart, hend⟩
    obtain ⟨own, hown⟩ := hpart.covers row hrow
    obtain ⟨hownStart, hownEnd⟩ := parseTimestampSeconds_mem g.chrono (hin own ▸ hown) hparse
    -- the months of one second are the same
    rcases lt_trichotomy m own with hlt | rfl | hlt
    · exact absurd ((monthEnd_le_monthStart hlt).trans hownStart) (not_le.mpr hend)
    · exact hown
    · exact absurd ((monthEnd_le_monthStart hlt).trans hstart) (not_le.mpr hownEnd)

/-- The events of a user in a month's file are those of the log in the month. -/
theorem eventsOf_month (hlog : RightsLog g.chrono g.autopatrolGroups rows)
    (hpart : Partitioned g rows) (m : YearMonth) (username : String) :
    eventsOf ((g.rowsOf m).filterMap (readEvent g.chrono g.autopatrolGroups)) username
      = (logEvents g.chrono g.autopatrolGroups rows username).filter (inRange m) := by
  have hfilter : (rows.filter (rowIn m)).filterMap (readEvent g.chrono g.autopatrolGroups)
      = (rows.filterMap (readEvent g.chrono g.autopatrolGroups)).filter fun e => inRange m e.2 :=
    filterMap_filter_of fun row hrow read hread => rowIn_eq hpart hrow hread m
  have hevents : eventsOf ((rows.filter (rowIn m)).filterMap
    (readEvent g.chrono g.autopatrolGroups))
      username = (logEvents g.chrono g.autopatrolGroups rows username).filter (inRange m) := by
    rw [hfilter]
    unfold logEvents eventsOf
    rw [List.filter_map, List.filter_filter, List.filter_filter]
    exact congrArg _ (List.filter_congr fun event _ => Bool.and_comm ..)
  have hperm : (eventsOf ((g.rowsOf m).filterMap (readEvent g.chrono g.autopatrolGroups))
    username).Perm
      ((logEvents g.chrono g.autopatrolGroups rows username).filter (inRange m)) := by
    rw [← hevents]
    exact (((hpart.month m).filterMap _).filter _).map _
  have hincreasing := (hlog.increasing username).filter (inRange m)
  have hdistinct : ((eventsOf ((g.rowsOf m).filterMap (readEvent g.chrono g.autopatrolGroups))
      username).map MonthEvent.timestamp).Nodup :=
    (hperm.map _).nodup_iff.mpr (List.pairwise_map.mpr (hincreasing.imp fun h => h.ne))
  have hordered : (eventsOf ((g.rowsOf m).filterMap (readEvent g.chrono g.autopatrolGroups))
      username).Pairwise fun a b => a.timestamp ≤ b.timestamp :=
    List.pairwise_map.mpr ((hpart.ordered m).filter _)
  refine List.Perm.eq_of_pairwise (fun a b _ _ hab hba => absurd hab hba.asymm)
    ((hordered.and (List.pairwise_map.mp hdistinct)).imp fun h => lt_of_le_of_ne h.1 h.2)
    hincreasing hperm

end Parts

/-! ### The users of a month -/

/-- The open interval and the closed ones of a user after the events of the month. -/
def userWalk (start : ℤ) (events : List (String × MonthEvent)) (held : Bool) (username : String) :
    Option ℤ × List (ℤ × Option ℤ) :=
  (eventsOf events username).foldl (advanceEvent start) (if held then some start else none, [])

/-- A turn of the loop is about its user only. -/
theorem foldl_advanceUser (start stop : ℤ) (events : List (String × MonthEvent))
    {users : List String} (hnodup : users.Nodup) (state : Finset String × AutopatrolIntervals)
    (username : String) :
    (username ∉ users →
        (username ∈ (users.foldl (advanceUser start stop events) state).1 ↔ username ∈ state.1) ∧
        (users.foldl (advanceUser start stop events) state).2 username = state.2 username) ∧
      (username ∈ users →
        (username ∈ (users.foldl (advanceUser start stop events) state).1 ↔
          (userWalk start events (username ∈ state.1) username).1.isSome = true) ∧
        (users.foldl (advanceUser start stop events) state).2 username
          = (Spans.finish (userWalk start events (username ∈ state.1) username)).filter
            (inMonth start stop)) := by
  induction users generalizing state with
  | nil => exact ⟨fun _ => ⟨Iff.rfl, rfl⟩, fun h => absurd h List.not_mem_nil⟩
  | cons first rest ih =>
    obtain ⟨hfirst, hrest⟩ := List.nodup_cons.mp hnodup
    have hopened : (if decide (first ∈ state.1) = true then some start else none)
        = if first ∈ state.1 then some start else none := by simp
    have hstep : advanceUser start stop events state first
        = (if (userWalk start events (first ∈ state.1) first).1.isSome then insert first state.1
            else state.1.erase first,
          Function.update state.2 first ((Spans.finish
            (userWalk start events (first ∈ state.1) first)).filter (inMonth start stop))) := by
      unfold userWalk
      rw [hopened]
      rfl
    rw [List.foldl_cons, hstep]
    generalize hspans : (Spans.finish (userWalk start events (first ∈ state.1) first)).filter
      (inMonth start stop) = spans
    obtain ⟨hout, hin⟩ := ih hrest (if (userWalk start events (first ∈ state.1) first).1.isSome
      then insert first state.1 else state.1.erase first, Function.update state.2 first spans)
    -- A user is advanced in one turn, and the other turns leave the user alone.
    by_cases heq : username = first
    · subst heq
      obtain ⟨hactive, hintervals⟩ := hout hfirst
      refine ⟨fun h => absurd List.mem_cons_self h, fun _ =>
        ⟨hactive.trans ?_, hintervals.trans ?_⟩⟩
      · split
        next hsome => simp [hsome]
        next hnone => simp [hnone]
      · rw [hspans]
        exact Function.update_self ..
    · have hmem : username ∈ (if (userWalk start events (first ∈ state.1) first).1.isSome
          then insert first state.1 else state.1.erase first) ↔ username ∈ state.1 := by
        split <;> simp [heq]
      have hupdate : Function.update state.2 first spans username = state.2 username :=
        Function.update_of_ne heq ..
      constructor
      · intro hnot
        obtain ⟨hactive, hintervals⟩ := hout fun h => hnot (List.mem_cons_of_mem _ h)
        exact ⟨hactive.trans hmem, hintervals.trans hupdate⟩
      · intro hcons
        obtain ⟨hactive, hintervals⟩ := hin ((List.mem_cons.mp hcons).resolve_left heq)
        have hheld : decide (username ∈ (if (userWalk start events (first ∈ state.1) first).1.isSome
            then insert first state.1 else state.1.erase first)) = decide (username ∈ state.1) :=
          decide_eq_decide.mpr hmem
        dsimp only at hactive hintervals
        rw [hheld] at hactive hintervals
        exact ⟨hactive, hintervals⟩

/-- A month whose rows can be read is one walk for each user, whoever takes part in the
loop. -/
theorem advanceRightsMonth_of_read {chrono : Chrono} {groups : List String} {m : YearMonth}
    {rights : Option (List RightsRow)} {previous : Option ℤ} {events : List (String × MonthEvent)}
    (hbounds : monthBounds chrono m = .ok (monthStart m, monthEnd m))
    (hread : (rights.getD []).foldlM (readRow chrono m groups) ⟨none, []⟩ = .ok ⟨previous, events⟩)
    (active : Finset String) :
    ∃ intervals active', advanceRightsMonth chrono rights m groups active =
      .ok (intervals, active') ∧
      ∀ username, (username ∈ active' ↔
          (userWalk (monthStart m) events (username ∈ active) username).1.isSome = true) ∧
        intervals username = (Spans.finish
          (userWalk (monthStart m) events (username ∈ active) username)).filter
            (inMonth (monthStart m) (monthEnd m)) := by
  let users := (active ∪ (events.map Prod.fst).toFinset).sort (· ≤ ·)
  let result := users.foldl (advanceUser (monthStart m) (monthEnd m) events) (active, noIntervals)
  refine ⟨result.2, result.1, ?_, fun username => ?_⟩
  · refine bind_eq_ok.mpr ⟨_, hbounds, ?_⟩
    exact bind_eq_ok.mpr ⟨_, hread, rfl⟩
  · obtain ⟨hout, hin⟩ := foldl_advanceUser (monthStart m) (monthEnd m) events
      (Finset.sort_nodup _ _ : users.Nodup) (active, noIntervals) username
    by_cases hmem : username ∈ users
    · exact hin hmem
    · -- neither held nor changed: the walk is empty
      obtain ⟨hactive, hintervals⟩ := hout hmem
      rw [Finset.mem_sort, Finset.mem_union, not_or, List.mem_toFinset] at hmem
      have hnone : eventsOf events username = [] := by
        unfold eventsOf
        rw [List.map_eq_nil_iff, List.filter_eq_nil_iff]
        intro event hevent heq
        exact hmem.2 (List.mem_map.mpr ⟨event, hevent, of_decide_eq_true heq⟩)
      unfold userWalk
      rw [hnone, decide_eq_false hmem.1]
      exact ⟨hactive.trans (by simp [hmem.1]), hintervals⟩

/-- The users and their intervals after a month, whoever takes part in the loop. -/
theorem advanceRightsMonth_cases {g : Generation} {rows : List RightsRow}
    (hlog : RightsLog g.chrono g.autopatrolGroups rows) (hpart : Partitioned g rows) (m : YearMonth)
    (active : Finset String) :
    (m.year = 9999 ∧ m.month = 12 ∧ ∃ e, advanceRightsMonth g.chrono
        ((g.rightsArtifacts m).map MonthArtifact.rows) m g.autopatrolGroups active = .error e) ∨
      ∃ intervals active', advanceRightsMonth g.chrono
          ((g.rightsArtifacts m).map MonthArtifact.rows) m g.autopatrolGroups active
          = .ok (intervals, active') ∧
        ∀ username, ∃ walk, walk = ((switchEvents g.chrono g.autopatrolGroups rows username).filter
              (inRange m)).foldl (advanceEvent (monthStart m))
              (if username ∈ active then some (monthStart m) else none, []) ∧
          (username ∈ active' ↔ walk.1.isSome = true) ∧
          intervals username = (Spans.finish walk).filter
            (inMonth (monthStart m) (monthEnd m)) := by
  rcases monthBounds_eq g.chrono m with hbounds | ⟨hyear, hmonth, e, hbounds⟩
  · have hrows : ∀ row ∈ g.rowsOf m, rowIn m row = true ∧
        (readEvent g.chrono g.autopatrolGroups row).isSome = true := fun row hrow => by
      obtain ⟨hmem, hin⟩ := List.mem_filter.mp ((hpart.month m).mem_iff.mp hrow)
      exact ⟨hin, hlog.readable row hmem⟩
    obtain ⟨previous, hread⟩ := foldlM_readRow ⟨none, []⟩ hrows (hpart.ordered m)
      fun _ hnone => absurd hnone (by simp)
    rw [List.nil_append] at hread
    generalize hevents : ((g.rowsOf m).filterMap (readEvent g.chrono g.autopatrolGroups)).filter
      (fun e => changes e.2) = events at hread
    have hof : ∀ username, eventsOf events username
        = (switchEvents g.chrono g.autopatrolGroups rows username).filter (inRange m) := by
      intro username
      rw [← hevents, eventsOf_filter, eventsOf_month hlog hpart]
      unfold switchEvents
      rw [List.filter_filter, List.filter_filter]
      exact List.filter_congr fun event _ => Bool.and_comm ..
    obtain ⟨intervals, active', hok, hwalk⟩ := advanceRightsMonth_of_read hbounds hread active
    refine Or.inr ⟨intervals, active', hok, fun username => ⟨_, rfl, ?_⟩⟩
    obtain ⟨hactive, hintervals⟩ := hwalk username
    unfold userWalk at hactive hintervals
    simp only [decide_eq_true_eq] at hactive hintervals
    rw [← hof]
    exact ⟨hactive, hintervals⟩
  · refine Or.inl ⟨hyear, hmonth, e, ?_⟩
    unfold advanceRightsMonth
    rw [hbounds]
    rfl

/-! ### A month and the whole log -/

section Whole

variable {chrono : Chrono} {groups : List String} {rows : List RightsRow}

theorem switchEvents_increasing (hlog : RightsLog chrono groups rows) (username : String) :
    (switchEvents chrono groups rows username).Pairwise fun a b => a.timestamp < b.timestamp :=
  (hlog.increasing username).filter _

theorem switchEvents_chained (hlog : RightsLog chrono groups rows) (username : String) :
    Chained false (switchEvents chrono groups rows username) := (hlog.chained username).filter

/-- What happened before a second happened before an earlier one, or between the two. -/
theorem filter_before {events : List MonthEvent}
    (h : events.Pairwise fun a b => a.timestamp < b.timestamp) {start stop : ℤ}
    (hle : start ≤ stop) :
    events.filter (fun event => event.timestamp < stop)
      = events.filter (fun event => event.timestamp < start)
        ++ events.filter fun event => start ≤ event.timestamp && event.timestamp < stop := by
  have hsplit := filter_lt_append (h.filter fun event => decide (event.timestamp < stop)) start
  rw [List.filter_filter, List.filter_filter] at hsplit
  rw [← hsplit]
  congr 1
  refine List.filter_congr fun event _ => ?_
  by_cases hlt : event.timestamp < start
  · simp [hlt, hlt.trans_le hle]
  · simp [hlt]

theorem grantedBefore_append {events : List MonthEvent}
    (h : events.Pairwise fun a b => a.timestamp < b.timestamp) {start stop : ℤ}
    (hle : start ≤ stop) :
    grantedBefore events stop = heldAfter (grantedBefore events start)
      (events.filter fun event => start ≤ event.timestamp && event.timestamp < stop) := by
  unfold grantedBefore heldAfter
  rw [filter_before h hle, List.map_append, Spans.stateAfter_append]

/-- The rows that change a right, read for the whole log. -/
theorem filterMap_readChange (rows : List RightsRow) : rows.filterMap (readChange chrono groups)
    = ((rows.filterMap (readEvent chrono groups)).filter fun e => changes e.2).map fun e =>
      (e.1, changeOf e.2) := by
  induction rows with
  | nil => rfl
  | cons row rest ih =>
    have hchange : readChange chrono groups row = ((readEvent chrono groups row).filter
        fun e => changes e.2).map fun e => (e.1, changeOf e.2) := by
      unfold readChange readEvent
      cases row.targetUser with
      | none => rfl
      | some username =>
        cases row.timestamp.bind (parseTimestampSeconds chrono) with
        | none => simp
        | some timestamp =>
          by_cases hsame : hasAny groups row.oldGroups = hasAny groups row.newGroups
          · simp [hsame, changes, Option.filter]
          · simp [hsame, changes, Option.filter, changeOf]
    rw [List.filterMap_cons, List.filterMap_cons, hchange, ih]
    cases readEvent chrono groups row with
    | none => rfl
    | some event =>
      by_cases hevent : changes event.2 = true
      · simp [Option.filter, hevent]
      · simp [Option.filter, hevent]

theorem changesOf_readChange (username : String) :
    changesOf (rows.filterMap (readChange chrono groups)) username
      = (switchEvents chrono groups rows username).map changeOf := by
  unfold switchEvents logEvents
  rw [← eventsOf_filter, filterMap_readChange]
  unfold changesOf eventsOf
  rw [List.filter_map, List.map_map, List.map_map]
  rfl

/-- **The whole log says whether the right was held**: whether the last change granted it. -/
theorem userHasAutopatrolAt_build (hlog : RightsLog chrono groups rows)
    (username : String) (t : ℤ) :
    userHasAutopatrolAt (buildAutopatrolIntervals chrono (some rows) groups) username t
      = grantedBefore (switchEvents chrono groups rows username) (t + 1) := by
  have hbound : ∀ events : List MonthEvent,
      Spans.stateAt false (events.map changeOf) t = grantedBefore events (t + 1) := by
    intro events
    unfold Spans.stateAt grantedBefore
    rw [List.filter_map]
    refine congrArg (fun l => Spans.stateAfter false (l.map changeOf))
      (List.filter_congr fun event _ => ?_)
    exact decide_eq_decide.mpr Int.lt_add_one_iff.symm
  have hincreasing := switchEvents_increasing hlog username
  by_cases hgroups : groups.isEmpty = true
  · -- no group grants the right
    have hnone : switchEvents chrono groups rows username = [] := by
      obtain rfl := List.isEmpty_iff.mp hgroups
      have hany : ∀ value, hasAny [] value = false := fun value =>
        List.any_eq_false.mpr fun _ _ => by simp
      refine List.filter_eq_nil_iff.mpr fun event hevent hchange => ?_
      obtain ⟨read, hread, rfl⟩ := List.mem_map.mp hevent
      obtain ⟨row, -, hrow⟩ := List.mem_filterMap.mp (List.mem_filter.mp hread).1
      obtain ⟨_, -, hrow⟩ := Option.bind_eq_some_iff.mp hrow
      obtain ⟨_, -, hrow⟩ := Option.bind_eq_some_iff.mp hrow
      obtain rfl := Option.some.inj hrow
      simp [changes, hany] at hchange
    show ((if groups.isEmpty then noIntervals else _) username).any _ = _
    rw [if_pos hgroups, hnone]
    rfl
  · have hsorted : ((switchEvents chrono groups rows username).map changeOf).Pairwise
        fun a b => a.1 ≤ b.1 := List.pairwise_map.mpr (hincreasing.imp fun h => h.le)
    have hbuild : buildAutopatrolIntervals chrono (some rows) groups username
        = Spans.layOut none ((switchEvents chrono groups rows username).map changeOf) := by
      show (if groups.isEmpty then noIntervals else _) username = _
      rw [if_neg hgroups, changesOf_readChange]
      unfold buildIntervals Spans.layOut Spans.finish
      dsimp only
      rw [List.Pairwise.insertionSort_eq hsorted, buildStep_eq_turn]
      generalize List.foldl Spans.turn (none, []) _ = walk
      obtain ⟨_ | start, closed⟩ := walk
      · exact (List.append_nil _).symm
      · rfl
    show Spans.covered (buildAutopatrolIntervals chrono (some rows) groups username) t = _
    rw [hbuild, Spans.covered_layOut hsorted (fun _ h => absurd h (by simp))
      (fun _ h => absurd h (by simp))]
    exact hbound _

end Whole

/-- What the intervals and the users of a month are to be, by the whole log. -/
structure Agrees (g : Generation) (rows : List RightsRow) (m : YearMonth) (bounds : ℤ × ℤ)
    (intervals : AutopatrolIntervals) (active : Finset String) : Prop where
  month : monthBounds g.chrono m = .ok bounds
  same : ∀ username t, bounds.1 ≤ t → t < bounds.2 → userHasAutopatrolAt intervals username t
    = userHasAutopatrolAt (buildAutopatrolIntervals g.chrono (some rows) g.autopatrolGroups)
      username t
  /-- Each interval ends before the next one starts. -/
  ordered : ∀ username, Spans.Separate (intervals username)
  disjoint : ∀ username t, (intervals username).Pairwise
    fun a b => ¬ (Spans.covers a t = true ∧ Spans.covers b t = true)
  early : ∀ username, ∀ interval ∈ intervals username, interval.1 < bounds.2
  active : ∀ username, username ∈ active ↔
    ∃ event, ((switchEvents g.chrono g.autopatrolGroups rows username).filter
      fun event => event.timestamp < bounds.2).getLast? = some event ∧ event.newHas = true

section Agreement

variable {g : Generation} {rows : List RightsRow} {m : YearMonth} {active : Finset String}

/-- The users are those who hold the right before a second. -/
def HeldBefore (g : Generation) (rows : List RightsRow) (bound : ℤ) (active : Finset String) :
    Prop :=
  ∀ username, username ∈ active ↔
    grantedBefore (switchEvents g.chrono g.autopatrolGroups rows username) bound = true

theorem grantedBefore_eq_true {events : List MonthEvent} {bound : ℤ} :
    grantedBefore events bound = true ↔ ∃ event,
      (events.filter fun event => event.timestamp < bound).getLast? = some event
        ∧ event.newHas = true := by
  unfold grantedBefore Spans.stateAfter
  rw [List.getLast?_map]
  cases (events.filter fun event => decide (event.timestamp < bound)).getLast? with
  | none => simp
  | some event => simp [changeOf]

/-- **A month read with the right users agrees with the whole log**, and leaves the
right users for the next. -/
theorem advanceRightsMonth_agrees (hlog : RightsLog g.chrono g.autopatrolGroups rows)
    (hpart : Partitioned g rows) (hactive : HeldBefore g rows (monthStart m) active)
    {intervals : AutopatrolIntervals} {active' : Finset String}
    (h : advanceRightsMonth g.chrono ((g.rightsArtifacts m).map MonthArtifact.rows) m
      g.autopatrolGroups active = .ok (intervals, active')) :
    HeldBefore g rows (monthEnd m) active' ∧
      Agrees g rows m (monthStart m, monthEnd m) intervals active' := by
  have hle := (monthStart_lt_monthEnd m).le
  have hwalk : ∀ username, ∃ opened : Option ℤ,
      opened = (if username ∈ active then some (monthStart m) else none) ∧
      opened.isSome = grantedBefore (switchEvents g.chrono g.autopatrolGroups rows username)
        (monthStart m) ∧
      (username ∈ active' ↔ grantedBefore (switchEvents g.chrono g.autopatrolGroups rows username)
        (monthEnd m) = true) ∧
      intervals username = (Spans.layOut opened (((switchEvents g.chrono g.autopatrolGroups rows
        username).filter (inRange m)).map changeOf)).filter
          (inMonth (monthStart m) (monthEnd m)) := by
    intro username
    rcases advanceRightsMonth_cases hlog hpart m active with ⟨-, -, e, he⟩ |
      ⟨intervals', active'', hok, husers⟩
    · exact absurd (he.symm.trans h) (by simp)
    obtain ⟨rfl, rfl⟩ := Prod.mk.inj (Except.ok.inj (hok.symm.trans h))
    obtain ⟨walk, hwalk, hmem, hintervals⟩ := husers username
    have hincreasing := switchEvents_increasing hlog username
    have hheld : (if username ∈ active then some (monthStart m) else none).isSome
        = grantedBefore (switchEvents g.chrono g.autopatrolGroups rows username)
          (monthStart m) := by
      rw [Bool.eq_iff_iff, ← hactive username]
      split
      next hin => simp [hin]
      next hout => simp [hout]
    -- the events of the month chain from what is held at its start
    have hchained : Chained (grantedBefore (switchEvents g.chrono g.autopatrolGroups rows username)
        (monthStart m)) ((switchEvents g.chrono g.autopatrolGroups rows username).filter
          (inRange m)) := by
      have hbefore := switchEvents_chained hlog username
      rw [← filter_lt_append hincreasing (monthEnd m), chained_append,
        filter_before hincreasing hle,
        chained_append] at hbefore
      exact hbefore.1.2
    have hchange : ∀ event ∈ (switchEvents g.chrono g.autopatrolGroups rows username).filter
        (inRange m), changes event = true := fun event hevent =>
      (List.mem_filter.mp (List.mem_filter.mp hevent).1).2
    rw [foldl_advanceEvent (monthStart m) (hheld ▸ hchained) hchange] at hwalk
    refine ⟨_, rfl, hheld, hmem.trans ?_, ?_⟩
    · rw [hwalk, Spans.isSome_foldl_turn, hheld, grantedBefore_append hincreasing hle]
      rfl
    · rw [hintervals, hwalk]
      rfl
  have hheldAfter : HeldBefore g rows (monthEnd m) active' := fun username => by
    obtain ⟨-, -, -, hmem, -⟩ := hwalk username
    exact hmem
  have hsorted : ∀ username, Spans.InOrder (((switchEvents g.chrono g.autopatrolGroups rows
      username).filter (inRange m)).map changeOf) := fun username =>
    List.pairwise_map.mpr (((switchEvents_increasing hlog username).filter _).imp fun h => h.le)
  have hopened : ∀ username, ∀ start ∈ (if username ∈ active then some (monthStart m) else none),
      start = monthStart m := fun username start hstart => by
    split at hstart
    · exact (Option.some.inj hstart).symm
    · exact absurd hstart (by simp)
  have hafter : ∀ username, ∀ start ∈ (if username ∈ active then some (monthStart m) else none),
      ∀ change ∈ ((switchEvents g.chrono g.autopatrolGroups rows username).filter (inRange m)).map
        changeOf, start ≤ change.1 := fun username start hstart change hchange => by
    obtain ⟨event, hevent, rfl⟩ := List.mem_map.mp hchange
    rw [hopened username start hstart]
    exact of_decide_eq_true (Bool.and_eq_true_iff.mp (List.mem_filter.mp hevent).2).1
  have hordered : ∀ username, Spans.Separate (intervals username) := fun username => by
    obtain ⟨opened, rfl, -, -, hintervals⟩ := hwalk username
    rw [hintervals]
    exact (Spans.separate_layOut (hsorted username) (hafter username)).filter _
  have hbounds : monthBounds g.chrono m = .ok (monthStart m, monthEnd m) := by
    rcases monthBounds_eq g.chrono m with hbounds | ⟨-, -, e, hbounds⟩
    · exact hbounds
    · obtain ⟨bounds, hok, -⟩ := bind_eq_ok.mp h
      exact absurd (hbounds.symm.trans hok) (by simp)
  refine ⟨hheldAfter, hbounds, ?_, hordered, fun username t =>
    (hordered username).disjoint t, ?_, ?_⟩
  · intro username t hstart hend
    obtain ⟨opened, rfl, hheld, -, hintervals⟩ := hwalk username
    have hincreasing := switchEvents_increasing hlog username
    have hkeep : ∀ interval, Spans.covers interval t = true →
        inMonth (monthStart m) (monthEnd m) interval = true := by
      rintro ⟨first, last⟩ hcovers
      simp only [Spans.covers, inMonth, Bool.and_eq_true, decide_eq_true_eq] at hcovers ⊢
      refine ⟨by omega, ?_⟩
      cases last with
      | none => rfl
      | some last =>
        have hlast := of_decide_eq_true hcovers.2
        exact Bool.and_eq_true_iff.mpr ⟨decide_eq_true (by omega), decide_eq_true (by omega)⟩
    rw [userHasAutopatrolAt_build hlog]
    show Spans.covered (intervals username) t = _
    rw [hintervals, Spans.covered_filter hkeep, Spans.covered_layOut (hsorted username)
      (hafter username) fun start h => hopened username start h ▸ hstart, hheld,
      grantedBefore_append hincreasing (show monthStart m ≤ t + 1 by omega)]
    unfold Spans.stateAt heldAfter
    rw [List.filter_map, List.filter_filter]
    refine congrArg (fun l => Spans.stateAfter _ (l.map changeOf))
      (List.filter_congr fun event _ => ?_)
    show (decide (event.timestamp ≤ t) && (decide (monthStart m ≤ event.timestamp)
        && decide (event.timestamp < monthEnd m)))
      = (decide (monthStart m ≤ event.timestamp) && decide (event.timestamp < t + 1))
    rw [Bool.eq_iff_iff]
    simp only [Bool.and_eq_true, decide_eq_true_eq]
    omega
  · intro username interval hinterval
    obtain ⟨opened, -, -, -, hintervals⟩ := hwalk username
    rw [hintervals] at hinterval
    exact of_decide_eq_true (Bool.and_eq_true_iff.mp (List.mem_filter.mp hinterval).2).1
  · intro username
    exact (hheldAfter username).trans grantedBefore_eq_true

end Agreement

end WikiEcon.Patrol
