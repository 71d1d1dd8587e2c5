import WikiEcon.Lib.AnyOrder
import WikiEcon.Patrol.AccountCounts

/-!
# Account creations in any order

The maps of the report keep the first name, the least month and the latest transition, and stop
at a conflict. Where the log items agree with each other (`Agreeing`), no order of theirs, of the
revisions or of a hash map shows in the rows (`rows_any_order`).

Without that they can: the name an account is blocked under is the first that its log items
give, and a conflict of two transitions is only seen while no later one is there.
-/

namespace WikiEcon.Patrol

open Std (ExtTreeMap)
open Compute (RowOrder addCount)
open AnyOrder

/-! ## What a log item says -/

/-- What one log item asks of the maps of the report: at most one of them changes, and by a key
and a value that the item alone decides. -/
inductive Update
  | account (userId : ℤ) (month : String) (name : Option String)
  | fallback (logId : ℤ) (month : String) (user : Option String)
  | temporary (month : String)
  | unresolved
  | block (target : String) (transition : AccountBlockTransition)

variable (texts : BlockTexts) (snapshot : String)

/-- The branch of `recordAccountCreationEvent` that a row takes. It depends on the row and the
snapshot, not on what was collected before. -/
def creationUpdate (row : AccountCreationEvent) (month : String) : Option Update :=
  if snapshotContainsCompleteMonth snapshot month = false then none
  else if row.isTemporary then some (.temporary month)
  else match row.targetUserId, row.logId with
    | some userId, _ => some (.account userId month row.targetUser)
    | none, some logId => some (.fallback logId month row.targetUser)
    | none, none => some .unresolved

/-- Reading the item is one thing and storing it another: what cannot be read stops the report
whatever came before. -/
def updateOf : LoggingEvent → Except String (Option Update)
  | .accountCreation row => do
    let month ← loggedMonth row.timestamp "newusers timestamp has no event month"
    return creationUpdate snapshot row month
  | .block event => do
    let parsed ← parseAccountBlockTransition texts snapshot event
    return parsed.map fun (target, transition) => .block target transition
  | _ => return none

/-- What all log items say that can be read. -/
def updates (events : List LoggingEvent) : List Update :=
  events.filterMap fun event => (updateOf texts snapshot event).toOption.join

/-! ## The parts of what is collected -/

def accountPart : Part Collected (ExtTreeMap ℤ String × ExtTreeMap ℤ (String × Bool)) :=
  ⟨fun s => (s.accountNames, s.accounts), fun s p =>
    { s with accountNames := p.1, accounts := p.2 }⟩

def fallbackPart : Part Collected (ExtTreeMap ℤ (String × Bool × Option String)) :=
  ⟨Collected.fallbackAccounts, fun s p => { s with fallbackAccounts := p }⟩

def temporaryPart : Part Collected (ExtTreeMap String ℕ) :=
  ⟨Collected.temporaryByMonth, fun s p => { s with temporaryByMonth := p }⟩

def unresolvedPart : Part Collected ℕ :=
  ⟨Collected.unresolvedPermanent, fun s p => { s with unresolvedPermanent := p }⟩

def blockPart : Part Collected (String → Option AccountBlockTransition) :=
  ⟨Collected.blockTransitions, fun s p => { s with blockTransitions := p }⟩

/-- The two maps of accounts with an id change together, and neither change can fail. -/
def addAccount (userId : ℤ) (month : String) (name : Option String)
    (p : ExtTreeMap ℤ String × ExtTreeMap ℤ (String × Bool)) :
    Except String (ExtTreeMap ℤ String × ExtTreeMap ℤ (String × Bool)) :=
  .ok (firstName userId name p.1, p.2.alter userId fun entry => some (earliestMonth month entry))

/-- An update touches the map it is for and leaves the others (`Part.over`). -/
def Update.apply : Update → Collected → Except String Collected
  | .account userId month name => accountPart.over (addAccount userId month name)
  | .fallback logId month user => fallbackPart.over (recordFallback logId month user)
  | .temporary month => temporaryPart.over fun p =>
    addCount "temporary account month count overflow" p month
  | .unresolved => unresolvedPart.over fun n => .ok (n + 1)
  | .block target transition => blockPart.over fun p =>
    updateNamedBlockTransition p target transition

/-- Items outside the snapshot, and those that say nothing of accounts, change nothing. -/
def applyUpdate (s : Collected) (u : Option Update) : Except String Collected :=
  match u with
  | some u => u.apply s
  | none => .ok s

variable {texts snapshot} {s t : Collected}

/-- `recordEvent` is reading and then storing, so that what follows can swap the second halves of
two items. -/
theorem recordEvent_eq (event : LoggingEvent) : recordEvent texts snapshot s event
    = updateOf texts snapshot event >>= applyUpdate s := by
  cases event with
  | accountCreation row =>
    show recordAccountCreationEvent snapshot s row
      = (loggedMonth row.timestamp "newusers timestamp has no event month" >>= fun month =>
          .ok (creationUpdate snapshot row month)) >>= applyUpdate s
    unfold recordAccountCreationEvent
    cases loggedMonth row.timestamp "newusers timestamp has no event month" with
    | error e => rfl
    | ok month =>
      show (if _ then _ else _) = applyUpdate s (creationUpdate snapshot row month)
      unfold creationUpdate
      split
      · rfl
      · split
        · rfl
        · cases row.targetUserId with
          | some userId => rfl
          | none =>
            cases row.logId with
            | some logId => rfl
            | none => rfl
  | block event =>
    show recordAccountBlockTransition texts snapshot s event
      = (parseAccountBlockTransition texts snapshot event >>= fun parsed =>
          .ok (parsed.map fun (target, transition) => .block target transition)) >>= applyUpdate s
    unfold recordAccountBlockTransition
    cases parseAccountBlockTransition texts snapshot event with
    | error e => rfl
    | ok parsed =>
      cases parsed with
      | none => rfl
      | some p => rfl
  | patrol event => rfl
  | rights event => rfl
  | other logType logAction => rfl

/-! ## Updates that agree -/

/-- One name for each account, and one transition for each place in the log. -/
structure Agreeing (l : List Update) : Prop where
  names : ∀ userId month month' name name', .account userId month (some name) ∈ l →
    .account userId month' (some name') ∈ l → normalizeAccountName name = normalizeAccountName name'
  positions : ∀ target target' transition transition', .block target transition ∈ l →
    .block target' transition' ∈ l → transition.order = transition'.order → transition = transition'

variable {l : List Update}

/-- The transitions that are kept are of the log. -/
def FromLog (l : List Update) (transitions : String → Option AccountBlockTransition) : Prop :=
  ∀ user transition, transitions user = some transition → ∃ target, .block target transition ∈ l

/-- The least of three months does not depend on which two are compared first. -/
theorem earliestMonth_comm (month month' : String) (entry : Option (String × Bool)) :
    earliestMonth month' (some (earliestMonth month entry))
      = earliestMonth month (some (earliestMonth month' entry)) := by
  have hleast : ∀ (month month' : String) (edited : Bool),
      earliestMonth month' (some (month, edited)) = (min month month', edited) := by
    intro month month' edited
    show (if month' < month then (month', edited) else (month, edited)) = _
    split
    next hlt => rw [min_eq_right (le_of_lt hlt)]
    next hlt => rw [min_eq_left (not_lt.mp hlt)]
  cases entry with
  | none =>
    show earliestMonth month' (some (month, false)) = earliestMonth month (some (month', false))
    rw [hleast, hleast, min_comm]
  | some existing =>
    obtain ⟨existing, edited⟩ := existing
    rw [hleast, hleast, hleast, hleast, min_right_comm]

/-- Transitions are ordered by timestamp and id; two of one order must be one transition. -/
theorem laterTransition_comm {a b : AccountBlockTransition} (h : a.order = b.order → a = b)
    (existing : Option AccountBlockTransition) :
    laterTransition b (laterTransition a existing) =
      laterTransition a (laterTransition b existing) := by
  rcases lt_trichotomy a.order b.order with hlt | heq | hlt
  · cases existing with
    | none => simp only [laterTransition, if_pos hlt, if_neg (not_lt_of_gt hlt)]
    | some e =>
      by_cases ha : e.order < a.order
      · simp only [laterTransition, if_pos ha, if_pos hlt, if_pos (ha.trans hlt),
          if_neg (not_lt_of_gt hlt)]
      · by_cases hb : e.order < b.order
        · simp only [laterTransition, if_neg ha, if_pos hb, if_neg (not_lt_of_gt hlt)]
        · simp only [laterTransition, if_neg ha, if_neg hb]
  · rw [h heq]
  · cases existing with
    | none => simp only [laterTransition, if_pos hlt, if_neg (not_lt_of_gt hlt)]
    | some e =>
      by_cases hb : e.order < b.order
      · simp only [laterTransition, if_pos hb, if_pos hlt, if_pos (hb.trans hlt),
          if_neg (not_lt_of_gt hlt)]
      · by_cases ha : e.order < a.order
        · simp only [laterTransition, if_neg hb, if_pos ha, if_neg (not_lt_of_gt hlt)]
        · simp only [laterTransition, if_neg ha, if_neg hb]

/-- Names are kept as they come first, so two items may only be swapped if they give one account
one normalized name. -/
theorem firstName_comm {userId userId' : ℤ} {name name' : Option String}
    (h : userId = userId' → ∀ n n', name = some n → name' = some n' →
      normalizeAccountName n = normalizeAccountName n') (names : ExtTreeMap ℤ String) :
    firstName userId' name' (firstName userId name names)
      = firstName userId name (firstName userId' name' names) := by
  cases name with
  | none => rfl
  | some n =>
    cases name' with
    | none => rfl
    | some n' =>
      refine Grouping.alter_comm fun heq entry => ?_
      cases entry with
      | none => exact congrArg some (h heq n n' rfl rfl)
      | some existing => rfl

/-- What is recorded for a log id, where there may be something already. -/
def fallbackEntry (logId : ℤ) (month : String) (user : Option String) :
    Option (String × Bool × Option String) → Except String (String × Bool × Option String)
  | some existing => do
    ensure (existing.1 = month ∧ existing.2.2 = user)
      ("account-creation log " ++ toString logId ++ " has conflicting target identities")
    return existing
  | none => return (month, false, user)

/-- The fallback map changes at the id of the log item, and nowhere else. -/
theorem recordFallback_eq (logId : ℤ) (month : String) (user : Option String) :
    recordFallback logId month user
      = fun accounts => alterM (fallbackEntry logId month user) accounts logId := by
  funext accounts
  unfold recordFallback alterM
  cases hentry : accounts[logId]? with
  | none => rfl
  | some existing =>
    obtain ⟨existingMonth, edited, existingUser⟩ := existing
    show (ensure _ _ >>= fun _ => .ok accounts) = ((ensure _ _ >>= fun _ => .ok _) >>= fun value =>
      .ok (accounts.insert logId value))
    cases ensure (existingMonth = month ∧ existingUser = user) _ with
    | error e => rfl
    | ok _ =>
      refine congrArg Except.ok (Std.ExtTreeMap.ext_getElem? fun k => ?_)
      rw [Std.ExtTreeMap.getElem?_insert]
      split
      next heq =>
        obtain rfl := Std.LawfulEqCmp.eq_of_compare heq
        exact hentry
      next => rfl

/-- A conflict is seen from either side. -/
theorem fallbackEntry_swap (logId : ℤ) (month month' : String) (user user' : Option String)
    (entry : Option (String × Bool × Option String)) :
    Same (fallbackEntry logId month user entry >>= fun a =>
      fallbackEntry logId month' user' (some a))
      (fallbackEntry logId month' user' entry >>= fun b =>
        fallbackEntry logId month user (some b)) := by
  cases entry with
  | none =>
    show Same (ensure (month = month' ∧ user = user') _ >>= fun _ => .ok (month, false, user))
      (ensure (month' = month ∧ user' = user) _ >>= fun _ => .ok (month', false, user'))
    by_cases heq : month = month' ∧ user = user'
    · obtain ⟨rfl, rfl⟩ := heq
      exact .refl _
    · have hne : ¬ (month' = month ∧ user' = user) := fun h => heq ⟨h.1.symm, h.2.symm⟩
      rw [ensure, ensure, if_neg heq, if_neg hne]
      exact same_error _ _
  | some existing =>
    have hcases : ∀ (month : String) (user : Option String),
        fallbackEntry logId month user (some existing) = .ok existing ∨
          ∃ e, fallbackEntry logId month user (some existing) = .error e := by
      intro month user
      have hentry : fallbackEntry logId month user (some existing)
          = ensure (existing.1 = month ∧ existing.2.2 = user) _ >>= fun _ => .ok existing := rfl
      rw [hentry]
      cases ensure (existing.1 = month ∧ existing.2.2 = user) _ with
      | error e => exact Or.inr ⟨e, rfl⟩
      | ok _ => exact Or.inl rfl
    rcases hcases month user with h | ⟨e, h⟩
    · rcases hcases month' user' with h' | ⟨e', h'⟩
      · rw [h, h']
        show Same (fallbackEntry logId month' user' (some existing))
          (fallbackEntry logId month user (some existing))
        rw [h, h']
        exact .refl _
      · rw [h, h']
        show Same (fallbackEntry logId month' user' (some existing)) _
        rw [h']
        exact .refl _
    · rcases hcases month' user' with h' | ⟨e', h'⟩
      · rw [h, h']
        show Same _ (fallbackEntry logId month user (some existing))
        rw [h]
        exact .refl _
      · rw [h, h']
        exact same_error e e'

/-- Transitions of the log never conflict, so the later one stands. -/
theorem updateNamed_eq (hagree : Agreeing l) {transitions : String → Option AccountBlockTransition}
    (hfrom : FromLog l transitions) {target : String} {transition : AccountBlockTransition}
    (hmem : .block target transition ∈ l) :
    updateNamedBlockTransition transitions target transition
      = .ok (Function.update transitions target
        (laterTransition transition (transitions target))) := by
  unfold updateNamedBlockTransition laterTransition
  cases hexisting : transitions target with
  | none => rfl
  | some existing =>
    obtain ⟨target', hexists⟩ := hfrom target existing hexisting
    have hkeep : Function.update transitions target (some existing) = transitions := by
      rw [← hexisting, Function.update_eq_self]
    dsimp only
    by_cases heq : existing.order = transition.order
    · obtain rfl := hagree.positions _ _ _ _ hexists hmem heq
      rw [if_pos rfl, if_neg (lt_irrefl _), hkeep]
      show (ensure _ _ >>= fun _ => .ok transitions) = _
      rw [show ensure (existing.state = existing.state) _ = .ok () from ensure_eq_ok.mpr rfl]
      rfl
    · rw [if_neg heq]
      by_cases hlt : transition.order < existing.order
      · rw [if_pos hlt, if_neg (not_lt_of_gt hlt), hkeep]
        rfl
      · rw [if_neg hlt, if_pos (lt_of_le_of_ne (not_lt.mp hlt) heq)]
        rfl

/-- A transition that is stored comes from the log itself. -/
theorem FromLog.update {transitions : String → Option AccountBlockTransition}
    (h : FromLog l transitions) {target : String} {transition : AccountBlockTransition}
    (hmem : .block target transition ∈ l) :
    FromLog l (Function.update transitions target
      (laterTransition transition (transitions target))) := by
  intro user found hfound
  by_cases huser : user = target
  · subst huser
    rw [Function.update_self] at hfound
    unfold laterTransition at hfound
    cases hexisting : transitions user with
    | none =>
      rw [hexisting] at hfound
      exact ⟨user, Option.some.inj hfound ▸ hmem⟩
    | some existing =>
      rw [hexisting] at hfound
      dsimp only at hfound
      split at hfound
      · exact ⟨user, Option.some.inj hfound ▸ hmem⟩
      · exact h user found (hexisting.trans hfound)
  · rw [Function.update_of_ne huser] at hfound
    exact h user found hfound

/-- Two creations with an id can be swapped where the log items agree on names. -/
theorem account_swap (hagree : Agreeing l) {userId userId' : ℤ} {month month' : String}
    {name name' : Option String} (hu : .account userId month name ∈ l)
    (hv : .account userId' month' name' ∈ l) (s : Collected) :
    Same (Update.apply (.account userId month name) s >>=
      Update.apply (.account userId' month' name'))
      (Update.apply (.account userId' month' name') s >>=
        Update.apply (.account userId month name)) := by
  refine over_same (p := accountPart) (fun _ _ => rfl) (fun _ _ _ => rfl) ?_
  have hnames : ∀ names, firstName userId' name' (firstName userId name names)
      = firstName userId name (firstName userId' name' names) := by
    refine firstName_comm fun heq n n' hn hn' => ?_
    subst heq hn hn'
    exact hagree.names _ _ _ _ _ hu hv
  have haccounts : ∀ accounts : ExtTreeMap ℤ (String × Bool),
      (accounts.alter userId fun entry => some (earliestMonth month entry)).alter userId'
          (fun entry => some (earliestMonth month' entry))
        = (accounts.alter userId' fun entry => some (earliestMonth month' entry)).alter userId
          fun entry => some (earliestMonth month entry) :=
    fun accounts => Grouping.alter_comm fun _ entry =>
      congrArg some (earliestMonth_comm month month' entry)
  show Same (.ok (_, _)) (.ok (_, _))
  rw [hnames, haccounts]
  exact .refl _

/-- Two creations without an id can be swapped whatever they say: a conflict is one in either
order. -/
theorem fallback_swap (logId logId' : ℤ) (month month' : String) (user user' : Option String)
    (s : Collected) :
    Same (Update.apply (.fallback logId month user) s >>=
      Update.apply (.fallback logId' month' user'))
      (Update.apply (.fallback logId' month' user') s >>=
        Update.apply (.fallback logId month user)) := by
  simp only [Update.apply]
  refine over_same (p := fallbackPart) (fun _ _ => rfl) (fun _ _ _ => rfl) ?_
  rw [recordFallback_eq, recordFallback_eq]
  have hswap : Same (alterM (fallbackEntry logId month user) s.fallbackAccounts logId >>=
    fun accounts =>
        alterM (fallbackEntry logId' month' user') accounts logId')
      (alterM (fallbackEntry logId' month' user') s.fallbackAccounts logId' >>= fun accounts =>
        alterM (fallbackEntry logId month user) accounts logId) := by
    refine alterM_swap fun heq entry => ?_
    subst heq
    exact fallbackEntry_swap ..
  exact hswap

/-- Temporary accounts are only counted, so their order never shows. -/
theorem temporary_swap (month month' : String) (s : Collected) :
    Same (Update.apply (.temporary month) s >>= Update.apply (.temporary month'))
      (Update.apply (.temporary month') s >>= Update.apply (.temporary month)) := by
  simp only [Update.apply]
  refine over_same (p := temporaryPart) (fun _ _ => rfl) (fun _ _ _ => rfl) ?_
  let count : Option ℕ → Except String ℕ := fun entry =>
    context (checkedAdd u32Max (entry.getD 0) 1) "temporary account month count overflow"
  have hswap : Same (alterM count s.temporaryByMonth month >>= fun counts =>
    alterM count counts month')
      (alterM count s.temporaryByMonth month' >>= fun counts => alterM count counts month) :=
    alterM_swap fun _ _ => .refl _
  exact hswap

/-- Two blocks can be swapped where the log items agree on the transition of a timestamp and id.
-/
theorem block_swap (hagree : Agreeing l) {target target' : String}
    {transition transition' : AccountBlockTransition} (hu : .block target transition ∈ l)
    (hv : .block target' transition' ∈ l) {s : Collected} (hs : FromLog l s.blockTransitions) :
    Same (Update.apply (.block target transition) s >>= Update.apply (.block target' transition'))
      (Update.apply (.block target' transition') s >>=
        Update.apply (.block target transition)) := by
  simp only [Update.apply]
  refine over_same (p := blockPart) (fun _ _ => rfl) (fun _ _ _ => rfl) ?_
  show Same (updateNamedBlockTransition s.blockTransitions target transition >>= _)
    (updateNamedBlockTransition s.blockTransitions target' transition' >>= _)
  rw [updateNamed_eq hagree hs hu, updateNamed_eq hagree hs hv]
  show Same (updateNamedBlockTransition _ target' transition')
    (updateNamedBlockTransition _ target transition)
  rw [updateNamed_eq hagree (hs.update hu) hv, updateNamed_eq hagree (hs.update hv) hu]
  refine congrArg (fun transitions => (Except.ok transitions : Except String _).toOption) ?_
  by_cases htarget : target = target'
  · subst htarget
    rw [Function.update_self, Function.update_self, Function.update_idem, Function.update_idem,
      laterTransition_comm (hagree.positions _ _ _ _ hu hv)]
  · rw [Function.update_of_ne (Ne.symm htarget), Function.update_of_ne htarget,
      Function.update_comm htarget]

/-- Two updates come to the same in either order. -/
theorem apply_swap (hagree : Agreeing l) {u v : Update} (hu : u ∈ l) (hv : v ∈ l) {s : Collected}
    (hs : FromLog l s.blockTransitions) :
    Same (u.apply s >>= v.apply) (v.apply s >>= u.apply) := by
  cases u <;> cases v
  case account.account => exact account_swap hagree hu hv s
  case fallback.fallback => exact fallback_swap ..
  case temporary.temporary => exact temporary_swap ..
  case unresolved.unresolved => exact .refl _
  case block.block => exact block_swap hagree hu hv hs
  -- two different parts
  all_goals
    simp only [Update.apply]
    refine over_swap ?_ _ _ s
    exact ⟨fun _ _ => rfl, fun _ _ => rfl, fun _ _ _ => rfl⟩

/-- Any two items can be swapped: those of one map by the lemmas above, those of two because
neither sees what the other changes. -/
theorem recordEvent_swap {events : List LoggingEvent}
    (hagree : Agreeing (updates texts snapshot events))
    {a b : LoggingEvent} (ha : a ∈ events) (hb : b ∈ events) {s : Collected}
    (hs : FromLog (updates texts snapshot events) s.blockTransitions) :
    Swap (recordEvent texts snapshot) s a b := by
  have hmem : ∀ {e u}, e ∈ events → updateOf texts snapshot e = .ok (some u) →
      u ∈ updates texts snapshot events := by
    intro e u he hu
    exact List.mem_filterMap.mpr ⟨e, he, by rw [hu]; rfl⟩
  unfold Swap
  simp only [recordEvent_eq]
  cases hu : updateOf texts snapshot a with
  | error e =>
    cases updateOf texts snapshot b with
    | error e' => exact same_error e e'
    | ok v =>
      show Same (.error e) (applyUpdate s v >>= fun t => .error e)
      cases applyUpdate s v with
      | error e' => exact same_error e e'
      | ok t => exact .refl _
  | ok u =>
    cases hv : updateOf texts snapshot b with
    | error e =>
      show Same (applyUpdate s u >>= fun t => .error e) (.error e)
      cases applyUpdate s u with
      | error e' => exact same_error e' e
      | ok t => exact .refl _
    | ok v =>
      show Same (applyUpdate s u >>= fun t => applyUpdate t v)
        (applyUpdate s v >>= fun t => applyUpdate t u)
      cases u with
      | none =>
        show Same (applyUpdate s v) (applyUpdate s v >>= fun t => .ok t)
        rw [show (applyUpdate s v >>= fun t => .ok t) = applyUpdate s v from bind_pure _]
        exact .refl _
      | some u =>
        cases v with
        | none =>
          show Same (u.apply s >>= fun t => .ok t) (u.apply s)
          rw [show (u.apply s >>= fun t => .ok t) = u.apply s from bind_pure _]
          exact .refl _
        | some v => exact apply_swap hagree (hmem ha hu) (hmem hb hv) hs

/-! ## Collecting in any order -/

/-- What is stored stays part of the log, item after item. -/
theorem recordEvent_fromLog {events : List LoggingEvent}
    (hagree : Agreeing (updates texts snapshot events)) {event : LoggingEvent}
    (hevent : event ∈ events)
    (hs : FromLog (updates texts snapshot events) s.blockTransitions)
    (h : recordEvent texts snapshot s event = .ok t) :
    FromLog (updates texts snapshot events) t.blockTransitions := by
  rw [recordEvent_eq] at h
  obtain ⟨u, hu, happly⟩ := bind_eq_ok.mp h
  cases u with
  | none =>
    obtain rfl := Except.ok.inj happly
    exact hs
  | some u =>
    have hmem : u ∈ updates texts snapshot events :=
      List.mem_filterMap.mpr ⟨event, hevent, by rw [hu]; rfl⟩
    cases u with
    | block target transition =>
      obtain ⟨transitions, hnamed, hset⟩ := bind_eq_ok.mp
        (show (updateNamedBlockTransition s.blockTransitions target transition >>=
          fun transitions =>
          (pure { s with blockTransitions := transitions } : Except String Collected)) =
            .ok t from happly)
      rw [updateNamed_eq hagree hs hmem] at hnamed
      obtain rfl := Except.ok.inj hset
      obtain rfl := Except.ok.inj hnamed
      exact hs.update hmem
    | account userId month name =>
      obtain rfl := Except.ok.inj happly
      exact hs
    | unresolved =>
      obtain rfl := Except.ok.inj happly
      exact hs
    | fallback logId month user =>
      obtain ⟨accounts, -, hset⟩ := bind_eq_ok.mp
        (show (recordFallback logId month user s.fallbackAccounts >>= fun accounts =>
          (pure { s with fallbackAccounts := accounts } : Except String Collected)) =
            .ok t from happly)
      obtain rfl := Except.ok.inj hset
      exact hs
    | temporary month =>
      obtain ⟨counts, -, hset⟩ := bind_eq_ok.mp
        (show (addCount "temporary account month count overflow" s.temporaryByMonth month >>=
          fun counts => (pure { s with temporaryByMonth := counts } : Except String Collected)) =
            .ok t
          from happly)
      obtain rfl := Except.ok.inj hset
      exact hs

/-- However the log items are split over the sources, they are recorded one after the other. -/
theorem collect_eq (sources : List (List LoggingEvent)) :
    collect texts snapshot sources = sources.flatten.foldlM (recordEvent texts snapshot) {} := by
  have hfrom : ∀ s : Collected, sources.foldlM (fun s events =>
      events.foldlM (recordEvent texts snapshot) s) s
        = sources.flatten.foldlM (recordEvent texts snapshot) s := by
    induction sources with
    | nil => intro s; rfl
    | cons events sources ih =>
      intro s
      rw [List.foldlM_cons, List.flatten_cons, List.foldlM_append]
      exact congrArg _ (funext ih)
  exact hfrom {}

theorem fromLog_empty : FromLog l (fun _ => none) := fun _ _ h => by cases h

/-- **The log items can come in any order.** -/
theorem collect_same {sources sources' : List (List LoggingEvent)}
    (hperm : sources.flatten.Perm sources'.flatten)
    (hagree : Agreeing (updates texts snapshot sources.flatten)) :
    Same (collect texts snapshot sources) (collect texts snapshot sources') := by
  rw [collect_eq, collect_eq]
  exact @foldlM_perm _ _ _ _
    (fun s => FromLog (updates texts snapshot sources.flatten) s.blockTransitions) _ _ hperm
    (fun event hevent s t hs h => recordEvent_fromLog hagree hevent hs h)
    (fun a ha b hb s hs => recordEvent_swap hagree ha hb hs) _ fromLog_empty

/-- The transitions of a whole report come from its log items. -/
theorem collect_fromLog {sources : List (List LoggingEvent)}
    (hagree : Agreeing (updates texts snapshot sources.flatten))
    (h : collect texts snapshot sources = .ok s) :
    FromLog (updates texts snapshot sources.flatten) s.blockTransitions := by
  rw [collect_eq] at h
  refine @foldlM_keeps _ _ _ _ (fun s => FromLog (updates texts snapshot sources.flatten)
    s.blockTransitions) _ (fun event hevent s t hs h => recordEvent_fromLog hagree hevent hs h) _ _
    fromLog_empty h

/-! ## Revisions in any order -/

/-- An edit marks the account of the revision as one with edits, if the report has it. -/
def editAccount (accounts : ExtTreeMap ℤ (String × Bool)) (userId : Option ℤ) :
    ExtTreeMap ℤ (String × Bool) :=
  match userId with
  | some userId => accounts.alter userId fun entry => entry.map fun (month, _) => (month, true)
  | none => accounts

/-- The transitions a revision finds for its account. -/
def candidates (transitions : String → Option AccountBlockTransition)
    (accounts : ExtTreeMap ℤ (String × Bool)) (revision : RevisionIdentity) :
    List (ℤ × AccountBlockTransition) :=
  match revision.userId with
  | some userId => if (accounts[userId]?).isSome then
      (revision.names.filterMap (blockTransitionForName transitions)).map fun t =>
        (userId, t) else []
  | none => []

/-- The transitions that the revisions name, each put where its account is. -/
def updateAll (transitions : ℤ → Option AccountBlockTransition)
    (l : List (ℤ × AccountBlockTransition)) :
    ℤ → Option AccountBlockTransition :=
  l.foldl (fun transitions c => updateAccountBlockTransition transitions c.1 c.2) transitions

section Marking

variable {transitions : String → Option AccountBlockTransition} {index : String → List ℤ}

/-- Marking an account neither adds nor removes one, so it does not matter for which others are
found. -/
theorem isSome_editAccount (accounts : ExtTreeMap ℤ (String × Bool)) (edited : Option ℤ)
    (userId : ℤ) :
    ((editAccount accounts edited)[userId]?).isSome = (accounts[userId]?).isSome := by
  cases edited with
  | none => rfl
  | some edited =>
    show ((accounts.alter edited _)[userId]?).isSome = _
    rw [Std.ExtTreeMap.getElem?_alter]
    split
    next heq =>
      obtain rfl := Std.LawfulEqCmp.eq_of_compare heq
      rw [Option.isSome_map]
    next => rfl

/-- A revision does three things to three maps, each of which can be reordered on its own. -/
theorem mark_eq (m : Matched) (revision : RevisionIdentity) : mark transitions index m revision = {
    accounts := editAccount m.accounts revision.userId
    fallbackAccounts := (revision.names.flatMap index).foldl markFallback m.fallbackAccounts
    accountBlockTransitions := updateAll m.accountBlockTransitions
      (candidates transitions m.accounts revision) } := by
  unfold mark candidates
  cases revision.userId with
  | none => rfl
  | some userId =>
    dsimp only
    unfold markAccount
    by_cases hknown : (m.accounts[userId]?).isSome
    · rw [if_pos hknown, if_pos hknown, updateAll, List.foldl_map]
      rfl
    · -- an account the log does not know
      have hsame : editAccount m.accounts (some userId) = m.accounts := by
        refine Std.ExtTreeMap.ext_getElem? fun k => ?_
        show (m.accounts.alter userId _)[k]? = _
        rw [Std.ExtTreeMap.getElem?_alter]
        split
        next heq =>
          obtain rfl := Std.LawfulEqCmp.eq_of_compare heq
          rw [Option.not_isSome_iff_eq_none.mp hknown]
          rfl
        next => rfl
      rw [if_neg hknown, if_neg hknown, hsame]
      rfl

/-- The latest of several transitions of an account does not depend on the order in which they are
compared. -/
theorem updateAll_perm {l l' : List (ℤ × AccountBlockTransition)} (hperm : l.Perm l')
    (hagree : ∀ a ∈ l, ∀ b ∈ l, a.2.order = b.2.order → a.2 = b.2)
    (transitions : ℤ → Option AccountBlockTransition) :
    updateAll transitions l = updateAll transitions l' := by
  refine hperm.foldl_eq' (fun a ha b hb transitions => ?_) transitions
  unfold updateAccountBlockTransition
  by_cases huser : a.1 = b.1
  · rw [huser, Function.update_self, Function.update_self, Function.update_idem,
      Function.update_idem,
      laterTransition_comm (hagree a ha b hb)]
  · rw [Function.update_of_ne (Ne.symm huser), Function.update_of_ne huser,
      Function.update_comm huser]

/-- An account is marked or it is not, however often. -/
theorem markFallback_perm {l l' : List ℤ} (hperm : l.Perm l')
    (accounts : ExtTreeMap ℤ (String × Bool × Option String)) :
    l.foldl markFallback accounts = l'.foldl markFallback accounts := by
  refine hperm.foldl_eq' (fun a _ b _ accounts => ?_) accounts
  exact Grouping.alter_comm fun _ entry => rfl

/-- A name that is looked up finds a transition of the log. -/
theorem blockTransitionForName_fromLog (hfrom : FromLog l transitions) {name : String}
    {transition : AccountBlockTransition}
    (h : blockTransitionForName transitions name = some transition) :
    ∃ target, .block target transition ∈ l := by
  rcases Option.or_eq_some_iff.mp h with h | ⟨-, h⟩
  · exact hfrom _ _ h
  · split at h
    · exact hfrom _ _ h
    · cases h

/-- Two revisions can be swapped: they mark the same accounts, and the transitions they name
agree. -/
theorem mark_comm (hagree : Agreeing l) (hfrom : FromLog l transitions) (m : Matched)
    (a b : RevisionIdentity) : mark transitions index (mark transitions index m a) b
      = mark transitions index (mark transitions index m b) a := by
  -- Marking an account as edited changes nothing that a later revision looks up.
  have hcandidates : ∀ (accounts : ExtTreeMap ℤ (String × Bool)) (edited : Option ℤ)
      (revision : RevisionIdentity), candidates transitions (editAccount accounts edited) revision
        = candidates transitions accounts revision := by
    intro accounts edited revision
    unfold candidates
    cases revision.userId with
    | none => rfl
    | some userId => simp only [isSome_editAccount]
  -- The transitions come from the log, which agrees on each place of it.
  have hlog : ∀ (accounts : ExtTreeMap ℤ (String × Bool)) (revision : RevisionIdentity),
      ∀ c ∈ candidates transitions accounts revision, ∃ target, .block target c.2 ∈ l := by
    intro accounts revision c hc
    unfold candidates at hc
    split at hc
    · split at hc
      · obtain ⟨t, ht, rfl⟩ := List.mem_map.mp hc
        obtain ⟨name, -, hname⟩ := List.mem_filterMap.mp ht
        exact blockTransitionForName_fromLog hfrom hname
      · cases hc
    · cases hc
  simp only [mark_eq, hcandidates, Matched.mk.injEq]
  refine ⟨?_, ?_, ?_⟩
  · cases a.userId with
    | none => rfl
    | some userId =>
      cases b.userId with
      | none => rfl
      | some userId' => exact Grouping.alter_comm fun _ entry => rfl
  · rw [← List.foldl_append, ← List.foldl_append]
    exact markFallback_perm List.perm_append_comm _
  · unfold updateAll
    rw [← List.foldl_append, ← List.foldl_append]
    refine updateAll_perm List.perm_append_comm (fun c hc c' hc' horder => ?_) _
    have hfound : ∀ c ∈ candidates transitions m.accounts a ++ candidates transitions m.accounts b,
        ∃ target, .block target c.2 ∈ l := by
      intro c hc
      rcases List.mem_append.mp hc with hc | hc
      · exact hlog _ _ c hc
      · exact hlog _ _ c hc
    obtain ⟨target, hmem⟩ := hfound c hc
    obtain ⟨target', hmem'⟩ := hfound c' hc'
    exact hagree.positions _ _ _ _ hmem hmem' horder

end Marking

/-! ## Hash maps in any order -/

variable {order order' : RowOrder}

/-- Two hash maps with one content differ in the order of their entries at most. -/
theorem arrange_perm (order order' : RowOrder) {α : Type} (l : List α) :
    (order.arrange l).Perm (order'.arrange l) :=
  (order.perm l).trans (order'.perm l).symm

/-- A name that two fallback accounts share is dropped from the index, whichever comes first. -/
theorem fallbackNameIndex_order (order order' : RowOrder)
    (accounts : ExtTreeMap ℤ (String × Bool × Option String)) :
    fallbackNameIndex order accounts = fallbackNameIndex order' accounts := by
  funext name
  unfold fallbackNameIndex
  have hperm := (arrange_perm order order' accounts.toList).filterMap
    fun entry => if entry.2.2.2 = some name then some entry.1 else none
  refine List.Perm.eq_of_pairwise (fun a b _ _ => le_antisymm)
    (List.pairwise_insertionSort (· ≤ ·) _)
    (List.pairwise_insertionSort (· ≤ ·) _) ?_
  exact (List.perm_insertionSort ..).trans (hperm.trans (List.perm_insertionSort ..).symm)

/-- Transitions are looked up by the names of accounts, of which each has one. -/
theorem namedTransitions_order (order order' : RowOrder) (s : Collected) :
    namedTransitions order s = namedTransitions order' s := by
  unfold namedTransitions
  refine (arrange_perm order order' s.accountNames.toList).foldl_eq'
    (fun a ha b hb transitions => ?_) _
  obtain ⟨userId, name⟩ := a
  obtain ⟨userId', name'⟩ := b
  dsimp only
  cases hname : blockTransitionForName s.blockTransitions name with
  | none => rfl
  | some transition =>
    cases hname' : blockTransitionForName s.blockTransitions name' with
    | none => rfl
    | some transition' =>
      by_cases huser : userId = userId'
      · -- an account has one name
        subst huser
        have ha := Std.ExtTreeMap.mem_toList_iff_getElem?_eq_some.mp ((order.perm _).mem_iff.mp ha)
        have hb := Std.ExtTreeMap.mem_toList_iff_getElem?_eq_some.mp ((order.perm _).mem_iff.mp hb)
        obtain rfl := Option.some.inj (ha.symm.trans hb)
        rw [hname] at hname'
        rw [hname']
      · exact Function.update_comm huser ..

/-- What the revisions find does not depend on their order, nor on that of the hash maps. -/
theorem matchRevisions_same (hagree : Agreeing l) (hfrom : FromLog l s.blockTransitions)
    {revisions revisions' : List RevisionIdentity} (hperm : revisions.Perm revisions') :
    matchRevisions order s revisions = matchRevisions order' s revisions' := by
  unfold matchRevisions
  rw [fallbackNameIndex_order order order', namedTransitions_order order order']
  exact hperm.foldl_eq' (fun a _ b _ m => mark_comm hagree hfrom m a b) _

/-! ## Rows in any order -/

/-- Counting forgets the order of the entries. -/
theorem countsOf_perm {entries entries' : List Entry} (h : entries.Perm entries') (month : String) :
    countsOf entries month = countsOf entries' month := by
  unfold countsOf
  simp only [h.countP_eq]

/-- Whether the entries can be counted does not depend on their order either, so the report stops
in both orders or in neither. -/
theorem Countable.perm {entries entries' : List Entry} (h : entries.Perm entries') :
    Countable entries → Countable entries' := fun hcountable =>
  ⟨fun x hx => hcountable.classified x (h.mem_iff.mpr hx), fun month =>
    h.countP_eq _ ▸ hcountable.fits month⟩

/-- Reordering shows in no row: the entries are counted by month and the months are sorted. -/
theorem monthRows_same (hagree : Agreeing l) (hfrom : FromLog l s.blockTransitions)
    {revisions revisions' : List RevisionIdentity} (hperm : revisions.Perm revisions') :
    Same (monthRows order s revisions) (monthRows order' s revisions') := by
  have hmatched : matchRevisions order' s revisions' = matchRevisions order s revisions :=
    (matchRevisions_same hagree hfrom hperm).symm
  have hentries : (entriesOf order s (matchRevisions order s revisions)).Perm
      (entriesOf order' s (matchRevisions order' s revisions')) := by
    rw [hmatched]
    unfold entriesOf
    exact ((arrange_perm ..).map _).append ((arrange_perm ..).map _)
  rcases monthRows_cases order s revisions rfl with
    ⟨hcount, months, hrows, hsorted, hmem⟩ | ⟨hnot, e, herror⟩
  · rcases monthRows_cases order' s revisions' rfl with
      ⟨-, months', hrows', hsorted', hmem'⟩ | ⟨hnot, -⟩
    · have hmonths : months = months' := by
        refine List.Perm.eq_of_pairwise
          (fun a b _ _ hab hba => absurd hab (not_lt_of_gt hba)) hsorted
          hsorted' ?_
        refine (List.perm_ext_iff_of_nodup (hsorted.imp fun h => ne_of_lt h)
          (hsorted'.imp fun h => ne_of_lt h)).mpr fun month => ?_
        rw [hmem, hmem', (hentries.map Prod.fst).mem_iff]
      rw [hrows, hrows', hmonths]
      refine congrArg (fun rows => (Except.ok rows : Except String _).toOption)
        (List.map_congr_left fun month _ => ?_)
      unfold rowOf
      rw [countsOf_perm hentries]
    · exact absurd (hcount.perm hentries) hnot
  · rcases monthRows_cases order' s revisions' rfl with ⟨hcount, -⟩ | ⟨-, e', herror'⟩
    · exact absurd (hcount.perm hentries.symm) hnot
    · rw [herror, herror']
      exact same_error e e'

/-- **No order shows in the rows.** Where the log items agree with each other, any order of them,
split over any sources, any order of the revisions and any order of the hash maps either all
stop the report or all give the same rows. -/
theorem rows_any_order (wiki : String) {sources sources' : List (List LoggingEvent)}
    {revisions revisions' : List RevisionIdentity}
    (hsources : sources.flatten.Perm sources'.flatten) (hrevisions : revisions.Perm revisions')
    (hagree : Agreeing (updates texts snapshot sources.flatten)) :
    (buildAccountCreationRows texts order wiki snapshot sources revisions).toOption
      = (buildAccountCreationRows texts order' wiki snapshot sources' revisions').toOption := by
  refine Same.bind (collect_same hsources hagree) fun s hs => ?_
  refine (Same.refl _).bind fun _ _ => (Same.refl _).bind fun _ _ => ?_
  exact monthRows_same hagree (collect_fromLog hagree hs) hrevisions

/-- Libraries that find no duration and no address. -/
def plainTexts : BlockTexts := ⟨fun _ => none, fun _ => false⟩

def createdA : LoggingEvent :=
  .accountCreation ⟨some 1, "2024-01-05 00:00:00", some 7, some "A", false⟩

def blockedA : LoggingEvent :=
  .block ⟨"block", some 2, "2024-01-06 00:00:00", some "User:A", none⟩

def byA : RevisionIdentity := ⟨some 7, none, none⟩

def bySomeone : RevisionIdentity := ⟨none, none, none⟩

/-- A creation and a block of one account agree, since they concern two different maps. -/
theorem agreeing_twoItems : Agreeing (updates plainTexts "2024-02" [createdA, blockedA]) := by
  show Agreeing [.account 7 "2024-01" (some "A"),
    .block "A" ⟨"2024-01-06 00:00:00", 2, .indefinite⟩]
  refine ⟨fun userId month month' name name' h h' => ?_,
    fun target target' transition transition' h h' _ => ?_⟩
  · simp only [List.mem_cons, Update.account.injEq, reduceCtorEq, List.not_mem_nil, or_false,
      Option.some.injEq] at h h'
    rw [h.2.2, h'.2.2]
  · simp only [List.mem_cons, Update.block.injEq, reduceCtorEq, List.not_mem_nil, or_false,
      false_or] at h h'
    rw [h.2, h'.2]

theorem rows_any_order_twoItems :
    (buildAccountCreationRows plainTexts .asComputed "testwiki" "2024-02" [[createdA, blockedA]]
        [byA, bySomeone]).toOption
      = (buildAccountCreationRows plainTexts .reversed "testwiki" "2024-02"
        [[blockedA], [createdA]] [bySomeone, byA]).toOption :=
  rows_any_order "testwiki" (List.Perm.swap blockedA createdA []) (List.Perm.swap bySomeone byA [])
    agreeing_twoItems

end WikiEcon.Patrol
