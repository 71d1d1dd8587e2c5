import WikiEcon.Patrol.AccountOrder

/-!
# Whom the account-creation report counts

`rows_count_identities`: a user id is counted once, in the earliest month that the log has for it,
and a log item without a user id once, in its month; an account is one with edits if a revision has
its user id or its name. So the sums over the months are the numbers of identities.

`identified` says what the log items leave in the maps, `accounts_matchRevisions` and
`fallback_matchRevisions` what the revisions mark there; `entriesOf_perm` reads both together.
-/

namespace WikiEcon.Patrol

open Std (ExtTreeMap)
open Compute (RowOrder addCount addCount_tally)
open Grouping

/-! ## Identities -/

def Update.stable? : Update → Option (ℤ × String)
  | .account userId month _ => some (userId, month)
  | _ => none

def Update.fallback? : Update → Option (ℤ × String × Option String)
  | .fallback logId month user => some (logId, month, user)
  | _ => none

def Update.temporary? : Update → Option String
  | .temporary month => some month
  | _ => none

def userIds (us : List Update) : List ℤ := ((us.filterMap Update.stable?).map Prod.fst).dedup

/-- The earliest month that is logged for a user id. -/
def earliest (us : List Update) (userId : ℤ) : Option String :=
  (((us.filterMap Update.stable?).filter fun a => a.1 = userId).map Prod.snd).min?

def logIds (us : List Update) : List ℤ := ((us.filterMap Update.fallback?).map Prod.fst).dedup

/-- The month and the name of a log item without a user id. -/
def loggedAs (us : List Update) (logId : ℤ) : Option (String × Option String) :=
  ((us.filterMap Update.fallback?).find? fun a => a.1 = logId).map Prod.snd

/-- A revision has the user id. -/
def hasEdited (revisions : List RevisionIdentity) (userId : ℤ) : Bool :=
  revisions.any fun revision => revision.userId = some userId

/-- A revision has the name. -/
def nameHasEdited (revisions : List RevisionIdentity) (user : Option String) : Bool :=
  revisions.any fun revision => revision.names.any fun name => user = some name

/-! ## What is collected of them -/

structure Identified (us : List Update) (s : Collected) : Prop where
  accounts : s.accounts = foldBy Prod.fst (fun entry a => earliestMonth a.2 entry)
    (us.filterMap Update.stable?)
  fallback : ∀ logId, s.fallbackAccounts[logId]?
    = (loggedAs us logId).map fun found => (found.1, false, found.2)
  temporary : s.temporaryByMonth = tally (us.filterMap Update.temporary?)

variable {texts : BlockTexts} {snapshot : String} {us : List Update} {s t : Collected}

theorem identified_nil : Identified [] {} :=
  ⟨rfl, fun _ => Std.ExtTreeMap.getElem?_empty, rfl⟩

theorem filterMap_keep {α : Type} {f : Update → Option α} {u : Update} (h : f u = none) :
    (us ++ [u]).filterMap f = us.filterMap f := by
  rw [List.filterMap_append, List.filterMap_cons_none h, List.filterMap_nil, List.append_nil]

theorem filterMap_concat {α : Type} {f : Update → Option α} {u : Update} {a : α}
    (h : f u = some a) :
    (us ++ [u]).filterMap f = us.filterMap f ++ [a] := by
  rw [List.filterMap_append, List.filterMap_cons_some h, List.filterMap_nil]

theorem loggedAs_keep {u : Update} (h : u.fallback? = none) (logId : ℤ) :
    loggedAs (us ++ [u]) logId = loggedAs us logId := by
  unfold loggedAs
  rw [filterMap_keep h]

theorem loggedAs_concat (logId' : ℤ) (month : String) (user : Option String) (logId : ℤ) :
    loggedAs (us ++ [.fallback logId' month user]) logId
      = (loggedAs us logId).or (if logId' = logId then some (month, user) else none) := by
  unfold loggedAs
  rw [filterMap_concat (show Update.fallback? (.fallback logId' month user)
    = some (logId', month, user) from rfl), List.find?_append, Option.map_or]
  refine congrArg _ ?_
  by_cases heq : logId' = logId
  · rw [List.find?_cons_of_pos (by simpa using heq), if_pos heq]
    rfl
  · rw [List.find?_cons_of_neg (by simpa using heq), if_neg heq]
    rfl

theorem Identified.keep (h : Identified us s) {u : Update} (hstable : u.stable? = none)
    (hfallback : u.fallback? = none) (htemporary : u.temporary? = none)
    (haccounts : t.accounts = s.accounts) (hfallbacks : t.fallbackAccounts = s.fallbackAccounts)
    (htemporaries : t.temporaryByMonth = s.temporaryByMonth) : Identified (us ++ [u]) t := by
  refine ⟨?_, fun logId => ?_, ?_⟩
  · rw [filterMap_keep hstable, haccounts, h.accounts]
  · rw [loggedAs_keep hfallback, hfallbacks, h.fallback]
  · rw [filterMap_keep htemporary, htemporaries, h.temporary]

/-- A log item is recorded as what it first said. -/
theorem recordFallback_logged {accounts accounts' : ExtTreeMap ℤ (String × Bool × Option String)}
    (h : ∀ logId, accounts[logId]? = (loggedAs us logId).map fun found => (found.1, false, found.2))
    {logId : ℤ} {month : String} {user : Option String}
    (hrecord : recordFallback logId month user accounts = .ok accounts') (logId' : ℤ) :
    accounts'[logId']? = (loggedAs (us ++ [.fallback logId month user]) logId').map
      fun found => (found.1, false, found.2) := by
  rw [loggedAs_concat]
  unfold recordFallback at hrecord
  cases hlogged : loggedAs us logId with
  | some found =>
    rw [h, hlogged] at hrecord
    obtain ⟨-, -, hsame⟩ := bind_eq_ok.mp
      (show (ensure _ _ >>= fun _ => .ok accounts) = .ok accounts'
      from hrecord)
    obtain rfl := Except.ok.inj hsame
    rw [h]
    by_cases heq : logId = logId'
    · subst heq
      rw [hlogged]
      rfl
    · rw [if_neg heq, Option.or_none]
  | none =>
    rw [h, hlogged] at hrecord
    obtain rfl := Except.ok.inj hrecord
    simp only [Std.ExtTreeMap.getElem?_insert, Std.LawfulEqCmp.compare_eq_iff_eq]
    by_cases heq : logId = logId'
    · subst heq
      rw [if_pos rfl, if_pos rfl, hlogged]
      rfl
    · rw [if_neg heq, if_neg heq, Option.or_none, h]

theorem addCount_eq_ok {message : String} {months : List String} {month : String}
    {counts : ExtTreeMap String ℕ} (h : addCount message (tally months) month = .ok counts) :
    counts = tally (months ++ [month]) := by
  obtain ⟨value, hvalue, hset⟩ := bind_eq_ok.mp
    (show (context (checkedAdd u32Max ((tally months)[month]?.getD 0) 1) message >>= fun value =>
      .ok ((tally months).insert month value)) = .ok counts from h)
  obtain ⟨-, rfl⟩ := checkedAdd_eq_some.mp (context_eq_ok.mp hvalue)
  obtain rfl := Except.ok.inj hset
  refine Std.ExtTreeMap.ext_getElem? fun k => ?_
  rw [Compute.tally_concat, Std.ExtTreeMap.getElem?_alter, Std.ExtTreeMap.getElem?_insert]

theorem Identified.apply (h : Identified us s) {u : Update} (hu : u.apply s = .ok t) :
    Identified (us ++ [u]) t := by
  cases u with
  | account userId month name =>
    obtain rfl := Except.ok.inj hu
    refine ⟨?_, fun logId => ?_, ?_⟩
    · rw [filterMap_concat (show Update.stable? (.account userId month name) = some (userId, month)
        from rfl), foldBy_concat, ← h.accounts]
      rfl
    · rw [loggedAs_keep rfl]
      exact h.fallback logId
    · rw [filterMap_keep rfl]
      exact h.temporary
  | fallback logId month user =>
    obtain ⟨accounts, hrecord, hset⟩ := bind_eq_ok.mp
      (show (recordFallback logId month user s.fallbackAccounts >>= fun accounts =>
        (pure { s with fallbackAccounts := accounts } : Except String Collected)) = .ok t from hu)
    obtain rfl := Except.ok.inj hset
    refine ⟨?_, recordFallback_logged h.fallback hrecord, ?_⟩
    · rw [filterMap_keep rfl]
      exact h.accounts
    · rw [filterMap_keep rfl]
      exact h.temporary
  | temporary month =>
    obtain ⟨counts, hcount, hset⟩ := bind_eq_ok.mp
      (show (addCount "temporary account month count overflow" s.temporaryByMonth month >>=
        fun counts => (pure { s with temporaryByMonth := counts } : Except String Collected)) =
          .ok t
        from hu)
    obtain rfl := Except.ok.inj hset
    rw [h.temporary] at hcount
    refine ⟨?_, fun logId => ?_, ?_⟩
    · rw [filterMap_keep rfl]
      exact h.accounts
    · rw [loggedAs_keep rfl]
      exact h.fallback logId
    · rw [filterMap_concat (show Update.temporary? (.temporary month) = some month from rfl)]
      exact addCount_eq_ok hcount
  | unresolved =>
    obtain rfl := Except.ok.inj hu
    exact h.keep rfl rfl rfl rfl rfl rfl
  | block target transition =>
    obtain ⟨transitions, -, hset⟩ := bind_eq_ok.mp
      (show (updateNamedBlockTransition s.blockTransitions target transition >>= fun transitions =>
        (pure { s with blockTransitions := transitions } : Except String Collected)) =
          .ok t from hu)
    obtain rfl := Except.ok.inj hset
    exact h.keep rfl rfl rfl rfl rfl rfl

/-- **What is collected of all log items.** -/
theorem identified {events : List LoggingEvent}
    (h : events.foldlM (recordEvent texts snapshot) {} = .ok s) :
    Identified (updates texts snapshot events) s := by
  induction events using List.reverseRecOn generalizing s with
  | nil =>
    obtain rfl := Except.ok.inj h
    exact identified_nil
  | append_singleton events event ih =>
    rw [List.foldlM_append] at h
    obtain ⟨before, hbefore, hlast⟩ := bind_eq_ok.mp h
    have hlast : recordEvent texts snapshot before event = .ok s := by
      rw [List.foldlM_cons, show (fun s => ([] : List LoggingEvent).foldlM
        (recordEvent texts snapshot) s)
        = pure from rfl, bind_pure] at hlast
      exact hlast
    rw [recordEvent_eq] at hlast
    obtain ⟨u, hu, happly⟩ := bind_eq_ok.mp hlast
    have hupdates : updates texts snapshot (events ++ [event])
        = updates texts snapshot events ++ u.toList := by
      unfold updates
      rw [List.filterMap_append]
      refine congrArg _ ?_
      cases u with
      | none => rw [List.filterMap_cons_none (by rw [hu]; rfl)]; rfl
      | some u => rw [List.filterMap_cons_some (by rw [hu]; rfl)]; rfl
    rw [hupdates]
    cases u with
    | none =>
      obtain rfl := Except.ok.inj happly
      rw [Option.toList_none, List.append_nil]
      exact ih hbefore
    | some u => exact (ih hbefore).apply happly

/-! ## Who edited -/

section Editing

variable {order : RowOrder}

theorem getElem?_editAccount (accounts : ExtTreeMap ℤ (String × Bool)) (edited : Option ℤ)
    (userId : ℤ) :
    (editAccount accounts edited)[userId]?
      = accounts[userId]?.map fun (found : String × Bool) =>
        (found.1, found.2 || decide (edited = some userId)) := by
  cases edited with
  | none =>
    show accounts[userId]? = _
    cases accounts[userId]? with
    | none => rfl
    | some found => simp
  | some edited =>
    show (accounts.alter edited _)[userId]? = _
    rw [Std.ExtTreeMap.getElem?_alter]
    by_cases heq : edited = userId
    · subst heq
      rw [if_pos Std.ReflCmp.compare_self]
      cases accounts[edited]? with
      | none => rfl
      | some found => simp
    · rw [if_neg fun h => heq (Std.LawfulEqCmp.eq_of_compare h)]
      cases accounts[userId]? with
      | none => rfl
      | some found => simp [heq]

theorem getElem?_markFallbacks (accounts : ExtTreeMap ℤ (String × Bool × Option String))
    (logIds : List ℤ) (logId : ℤ) : (logIds.foldl markFallback accounts)[logId]?
      = accounts[logId]?.map fun (found : String × Bool × Option String) =>
        (found.1, found.2.1 || decide (logId ∈ logIds), found.2.2) := by
  induction logIds generalizing accounts with
  | nil =>
    show accounts[logId]? = _
    cases accounts[logId]? with
    | none => rfl
    | some found => simp
  | cons marked logIds ih =>
    rw [List.foldl_cons, ih]
    unfold markFallback
    rw [Std.ExtTreeMap.getElem?_alter]
    by_cases heq : marked = logId
    · subst heq
      rw [if_pos Std.ReflCmp.compare_self]
      cases accounts[marked]? with
      | none => rfl
      | some found => simp
    · rw [if_neg fun h => heq (Std.LawfulEqCmp.eq_of_compare h)]
      cases accounts[logId]? with
      | none => rfl
      | some found => simp [Ne.symm heq]

theorem mem_fallbackNameIndex {accounts : ExtTreeMap ℤ (String × Bool × Option String)} {logId : ℤ}
    {name : String} : logId ∈ fallbackNameIndex order accounts name
      ↔ ∃ month edited, accounts[logId]? = some (month, edited, some name) := by
  unfold fallbackNameIndex
  rw [List.mem_insertionSort, List.mem_filterMap]
  constructor
  · intro h
    obtain ⟨⟨logId', month, edited, user⟩, hmem, hname⟩ := h
    have hentry := Std.ExtTreeMap.mem_toList_iff_getElem?_eq_some.mp
      ((order.perm _).mem_iff.mp hmem)
    dsimp only at hname
    split at hname
    next huser =>
      obtain rfl := Option.some.inj hname
      exact ⟨month, edited, huser ▸ hentry⟩
    next => cases hname
  · intro h
    obtain ⟨month, edited, hentry⟩ := h
    exact ⟨(logId, month, edited, some name), (order.perm _).mem_iff.mpr
      (Std.ExtTreeMap.mem_toList_iff_getElem?_eq_some.mpr hentry), if_pos rfl⟩

/-- An account is one with edits if a revision has its id. -/
theorem accounts_matchRevisions (s : Collected) (revisions : List RevisionIdentity) (userId : ℤ) :
    (matchRevisions order s revisions).accounts[userId]? = s.accounts[userId]?.map
      fun (found : String × Bool) => (found.1, found.2 || hasEdited revisions userId) := by
  unfold matchRevisions
  induction revisions using List.reverseRecOn with
  | nil =>
    show s.accounts[userId]? = _
    cases s.accounts[userId]? with
    | none => rfl
    | some found => simp [hasEdited]
  | append_singleton revisions revision ih =>
    rw [List.foldl_append, List.foldl_cons, List.foldl_nil, mark_eq]
    dsimp only
    rw [getElem?_editAccount, ih]
    cases s.accounts[userId]? with
    | none => rfl
    | some found => simp [hasEdited, Bool.or_assoc]

/-- An account without an id is one with edits if a revision has its name. -/
theorem fallback_matchRevisions (s : Collected) (revisions : List RevisionIdentity) (logId : ℤ) :
    (matchRevisions order s revisions).fallbackAccounts[logId]? = s.fallbackAccounts[logId]?.map
      fun (found : String × Bool × Option String) =>
        (found.1, found.2.1 || nameHasEdited revisions found.2.2, found.2.2) := by
  unfold matchRevisions
  induction revisions using List.reverseRecOn with
  | nil =>
    show s.fallbackAccounts[logId]? = _
    cases s.fallbackAccounts[logId]? with
    | none => rfl
    | some found => simp [nameHasEdited]
  | append_singleton revisions revision ih =>
    rw [List.foldl_append, List.foldl_cons, List.foldl_nil, mark_eq]
    dsimp only
    rw [getElem?_markFallbacks, ih]
    cases hentry : s.fallbackAccounts[logId]? with
    | none => rfl
    | some found =>
      obtain ⟨month, edited, user⟩ := found
      -- the index has the names as they were collected; marking does not change them
      have hnamed : decide (logId ∈ revision.names.flatMap
        (fallbackNameIndex order s.fallbackAccounts))
          = revision.names.any fun name => user = some name := by
        refine Bool.eq_iff_iff.mpr ?_
        rw [decide_eq_true_iff, List.mem_flatMap, List.any_eq_true]
        refine exists_congr fun name => and_congr_right fun _ => ?_
        rw [mem_fallbackNameIndex, hentry, decide_eq_true_iff]
        constructor
        · intro h
          obtain ⟨month', edited', hsame⟩ := h
          exact (Prod.mk.inj (Prod.mk.inj (Option.some.inj hsame)).2).2
        · rintro rfl
          exact ⟨month, edited, rfl⟩
      simp only [Option.map_some, hnamed]
      simp [nameHasEdited, Bool.or_assoc]

end Editing

/-! ## The accounts of the report -/

/-- One for each user id, in its earliest month, and one for each log item without a user id, with
whether it edited. -/
def identities (us : List Update) (revisions : List RevisionIdentity) : List (String × Bool) :=
  ((userIds us).filterMap fun userId =>
    (earliest us userId).map fun month => (month, hasEdited revisions userId))
  ++ (logIds us).filterMap fun logId =>
    (loggedAs us logId).map fun found => (found.1, nameHasEdited revisions found.2)

/-- What the rows say of the identities. -/
structure CountsIdentities (us : List Update) (revisions : List RevisionIdentity)
    (rows : List AccountCreationMonth) : Prop where
  months : (rows.map (·.yearMonth)).Pairwise (· < ·)
  created : ∀ row ∈ rows, row.accountsCreated
    = (identities us revisions).countP fun i => i.1 = row.yearMonth
  edited : ∀ row ∈ rows, row.accountsWithEdits
    = (identities us revisions).countP fun i => i.1 = row.yearMonth && i.2
  bounded : ∀ row ∈ rows, row.accountsWithEdits ≤ row.accountsCreated ∧
    row.indefinitelyBlockedAccounts ≤ row.accountsCreated
  allCreated : (rows.map (·.accountsCreated)).sum = (userIds us).length + (logIds us).length
  allEdited : (rows.map (·.accountsWithEdits)).sum = (identities us revisions).countP (·.2)
  allTemporary : (rows.map (·.temporaryAccountsExcluded)).sum
    = (us.filterMap Update.temporary?).length

theorem foldl_earliestMonth (l : List (ℤ × String)) (month : String) :
    l.foldl (fun entry a => some (earliestMonth a.2 entry)) (some (month, false))
      = some ((l.map Prod.snd).foldl min month, false) := by
  induction l generalizing month with
  | nil => rfl
  | cons a l ih =>
    rw [List.foldl_cons, List.map_cons, List.foldl_cons, ← ih]
    refine congrArg (fun entry =>
      l.foldl (fun entry a => some (earliestMonth a.2 entry)) (some entry)) ?_
    show (if a.2 < month then (a.2, false) else (month, false)) = (min month a.2, false)
    split
    next hlt => rw [min_eq_right (le_of_lt hlt)]
    next hlt => rw [min_eq_left (not_lt.mp hlt)]

theorem Identified.getElem?_accounts (h : Identified us s) (userId : ℤ) :
    s.accounts[userId]? = (earliest us userId).map fun month => (month, false) := by
  unfold earliest
  rw [h.accounts, getElem?_foldBy]
  cases (us.filterMap Update.stable?).filter fun a => decide (a.1 = userId) with
  | nil => rfl
  | cons a l =>
    rw [List.foldl_cons, List.map_cons, List.min?_cons', Option.map_some]
    exact foldl_earliestMonth l a.2

theorem isSome_earliest {userId : ℤ} : (earliest us userId).isSome ↔ userId ∈ userIds us := by
  unfold earliest userIds
  rw [List.mem_dedup, List.mem_map, List.isSome_min?_iff, ne_eq, List.map_eq_nil_iff,
    List.filter_eq_nil_iff]
  simp only [decide_eq_true_eq, not_forall, not_not, exists_prop]

theorem isSome_loggedAs {logId : ℤ} : (loggedAs us logId).isSome ↔ logId ∈ logIds us := by
  unfold loggedAs logIds
  rw [Option.isSome_map, List.find?_isSome, List.mem_dedup, List.mem_map]
  simp only [decide_eq_true_eq]

/-- **The entries that are counted are the identities.** -/
theorem entriesOf_perm (h : Identified us s) (order : RowOrder)
    (revisions : List RevisionIdentity) :
    ((entriesOf order s (matchRevisions order s revisions)).map fun x => (x.1, x.2.1)).Perm
      (identities us revisions) := by
  unfold entriesOf identities
  rw [List.map_append, List.map_map, List.map_map]
  refine List.Perm.append ?_ ?_
  · -- the accounts with an id
    have haccounts : ∀ userId, (matchRevisions order s revisions).accounts[userId]?
        = (earliest us userId).map fun month => (month, hasEdited revisions userId) := by
      intro userId
      rw [accounts_matchRevisions, h.getElem?_accounts, Option.map_map]
      rfl
    refine ((order.perm _).map _).trans ?_
    have hperm := @toList_filterMap_perm _ _ _ _ _ (matchRevisions order s revisions).accounts
      (userIds us) (List.nodup_dedup _) fun userId => by
        rw [haccounts, Option.isSome_map, isSome_earliest]
    simp only [haccounts] at hperm
    exact hperm
  · -- those without
    have hfallback : ∀ logId, (matchRevisions order s revisions).fallbackAccounts[logId]?
        = (loggedAs us logId).map fun found =>
          (found.1, nameHasEdited revisions found.2, found.2) := by
      intro logId
      rw [fallback_matchRevisions, h.fallback, Option.map_map]
      rfl
    refine ((order.perm _).map _).trans ?_
    have hperm := @toList_filterMap_perm
      _ _ _ _ _ (matchRevisions order s revisions).fallbackAccounts
      (logIds us) (List.nodup_dedup _) fun logId => by
        rw [hfallback, Option.isSome_map, isSome_loggedAs]
    have hperm := hperm.map fun entry => (entry.1, entry.2.1)
    simp only [hfallback, List.map_filterMap, Option.map_map, List.map_map] at hperm
    exact hperm

theorem length_identities (us : List Update) (revisions : List RevisionIdentity) :
    (identities us revisions).length = (userIds us).length + (logIds us).length := by
  have hall : ∀ {α β : Type} {f : α → Option β} {l : List α}, (∀ a ∈ l, (f a).isSome) →
      (l.filterMap f).length = l.length := by
    intro α β f l h
    exact List.filterMap_length_eq_length.mpr h
  unfold identities
  rw [List.length_append, hall fun userId huser => ?_, hall fun logId hlog => ?_]
  · rw [Option.isSome_map]
    exact isSome_loggedAs.mpr hlog
  · rw [Option.isSome_map]
    exact isSome_earliest.mpr huser

/-- Counted month by month. -/
theorem sum_countP {α : Type} (month : α → String) (p : α → Bool) {months : List String}
    (hnodup : months.Nodup) (l : List α) (hmem : ∀ x ∈ l, month x ∈ months) :
    (months.map fun k => l.countP fun x => decide (month x = k) && p x).sum = l.countP p := by
  have hsum : ∀ l : List α, (l.map fun x => if p x = true then 1 else 0).sum = l.countP p := by
    intro l
    induction l with
    | nil => rfl
    | cons x l ih => rw [List.map_cons, List.sum_cons, ih, List.countP_cons, Nat.add_comm]
  rw [← hsum, ← Compute.sum_filter_key month _ hnodup hmem]
  refine congrArg List.sum (List.map_congr_left fun k _ => ?_)
  rw [hsum, List.countP_filter]
  exact List.countP_congr fun x _ => by rw [Bool.and_comm]

theorem months_entriesOf {l : List Entry} {months : List String} {temporary : ExtTreeMap String ℕ}
    (hmem : ∀ month, month ∈ months
      ↔ month ∈ l.map Prod.fst ∨ month ∈ temporary.toList.map Prod.fst) :
    (∀ x ∈ l, x.1 ∈ months) ∧ ∀ month ∈ temporary, month ∈ months := by
  refine ⟨fun x hx => (hmem _).mpr (Or.inl (List.mem_map_of_mem hx)), fun month hmonth => ?_⟩
  obtain ⟨count, hcount⟩ := Option.isSome_iff_exists.mp
    (Std.ExtTreeMap.mem_iff_isSome_getElem?.mp hmonth)
  exact (hmem _).mpr (Or.inr (List.mem_map.mpr ⟨(month, count),
    Std.ExtTreeMap.mem_toList_iff_getElem?_eq_some.mpr hcount, rfl⟩))

/-- **Every identity is counted once.** The rows of a report that succeeds count each user id in the
earliest month the log has for it and each log item without a user id in its month, as one with
edits where a revision says so. -/
theorem rows_count_identities {order : RowOrder} {wiki : String}
    {sources : List (List LoggingEvent)} {revisions : List RevisionIdentity}
    {rows : List AccountCreationMonth}
    (h : buildAccountCreationRows texts order wiki snapshot sources revisions = .ok rows) :
    CountsIdentities (updates texts snapshot sources.flatten) revisions rows := by
  obtain ⟨s, hs, h⟩ := bind_eq_ok.mp h
  obtain ⟨-, -, h⟩ := bind_eq_ok.mp h
  obtain ⟨-, -, h⟩ := bind_eq_ok.mp h
  rw [collect_eq] at hs
  have hidentified := identified hs
  -- What the report counts is the identities of the log, in another order.
  have hperm := entriesOf_perm hidentified order revisions
  rcases monthRows_cases order s revisions rfl with
    ⟨-, months, hrows, hsorted, hmem⟩ | ⟨-, e, herror⟩
  · generalize entriesOf order s (matchRevisions order s revisions) = l at hperm hrows hmem
    obtain rfl := Except.ok.inj (hrows.symm.trans h)
    obtain ⟨hentries, htemporaries⟩ := months_entriesOf hmem
    have hnodup : months.Nodup := hsorted.imp fun h => ne_of_lt h
    -- Every entry is of a month that has a row, so the rows count each of them once.
    have hsum := fun p => sum_countP (fun x : Entry => x.1) p hnodup l hentries
    have hcreated : ∀ month, (countsOf l month).accountsCreated
        = (identities (updates texts snapshot sources.flatten) revisions).countP
          fun i => i.1 = month := by
      intro month
      rw [← hperm.countP_eq, List.countP_map]
      rfl
    have hedited : ∀ month, (countsOf l month).accountsWithEdits
        = (identities (updates texts snapshot sources.flatten) revisions).countP
          fun i => i.1 = month && i.2 := by
      intro month
      rw [← hperm.countP_eq, List.countP_map]
      rfl
    refine ⟨?_, fun row hrow => ?_, fun row hrow => ?_, fun row hrow => ?_, ?_, ?_, ?_⟩
    · rw [List.map_map]
      exact (List.map_id months).symm ▸ hsorted
    · obtain ⟨month, -, rfl⟩ := List.mem_map.mp hrow
      exact hcreated month
    · obtain ⟨month, -, rfl⟩ := List.mem_map.mp hrow
      exact hedited month
    · -- only accounts that were created are counted further
      obtain ⟨month, -, rfl⟩ := List.mem_map.mp hrow
      obtain ⟨hle, hblocked, -, -⟩ := countsOf_le l month
      exact ⟨hle, hblocked⟩
    · rw [← length_identities, ← hperm.length_eq, List.length_map, List.map_map]
      have hall := hsum fun _ => true
      simp only [Bool.and_true, List.countP_true] at hall
      exact hall
    · rw [← hperm.countP_eq, List.countP_map, List.map_map]
      exact hsum fun x => x.2.1
    · -- every month with a temporary account has a row
      rw [List.map_map, hidentified.temporary]
      have htemporary := sum_countP id (fun _ => true) hnodup
        ((updates texts snapshot sources.flatten).filterMap Update.temporary?) fun month hmonth =>
          htemporaries month (hidentified.temporary ▸ mem_tally.mpr hmonth)
      simp only [Bool.and_true, List.countP_true] at htemporary
      rw [← htemporary]
      refine congrArg List.sum (List.map_congr_left fun month _ => ?_)
      show (tally _)[month]?.getD 0 = _
      rw [getD_tally]
      rfl
  · cases herror.symm.trans h

/-- An account that the log has twice, an item without a user id, and a temporary account. -/
def fiveItems : List LoggingEvent := [createdA, blockedA,
  .accountCreation ⟨some 3, "2024-02-01 00:00:00", some 7, some "A", false⟩,
  .accountCreation ⟨some 4, "2024-02-02 00:00:00", none, some "B", false⟩,
  .accountCreation ⟨some 5, "2024-02-03 00:00:00", some 8, some "~2024-1", true⟩]

theorem rows_count_identities_fiveItems : ∃ rows,
    buildAccountCreationRows plainTexts .reversed "testwiki" "2024-02" [fiveItems] [byA, bySomeone]
      = .ok rows ∧
    (rows.map fun row => (row.yearMonth, row.accountsCreated, row.accountsWithEdits,
      row.temporaryAccountsExcluded)) = [("2024-01", 1, 1, 0), ("2024-02", 1, 0, 1)] ∧
    CountsIdentities (updates plainTexts "2024-02" fiveItems) [byA, bySomeone] rows := by
  have hrows : (buildAccountCreationRows plainTexts .reversed "testwiki" "2024-02" [fiveItems]
      [byA, bySomeone]).toOption.map (fun rows => rows.map fun row => (row.yearMonth,
        row.accountsCreated, row.accountsWithEdits, row.temporaryAccountsExcluded))
      = some [("2024-01", 1, 1, 0), ("2024-02", 1, 0, 1)] := by decide +kernel
  cases h : buildAccountCreationRows plainTexts .reversed "testwiki" "2024-02" [fiveItems]
    [byA, bySomeone] with
  | error e =>
    rw [h] at hrows
    cases hrows
  | ok rows =>
    rw [h] at hrows
    have hcounted := rows_count_identities h
    rw [List.flatten_singleton] at hcounted
    exact ⟨rows, rfl, Option.some.inj hrows, hcounted⟩

end WikiEcon.Patrol
