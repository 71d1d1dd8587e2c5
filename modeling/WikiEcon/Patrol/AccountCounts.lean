import WikiEcon.Patrol.AccountCreations

/-!
# Counting accounts by month

The two loops of the report count one list of entries: the accounts with an id, then those
without. They stop only at a transition that cannot be classified or at a month with more than
`u32::MAX` accounts (`Countable`), since no other count exceeds the accounts that were created.
Otherwise a month has the numbers of its entries (`foldlM_countEntry`), and every row passes the
checks of the report (`monthRow_eq`).
-/

namespace WikiEcon.Patrol

open Std (ExtTreeMap)
open Compute (RowOrder)

/-- What is counted of an account: its month, whether it edited, its latest transition. -/
abbrev Entry : Type := String × Bool × Option AccountBlockTransition

/-- The body that both loops share, of an account's month, whether it has edits and its latest
transition. -/
def countEntry (monthly : ExtTreeMap String AccountCreationCounts) (x : Entry) :
    Except String (ExtTreeMap String AccountCreationCounts) := do
  let blocked ← resolveIndefiniteBlockState x.2.2
  accumulateAccountMonth monthly x.1 x.2.1 blocked

/-- Blocked without end, by the latest transition that names the account. -/
def isBlocked (transition : Option AccountBlockTransition) : Bool :=
  transition.any fun t => t.state = .indefinite

/-- The counts of a month. -/
def countsOf (l : List Entry) (month : String) : AccountCreationCounts where
  accountsCreated := l.countP fun x => x.1 = month
  accountsWithEdits := l.countP fun x => x.1 = month && x.2.1
  indefinitelyBlockedAccounts := l.countP fun x => x.1 = month && isBlocked x.2.2
  indefinitelyBlockedWithEdits := l.countP fun x => x.1 = month && (isBlocked x.2.2 && x.2.1)

/-- Every transition says whether it blocks, and no month has more accounts than a `u32`. -/
structure Countable (l : List Entry) : Prop where
  classified : ∀ x ∈ l, ∀ t, x.2.2 = some t → t.state ≠ .unclassified
  fits : ∀ month, l.countP (fun x => x.1 = month) ≤ u32Max

/-- The map holds the counts of the entries so far, and has a month exactly if an entry does. -/
def Counted (l : List Entry) (monthly : ExtTreeMap String AccountCreationCounts) : Prop :=
  ∀ month, monthly[month]? = if month ∈ l.map Prod.fst then some (countsOf l month) else none

/-- A transition that could be classified says whether the account is blocked. -/
theorem resolve_eq_ok {transition : Option AccountBlockTransition}
    (h : ∀ t, transition = some t → t.state ≠ .unclassified) :
    resolveIndefiniteBlockState transition = .ok (isBlocked transition) := by
  cases transition with
  | none => rfl
  | some t =>
    have hstate := h t rfl
    unfold resolveIndefiniteBlockState isBlocked
    cases hcases : t.state with
    | indefinite => simp [hcases]; rfl
    | notIndefinite => simp [hcases]; rfl
    | unclassified => exact absurd hcases hstate

/-- An expiry in a form that the report does not know stops it. -/
theorem resolve_error {t : AccountBlockTransition} (h : t.state = .unclassified) :
    ∃ e, resolveIndefiniteBlockState (some t) = .error e := by
  unfold resolveIndefiniteBlockState
  dsimp only
  rw [h]
  exact ⟨_, rfl⟩

/-! ## One account -/

variable {l l' : List Entry} {monthly : ExtTreeMap String AccountCreationCounts}

/-- A counter that has room is raised exactly if the entry counts. -/
theorem countIf_eq_ok {counted : Bool} {n : ℕ} {message : String} (h : n + 1 ≤ u32Max) :
    countIf counted n message = .ok (n + counted.toNat) := by
  unfold countIf
  cases counted with
  | false => rfl
  | true =>
    rw [if_pos rfl, checkedAdd_eq_some.mpr ⟨h, rfl⟩]
    rfl

/-- The three subsets are no larger than the accounts created, so room for one more of these is
room for all. -/
theorem add_eq_ok {counts : AccountCreationCounts} (edited blocked : Bool)
    (hcreated : counts.accountsCreated + 1 ≤ u32Max)
    (hedited : counts.accountsWithEdits ≤ counts.accountsCreated)
    (hblocked : counts.indefinitelyBlockedAccounts ≤ counts.accountsCreated)
    (hboth : counts.indefinitelyBlockedWithEdits ≤ counts.accountsCreated) :
    counts.add edited blocked = .ok ⟨counts.accountsCreated + 1,
      counts.accountsWithEdits + edited.toNat, counts.indefinitelyBlockedAccounts + blocked.toNat,
      counts.indefinitelyBlockedWithEdits + (blocked && edited).toNat⟩ := by
  unfold AccountCreationCounts.add
  rw [countIf_eq_ok hcreated, countIf_eq_ok (by omega), countIf_eq_ok (by omega),
    countIf_eq_ok (by omega)]
  rfl

/-- The counter of accounts created is the first to overflow, and its overflow stops the report.
-/
theorem add_error {counts : AccountCreationCounts} (edited blocked : Bool)
    (h : ¬ counts.accountsCreated + 1 ≤ u32Max) : ∃ e, counts.add edited blocked = .error e := by
  unfold AccountCreationCounts.add countIf checkedAdd
  rw [if_pos rfl, if_neg h]
  exact ⟨_, rfl⟩

/-- Accounts with edits, and those that are blocked, are among those created. -/
theorem countsOf_le (l : List Entry) (month : String) :
    (countsOf l month).accountsWithEdits ≤ (countsOf l month).accountsCreated ∧
      (countsOf l month).indefinitelyBlockedAccounts ≤ (countsOf l month).accountsCreated ∧
      (countsOf l month).indefinitelyBlockedWithEdits ≤ (countsOf l month).accountsWithEdits ∧
      (countsOf l month).indefinitelyBlockedWithEdits ≤
      (countsOf l month).indefinitelyBlockedAccounts := by
  refine ⟨?_, ?_, ?_, ?_⟩
  all_goals
    refine List.countP_mono_left fun x _ h => ?_
    simp only [Bool.and_eq_true] at h ⊢
    tauto

/-- One entry more raises the counts of its own month, and of no other. -/
theorem countsOf_snoc (l : List Entry) (x : Entry) (month : String) :
    countsOf (l ++ [x]) month = if x.1 = month then {
      accountsCreated := (countsOf l month).accountsCreated + 1
      accountsWithEdits := (countsOf l month).accountsWithEdits + x.2.1.toNat
      indefinitelyBlockedAccounts :=
        (countsOf l month).indefinitelyBlockedAccounts + (isBlocked x.2.2).toNat
      indefinitelyBlockedWithEdits :=
        (countsOf l month).indefinitelyBlockedWithEdits + (isBlocked x.2.2 && x.2.1).toNat }
    else countsOf l month := by
  unfold countsOf
  simp only [List.countP_append, List.countP_singleton]
  by_cases h : x.1 = month
  · simp only [h, if_true, decide_true, Bool.true_and]
    cases x.2.1 <;> cases isBlocked x.2.2 <;> rfl
  · simp only [h, if_false, decide_false, Bool.false_and]
    rfl

/-- A month without entries has the counts that the map starts a month with. -/
theorem countsOf_of_notMem {month : String} (h : month ∉ l.map Prod.fst) :
    countsOf l month = {} := by
  have hnone : ∀ x ∈ l, ¬ x.1 = month := fun x hx heq => h (heq ▸ List.mem_map_of_mem hx)
  have hzero : ∀ p : Entry → Bool, (∀ x, p x = true → x.1 = month) → l.countP p = 0 := fun p hp =>
    List.countP_eq_zero.mpr fun x hx hpx => hnone x hx (hp x hpx)
  unfold countsOf
  rw [hzero _ fun x hx => of_decide_eq_true hx]
  rw [hzero _ fun x hx => of_decide_eq_true (Bool.and_eq_true_iff.mp hx).1]
  rw [hzero _ fun x hx => of_decide_eq_true (Bool.and_eq_true_iff.mp hx).1]
  rw [hzero _ fun x hx => of_decide_eq_true (Bool.and_eq_true_iff.mp hx).1]

/-- Read with the default of a month that is not there yet, as the loop reads it. -/
theorem Counted.getD (h : Counted l monthly) (month : String) :
    monthly[month]?.getD {} = countsOf l month := by
  rw [h month]
  split
  next => rfl
  next hnew => rw [countsOf_of_notMem hnew, Option.getD_none]

/-- One more entry. -/
theorem Counted.step (h : Counted l monthly) {x : Entry}
    (hclassified : ∀ t, x.2.2 = some t → t.state ≠ .unclassified)
    (hfits : (l ++ [x]).countP (fun y => y.1 = x.1) ≤ u32Max) :
    ∃ monthly', countEntry monthly x = .ok monthly' ∧ Counted (l ++ [x]) monthly' := by
  obtain ⟨hedited, hblocked, hboth, -⟩ := countsOf_le l x.1
  have hcreated : (countsOf l x.1).accountsCreated + 1 ≤ u32Max := by
    rw [List.countP_append, List.countP_singleton, decide_eq_true rfl, if_pos rfl] at hfits
    exact hfits
  have hadd := add_eq_ok x.2.1 (isBlocked x.2.2) hcreated hedited hblocked (hboth.trans hedited)
  refine ⟨monthly.insert x.1 (countsOf (l ++ [x]) x.1), ?_, fun month => ?_⟩
  · unfold countEntry accumulateAccountMonth
    rw [resolve_eq_ok hclassified, h.getD]
    show ((countsOf l x.1).add x.2.1 (isBlocked x.2.2) >>= fun counts =>
      (.ok (monthly.insert x.1 counts) : Except String _)) = _
    rw [hadd, countsOf_snoc, if_pos rfl]
    rfl
  · simp only [Std.ExtTreeMap.getElem?_insert, List.map_append, Std.LawfulEqCmp.compare_eq_iff_eq]
    have hmem : month ∈ l.map Prod.fst ++ [x].map Prod.fst ↔ month ∈ l.map Prod.fst ∨
      month = x.1 := by
      rw [List.mem_append, List.map_singleton, List.mem_singleton]
    by_cases heq : x.1 = month
    · rw [if_pos heq, if_pos (hmem.mpr (Or.inr heq.symm)), heq]
    · have hold : month ∈ l.map Prod.fst ++ [x].map Prod.fst ↔ month ∈ l.map Prod.fst :=
        hmem.trans (or_iff_left (Ne.symm heq))
      rw [if_neg heq, h month, countsOf_snoc, if_neg heq]
      simp only [hold]

/-- Every beginning of a countable list is countable, so the loop gets through all of it. -/
theorem Countable.init {x : Entry} (h : Countable (l ++ [x])) : Countable l :=
  ⟨fun y hy => h.classified y (List.mem_append_left _ hy), fun month =>
    (List.Sublist.countP_le (List.sublist_append_left ..)).trans (h.fits month)⟩

/-- **The loop counts the entries of each month.** -/
theorem foldlM_countEntry (l : List Entry) :
    (Countable l ∧ ∃ monthly, l.foldlM countEntry ∅ = .ok monthly ∧ Counted l monthly) ∨
      (¬ Countable l ∧ ∃ e, l.foldlM countEntry ∅ = .error e) := by
  induction l using List.reverseRecOn with
  | nil =>
    have hnil : Countable [] := ⟨fun x hx => absurd hx List.not_mem_nil, fun month => Nat.zero_le _⟩
    refine Or.inl ⟨hnil, ∅, rfl, fun month => ?_⟩
    exact Std.ExtTreeMap.getElem?_empty
  | append_singleton l x ih =>
    rw [List.foldlM_append]
    rcases ih with ⟨hcountable, monthly, hloop, hcounted⟩ | ⟨hnot, e, hloop⟩
    · rw [hloop]
      show (_ ∧ ∃ monthly', (countEntry monthly x >>= pure) = .ok monthly' ∧ _) ∨
        (_ ∧ ∃ e, (countEntry monthly x >>= pure) = .error e)
      rw [bind_pure]
      by_cases hclassified : ∀ t, x.2.2 = some t → t.state ≠ .unclassified
      · by_cases hfits : (l ++ [x]).countP (fun y => y.1 = x.1) ≤ u32Max
        · obtain ⟨monthly', hstep, hcounted'⟩ := hcounted.step hclassified hfits
          refine Or.inl ⟨⟨fun y hy => ?_, fun month => ?_⟩, monthly', hstep, hcounted'⟩
          · rcases List.mem_append.mp hy with hy | hy
            · exact hcountable.classified y hy
            · rw [List.mem_singleton.mp hy]
              exact hclassified
          · by_cases hmonth : x.1 = month
            · exact hmonth ▸ hfits
            · rw [List.countP_append, List.countP_singleton, if_neg (by simp [hmonth])]
              exact hcountable.fits month
        · -- the month is full
          refine Or.inr ⟨fun h => hfits (h.fits x.1), ?_⟩
          have hfull : ¬ (countsOf l x.1).accountsCreated + 1 ≤ u32Max := by
            rw [List.countP_append, List.countP_singleton, decide_eq_true rfl, if_pos rfl] at hfits
            exact hfits
          obtain ⟨e, hadd⟩ := add_error x.2.1 (isBlocked x.2.2) hfull
          refine ⟨e, ?_⟩
          unfold countEntry accumulateAccountMonth
          rw [resolve_eq_ok hclassified, hcounted.getD]
          show ((countsOf l x.1).add x.2.1 (isBlocked x.2.2) >>= _) = _
          rw [hadd]
          rfl
      · -- the entry cannot be classified
        refine Or.inr ⟨fun h => hclassified (h.classified x (by simp)), ?_⟩
        push Not at hclassified
        obtain ⟨t, ht, hstate⟩ := hclassified
        obtain ⟨e, hresolve⟩ := resolve_error hstate
        refine ⟨e, ?_⟩
        unfold countEntry
        rw [ht, hresolve]
        rfl
    · rw [hloop]
      exact Or.inr ⟨fun h => hnot h.init, e, rfl⟩

/-! ## The rows -/

variable {order : RowOrder} {s : Collected} {m : Matched}

/-- An account with an id, with the transition its id has. -/
def accountEntry (transitions : ℤ → Option AccountBlockTransition) (account : ℤ × String × Bool) :
    Entry :=
  (account.2.1, account.2.2, transitions account.1)

/-- An account without an id goes by its name, so its transition is the one of the name. -/
def fallbackAccountEntry (transitions : String → Option AccountBlockTransition)
    (account : ℤ × String × Bool × Option String) : Entry :=
  (account.2.1, account.2.2.1, account.2.2.2.bind (blockTransitionForName transitions))

/-- The entries of all accounts. -/
def entriesOf (order : RowOrder) (s : Collected) (m : Matched) : List Entry :=
  (order.arrange m.accounts.toList).map (accountEntry m.accountBlockTransitions)
    ++ (order.arrange m.fallbackAccounts.toList).map (fallbackAccountEntry s.blockTransitions)

/-- A month with temporary accounts has a row too. -/
def withTemporary (monthly : ExtTreeMap String AccountCreationCounts)
    (temporary : List (String × ℕ)) :
    ExtTreeMap String AccountCreationCounts :=
  temporary.foldl (fun monthly (month, _) => monthly.alter month fun counts =>
    some (counts.getD {}))
    monthly

/-- The two loops of the report are one loop over the entries of both, and the temporary accounts
add months without counts. -/
theorem countMonths_eq (order : RowOrder) (s : Collected) (m : Matched) : countMonths order s m
    = (entriesOf order s m).foldlM countEntry ∅ >>= fun monthly =>
      .ok (withTemporary monthly s.temporaryByMonth.toList) := by
  unfold countMonths entriesOf
  rw [List.foldlM_append, List.foldlM_map, bind_assoc]
  refine congrArg _ (funext fun monthly => ?_)
  rw [List.foldlM_map]
  rfl

/-- A month with temporary accounts alone has a row too, of zeros. -/
theorem Counted.withTemporary (h : Counted l monthly) (temporary : List (String × ℕ))
    (month : String) :
    (withTemporary monthly temporary)[month]?
      = if month ∈ l.map Prod.fst ∨ month ∈ temporary.map Prod.fst then some (countsOf l month)
        else none := by
  unfold Patrol.withTemporary
  induction temporary using List.reverseRecOn with
  | nil =>
    simp only [List.map_nil, List.not_mem_nil, or_false]
    exact h month
  | append_singleton temporary entry ih =>
    have hmem : month ∈ (temporary ++ [entry]).map Prod.fst
        ↔ month ∈ temporary.map Prod.fst ∨ month = entry.1 := by
      rw [List.map_append, List.mem_append, List.map_singleton, List.mem_singleton]
    rw [List.foldl_append]
    show (ExtTreeMap.alter _ entry.1 _)[month]? = _
    simp only [Std.ExtTreeMap.getElem?_alter, Std.LawfulEqCmp.compare_eq_iff_eq, hmem]
    by_cases heq : entry.1 = month
    · rw [if_pos heq, if_pos (Or.inr (Or.inr heq.symm)), heq, ih]
      split
      next => rfl
      next hnew => rw [countsOf_of_notMem fun hold => hnew (Or.inl hold), Option.getD_none]
    · rw [if_neg heq, ih]
      simp only [Ne.symm heq, or_false]

/-- The row of a month. -/
def rowOf (l : List Entry) (temporaryByMonth : ExtTreeMap String ℕ) (month : String) :
    AccountCreationMonth where
  yearMonth := month
  accountsCreated := (countsOf l month).accountsCreated
  accountsWithEdits := (countsOf l month).accountsWithEdits
  accountsWithoutEdits := (countsOf l month).accountsCreated - (countsOf l month).accountsWithEdits
  indefinitelyBlockedAccounts := (countsOf l month).indefinitelyBlockedAccounts
  indefinitelyBlockedWithEdits := (countsOf l month).indefinitelyBlockedWithEdits
  indefinitelyBlockedWithoutEdits :=
    (countsOf l month).indefinitelyBlockedAccounts - (countsOf l month).indefinitelyBlockedWithEdits
  temporaryAccountsExcluded := temporaryByMonth[month]?.getD 0

/-- Every row of counted entries passes the checks of the report: no subset is larger than the
whole. -/
theorem monthRow_eq (l : List Entry) (temporaryByMonth : ExtTreeMap String ℕ) (month : String) :
    monthRow temporaryByMonth (month, countsOf l month) = .ok (rowOf l temporaryByMonth month) := by
  obtain ⟨hedited, -, -, hboth⟩ := countsOf_le l month
  unfold monthRow checkedSub
  dsimp only
  rw [if_pos hedited, if_pos hboth]
  rfl

/-- By inclusion and exclusion: accounts that are blocked or have edits are among those created. -/
theorem countsOf_withoutEdits (l : List Entry) (month : String) :
    (countsOf l month).indefinitelyBlockedAccounts + (countsOf l month).accountsWithEdits
      ≤ (countsOf l month).accountsCreated + (countsOf l month).indefinitelyBlockedWithEdits := by
  induction l using List.reverseRecOn with
  | nil => exact Nat.le_refl _
  | append_singleton l x ih =>
    rw [countsOf_snoc]
    split
    next =>
      dsimp only
      cases x.2.1 <;> cases isBlocked x.2.2 <;> simp only [Bool.toNat_true, Bool.toNat_false,
        Bool.and_true, Bool.and_false, Bool.and_self] <;> omega
    next => exact ih

/-- The two sums that the report checks of a row hold of every row it makes. -/
theorem rowOf_conserved (l : List Entry) (temporaryByMonth : ExtTreeMap String ℕ) (month : String) :
    (rowOf l temporaryByMonth month).CreatedConserved ∧
      (rowOf l temporaryByMonth month).BlockedConserved := by
  obtain ⟨hedited, hblocked, hboth, hboth'⟩ := countsOf_le l month
  have hwithout := countsOf_withoutEdits l month
  unfold AccountCreationMonth.CreatedConserved AccountCreationMonth.BlockedConserved rowOf
  dsimp only
  omega

/-- **The rows of the report**: one for each month of an account, with and without an id, and of a
temporary account. -/
theorem monthRows_cases (order : RowOrder) (s : Collected) (revisions : List RevisionIdentity)
    (hl : l = entriesOf order s (matchRevisions order s revisions)) :
    (Countable l ∧ ∃ months : List String,
      monthRows order s revisions = .ok (months.map (rowOf l s.temporaryByMonth)) ∧
        months.Pairwise (· < ·) ∧ ∀ month, month ∈ months ↔
          month ∈ l.map Prod.fst ∨ month ∈ s.temporaryByMonth.toList.map Prod.fst) ∨
      (¬ Countable l ∧ ∃ e, monthRows order s revisions = .error e) := by
  subst hl
  have hloop := foldlM_countEntry (entriesOf order s (matchRevisions order s revisions))
  generalize hl : entriesOf order s (matchRevisions order s revisions) = l at hloop
  have hcount := countMonths_eq order s (matchRevisions order s revisions)
  rw [hl] at hcount
  unfold monthRows
  rcases hloop with ⟨hcountable, monthly, hok, hcounted⟩ | ⟨hnot, e, herror⟩
  · let table := withTemporary monthly s.temporaryByMonth.toList
    have hget : ∀ month, table[month]? = if month ∈ l.map Prod.fst
        ∨ month ∈ s.temporaryByMonth.toList.map Prod.fst then some (countsOf l month) else none :=
      hcounted.withTemporary _
    have hentries : ∀ entry ∈ table.toList, entry.2 = countsOf l entry.1 := by
      intro entry hentry
      have hvalue := Std.ExtTreeMap.mem_toList_iff_getElem?_eq_some.mp hentry
      rw [hget] at hvalue
      split at hvalue
      · exact (Option.some.inj hvalue).symm
      · cases hvalue
    have hrows : table.toList.mapM (monthRow s.temporaryByMonth)
        = .ok (table.toList.map fun entry => rowOf l s.temporaryByMonth entry.1) := by
      refine mapM_eq_ok fun entry hentry => ?_
      obtain ⟨month, counts⟩ := entry
      rw [show counts = countsOf l month from hentries _ hentry]
      exact monthRow_eq ..
    -- Neither check of the totals can fail: every row is built from the counts it sums.
    have hconserved : ∀ row ∈ table.toList.map fun entry => rowOf l s.temporaryByMonth entry.1,
        row.CreatedConserved ∧ row.BlockedConserved := by
      intro row hrow
      obtain ⟨entry, -, rfl⟩ := List.mem_map.mp hrow
      exact rowOf_conserved ..
    refine Or.inl ⟨hcountable, table.toList.map Prod.fst, ?_, ?_, fun month => ?_⟩
    · rw [hcount, hok]
      show (table.toList.mapM (monthRow s.temporaryByMonth) >>= _) = _
      rw [hrows]
      show (ensure _ _ >>= fun _ => ensure _ _ >>= _) = _
      rw [(ensure_eq_ok (u := ())).mpr fun row hrow => (hconserved row hrow).1]
      show (ensure _ _ >>= _) = _
      rw [(ensure_eq_ok (u := ())).mpr fun row hrow => (hconserved row hrow).2, List.map_map]
      rfl
    · refine List.pairwise_map.mpr (table.ordered_keys_toList.imp fun h => ?_)
      exact compare_lt_iff_lt.mp h
    · have hsome : month ∈ table.toList.map Prod.fst ↔ (table[month]?).isSome := by
        constructor
        · intro h
          obtain ⟨entry, hentry, rfl⟩ := List.mem_map.mp h
          rw [Std.ExtTreeMap.mem_toList_iff_getElem?_eq_some.mp hentry]
          rfl
        · intro h
          obtain ⟨counts, hcounts⟩ := Option.isSome_iff_exists.mp h
          exact List.mem_map.mpr ⟨(month, counts),
            Std.ExtTreeMap.mem_toList_iff_getElem?_eq_some.mpr hcounts, rfl⟩
      rw [hsome, hget]
      split
      next h => exact iff_of_true rfl h
      next h => exact iff_of_false (by simp) h
  -- Otherwise counting stops at the first account that cannot be counted.
  · refine Or.inr ⟨hnot, e, ?_⟩
    rw [hcount, herror]
    rfl

end WikiEcon.Patrol
