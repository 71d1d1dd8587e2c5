import Mathlib.Data.List.MinMax
import Mathlib.Data.Prod.Lex
import Mathlib.Data.String.Basic
import WikiEcon.Patrol.ExternalSort

/-!
# Account block states

Which accounts are blocked indefinitely is decided by the latest block transition of each.
Two paths of the source find it: `reduce_block_state_spool` sorts the transitions and keeps
the last of each account, and `update_named_block_transition` folds them, in the order in
which they arrive, into a map.

`blockStates` compares the two. The reduction sees every pair of conflicting rows; the fold
only compares with the latest so far, so what it says of conflicts below the latest depends
on the order of arrival (`conflict_depends_on_order`).
-/

namespace WikiEcon.Patrol

/-! ## Rows -/

inductive AccountBlockState
  | indefinite
  | notIndefinite
  | unclassified
  deriving DecidableEq

/-- The position in the declaration, which the derived order goes by. -/
def AccountBlockState.index : AccountBlockState → ℕ
  | .indefinite => 0
  | .notIndefinite => 1
  | .unclassified => 2

structure AccountBlockStateSortRow where
  targetUser : String
  timestamp : String
  logId : ℤ
  action : String
  resultingState : AccountBlockState
  duration : Option String
  deriving DecidableEq

structure AccountBlockTransition where
  timestamp : String
  logId : ℤ
  state : AccountBlockState
  deriving DecidableEq

structure IndefinitelyBlockedAccount where
  normalizedName : String
  latestTransitionTimestamp : String
  latestTransitionLogId : ℤ
  deriving DecidableEq

/-- The fields in declaration order; no duration is below every duration. -/
def AccountBlockStateSortRow.sortKey (r : AccountBlockStateSortRow) :
    String ×ₗ (String ×ₗ ℤ) ×ₗ String ×ₗ ℕ ×ₗ WithBot String :=
  toLex (r.targetUser, toLex (toLex (r.timestamp, r.logId), toLex (r.action,
    toLex (r.resultingState.index, KWayMerge.nullFirst r.duration))))

theorem AccountBlockStateSortRow.sortKey_injective :
    Function.Injective AccountBlockStateSortRow.sortKey := by
  intro a b h
  have hstate : Function.Injective AccountBlockState.index := by
    intro a b h
    cases a <;> cases b <;> first | rfl | exact absurd h (by decide)
  simp only [sortKey, toLex_inj, Prod.mk.injEq, KWayMerge.nullFirst_inj] at h
  obtain ⟨h1, ⟨h2, h3⟩, h4, h5, h6⟩ := h
  cases a
  cases b
  simp only [mk.injEq]
  exact ⟨h1, h2, h3, h4, hstate h5, h6⟩

instance : LinearOrder AccountBlockStateSortRow :=
  LinearOrder.lift' AccountBlockStateSortRow.sortKey AccountBlockStateSortRow.sortKey_injective

/-- When a transition was logged. -/
def AccountBlockStateSortRow.order (r : AccountBlockStateSortRow) : String ×ₗ ℤ :=
  toLex (r.timestamp, r.logId)

def AccountBlockTransition.order (t : AccountBlockTransition) : String ×ₗ ℤ :=
  toLex (t.timestamp, t.logId)

/-- `AccountBlockEventRow::transition`. -/
def AccountBlockStateSortRow.transition (r : AccountBlockStateSortRow) : AccountBlockTransition :=
  ⟨r.timestamp, r.logId, r.resultingState⟩

def AccountBlockStateSortRow.account (r : AccountBlockStateSortRow) : IndefinitelyBlockedAccount :=
  ⟨r.targetUser, r.timestamp, r.logId⟩

/-! ## The reduction -/

def finishBlockState (latest : AccountBlockStateSortRow)
    (accounts : List IndefinitelyBlockedAccount) :
    Except String (List IndefinitelyBlockedAccount) := do
  ensure (latest.resultingState ≠ .unclassified)
    ("latest local block duration for " ++ latest.targetUser ++ " cannot be classified at "
      ++ latest.timestamp ++ " / " ++ toString latest.logId)
  return if latest.resultingState = .indefinite then accounts ++ [latest.account] else accounts

/-- What a row says to the row before it: the accounts that are done. -/
def reduceAccounts (latest : Option AccountBlockStateSortRow)
    (accounts : List IndefinitelyBlockedAccount) (row : AccountBlockStateSortRow) :
    Except String (List IndefinitelyBlockedAccount) :=
  match latest with
  | some existing =>
    if existing.targetUser ≠ row.targetUser then finishBlockState existing accounts
    else if existing.timestamp = row.timestamp ∧ existing.logId = row.logId then do
      ensure (existing.action = row.action ∧ existing.resultingState = row.resultingState ∧
          existing.duration = row.duration)
        ("conflicting account block transitions for " ++ row.targetUser ++ " at "
          ++ row.timestamp ++ " / " ++ toString row.logId)
      return accounts
    else return accounts
  | none => return accounts

/-- The consumer of the sorted rows. -/
def reduceStep
    (state : Option AccountBlockStateSortRow × List IndefinitelyBlockedAccount)
    (row : AccountBlockStateSortRow) :
    Except String (Option AccountBlockStateSortRow × List IndefinitelyBlockedAccount) := do
  let accounts ← reduceAccounts state.1 state.2 row
  return (some row, accounts)

def reduceBlockStateSpool (batchRows fanIn fuel : ℕ) (spool : List AccountBlockStateSortRow) :
    Option (Except String (List IndefinitelyBlockedAccount)) :=
  (externalSortSpool batchRows fanIn fuel spool reduceStep (none, [])).map fun result => do
    let (latest, accounts) ← result
    match latest with
    | some row => finishBlockState row accounts
    | none => return accounts

/-! ## The fold -/

def updateNamedBlockTransition (transitions : String → Option AccountBlockTransition)
    (target : String) (transition : AccountBlockTransition) :
    Except String (String → Option AccountBlockTransition) :=
  match transitions target with
  | some existing =>
    if existing.order = transition.order then do
      ensure (existing.state = transition.state)
        ("conflicting block transitions for " ++ target ++ " at " ++ transition.timestamp ++ " / "
          ++ toString transition.logId)
      return transitions
    else if transition.order < existing.order then return transitions
    else return Function.update transitions target (some transition)
  | none => return Function.update transitions target (some transition)

def foldTransitions (rows : List AccountBlockStateSortRow) :
    Except String (String → Option AccountBlockTransition) :=
  rows.foldlM (fun transitions row =>
    updateNamedBlockTransition transitions row.targetUser row.transition) fun _ => none

/-! ## What decides -/

/-- A latest row of its account. -/
structure Latest (rows : List AccountBlockStateSortRow) (a : AccountBlockStateSortRow) : Prop where
  mem : a ∈ rows
  le : ∀ b ∈ rows, b.targetUser = a.targetUser → b.order ≤ a.order

/-- Two different rows of one account, logged as one. -/
def Conflict (rows : List AccountBlockStateSortRow) : Prop :=
  ∃ a ∈ rows, ∃ b ∈ rows, a.targetUser = b.targetUser ∧ a.order = b.order ∧ a ≠ b

/-- Two rows of one account, logged as one, with different states. -/
def StateConflict (rows : List AccountBlockStateSortRow) : Prop :=
  ∃ a ∈ rows, ∃ b ∈ rows, a.targetUser = b.targetUser ∧ a.order = b.order ∧
    a.resultingState ≠ b.resultingState

/-- Two latest rows of one account with different states. -/
def LatestConflict (rows : List AccountBlockStateSortRow) : Prop :=
  ∃ a b, Latest rows a ∧ Latest rows b ∧ a.targetUser = b.targetUser ∧
    a.resultingState ≠ b.resultingState

/-- The latest row of some account leaves its state open. -/
def Unclassified (rows : List AccountBlockStateSortRow) : Prop :=
  ∃ a, Latest rows a ∧ a.resultingState = .unclassified

section Order

variable {rows : List AccountBlockStateSortRow} {a b r : AccountBlockStateSortRow}

theorem targetUser_le (h : a ≤ b) : a.targetUser ≤ b.targetUser := by
  have h : a.sortKey ≤ b.sortKey := h
  rcases Prod.Lex.le_iff.mp h with hlt | ⟨heq, -⟩
  · exact le_of_lt hlt
  · exact le_of_eq heq

theorem order_le (h : a ≤ b) (huser : a.targetUser = b.targetUser) : a.order ≤ b.order := by
  have h : a.sortKey ≤ b.sortKey := h
  rcases Prod.Lex.le_iff.mp h with hlt | ⟨-, hrest⟩
  · exact absurd huser (ne_of_lt hlt)
  · rcases Prod.Lex.le_iff.mp hrest with hlt | ⟨heq, -⟩
    · exact le_of_lt hlt
    · exact le_of_eq heq

theorem order_eq_iff : a.order = b.order ↔ a.timestamp = b.timestamp ∧ a.logId = b.logId := by
  simp [AccountBlockStateSortRow.order]

/-- An account with a row has a latest one. -/
theorem exists_latest (ha : a ∈ rows) : ∃ l, Latest rows l ∧ l.targetUser = a.targetUser := by
  cases hmax : (rows.filter fun b => b.targetUser = a.targetUser).argmax
      AccountBlockStateSortRow.order with
  | none =>
    have hnil := List.argmax_eq_none.mp hmax
    exact absurd (List.mem_filter.mpr ⟨ha, by simp⟩) (hnil ▸ List.not_mem_nil)
  | some l =>
    obtain ⟨hl, huser⟩ := List.mem_filter.mp (List.argmax_mem hmax)
    have huser : l.targetUser = a.targetUser := by simpa using huser
    refine ⟨l, ⟨hl, fun b hb hsame => ?_⟩, huser⟩
    exact List.le_of_mem_argmax (List.mem_filter.mpr ⟨hb, by simpa [huser] using hsame⟩) hmax

theorem Latest.perm {rows' : List AccountBlockStateSortRow} (hperm : rows.Perm rows') :
    Latest rows a ↔ Latest rows' a :=
  ⟨fun h => ⟨hperm.mem_iff.mp h.mem, fun b hb => h.le b (hperm.mem_iff.mpr hb)⟩,
    fun h => ⟨hperm.mem_iff.mpr h.mem, fun b hb => h.le b (hperm.mem_iff.mp hb)⟩⟩

/-- A row of another account takes no part. -/
theorem latest_snoc_of_ne (hne : a.targetUser ≠ r.targetUser) :
    Latest (rows ++ [r]) a ↔ Latest rows a := by
  constructor
  · intro h
    refine ⟨(List.mem_append.mp h.mem).resolve_right fun hr => ?_, fun b hb =>
      h.le b (List.mem_append_left _ hb)⟩
    rw [List.mem_singleton.mp hr] at hne
    exact hne rfl
  · intro h
    refine ⟨List.mem_append_left _ h.mem, fun b hb hsame => ?_⟩
    rcases List.mem_append.mp hb with hb | hb
    · exact h.le b hb hsame
    · rw [List.mem_singleton.mp hb] at hsame
      exact absurd hsame.symm hne

theorem Conflict.mono {rows' : List AccountBlockStateSortRow} (h : Conflict rows)
    (hsub : ∀ b ∈ rows, b ∈ rows') : Conflict rows' := by
  obtain ⟨a, ha, b, hb, hrest⟩ := h
  exact ⟨a, hsub a ha, b, hsub b hb, hrest⟩

end Order

/-! ## The reduction over sorted rows -/

section Reduce

variable {rows : List AccountBlockStateSortRow} {a r last : AccountBlockStateSortRow}
  {accounts accounts' : List IndefinitelyBlockedAccount}

theorem finishBlockState_eq_ok :
    finishBlockState r accounts = .ok accounts' ↔ r.resultingState ≠ .unclassified ∧
      accounts' = if r.resultingState = .indefinite then accounts ++ [r.account] else accounts := by
  unfold finishBlockState
  rw [bind_eq_ok]
  constructor
  · rintro ⟨_, hensure, h⟩
    exact ⟨ensure_eq_ok.mp hensure, (Except.ok.inj h).symm⟩
  · rintro ⟨hstate, rfl⟩
    exact ⟨(), ensure_eq_ok.mpr hstate, rfl⟩

theorem finishBlockState_error (h : ∃ e, finishBlockState r accounts = .error e) :
    r.resultingState = .unclassified := by
  by_contra hstate
  obtain ⟨e, he⟩ := h
  rw [finishBlockState_eq_ok.mpr ⟨hstate, rfl⟩] at he
  exact absurd he (by simp)

/-- The reduction after the rows of `rows`, which end with `last`. -/
structure Reduced (rows : List AccountBlockStateSortRow) (last : AccountBlockStateSortRow)
    (accounts : List IndefinitelyBlockedAccount) : Prop where
  noConflict : ¬ Conflict rows
  sorted : accounts.Pairwise fun a b => a.normalizedName < b.normalizedName
  accounts : ∀ account, account ∈ accounts ↔ ∃ a, Latest rows a ∧ a.targetUser ≠ last.targetUser ∧
    a.resultingState = .indefinite ∧ account = a.account
  classified : ∀ a, Latest rows a → a.targetUser ≠ last.targetUser →
    a.resultingState ≠ .unclassified

/-- Why the reduction has failed on rows that end with `last`. -/
def Failed (rows : List AccountBlockStateSortRow) (last : AccountBlockStateSortRow) : Prop :=
  Conflict rows ∨ ∃ a, Latest rows a ∧ a.targetUser ≠ last.targetUser ∧
    a.resultingState = .unclassified

/-- The last row of sorted rows is a latest row. -/
theorem latest_last (hle : ∀ b ∈ rows, b ≤ last) (hmem : last ∈ rows) : Latest rows last :=
  ⟨hmem, fun b hb huser => order_le (hle b hb) huser⟩

/-- Without a conflict it is the only one of its account. -/
theorem eq_last_of_latest (hconflict : ¬ Conflict rows) (hle : ∀ b ∈ rows, b ≤ last)
    (hmem : last ∈ rows) (ha : Latest rows a) (huser : a.targetUser = last.targetUser) :
    a = last := by
  by_contra hne
  refine hconflict ⟨a, ha.mem, last, hmem, huser, le_antisymm ?_ ?_, hne⟩
  · exact order_le (hle a ha.mem) huser
  · exact ha.le last hmem huser.symm

/-- The row before decides whether a row conflicts with any before it. -/
theorem order_eq_last (hle : ∀ b ∈ rows, b ≤ last) (hr : last ≤ r) (ha : a ∈ rows)
    (huser : a.targetUser = r.targetUser) (horder : a.order = r.order) :
    last.targetUser = r.targetUser ∧ last.order = r.order := by
  have hsame : last.targetUser = r.targetUser :=
    le_antisymm (targetUser_le hr) (huser ▸ targetUser_le (hle a ha))
  refine ⟨hsame, le_antisymm (order_le hr hsame) ?_⟩
  rw [← horder]
  exact order_le (hle a ha) (huser.trans hsame.symm)

theorem conflict_snoc (hconflict : ¬ Conflict rows) (hle : ∀ b ∈ rows, b ≤ last)
    (hmem : last ∈ rows) (hr : last ≤ r) :
    Conflict (rows ++ [r]) ↔ last.targetUser = r.targetUser ∧ last.order = r.order ∧ last ≠ r := by
  have hwith : ∀ b ∈ rows, b.targetUser = r.targetUser → b.order = r.order → b ≠ r →
      last.targetUser = r.targetUser ∧ last.order = r.order ∧ last ≠ r := by
    intro b hb huser horder hne
    obtain ⟨hlast, hlastOrder⟩ := order_eq_last hle hr hb huser horder
    refine ⟨hlast, hlastOrder, fun heq => ?_⟩
    refine hconflict ⟨b, hb, last, hmem, huser.trans hlast.symm, horder.trans hlastOrder.symm, ?_⟩
    exact fun hb => hne (hb.trans heq)
  constructor
  · rintro ⟨a, ha, b, hb, huser, horder, hne⟩
    rcases List.mem_append.mp ha with ha' | ha'
    · rcases List.mem_append.mp hb with hb' | hb'
      · exact absurd ⟨a, ha', b, hb', huser, horder, hne⟩ hconflict
      · obtain rfl := List.mem_singleton.mp hb'
        exact hwith a ha' huser horder hne
    · obtain rfl := List.mem_singleton.mp ha'
      rcases List.mem_append.mp hb with hb' | hb'
      · exact hwith b hb' huser.symm horder.symm hne.symm
      · exact absurd (List.mem_singleton.mp hb').symm hne
  · rintro ⟨huser, horder, hne⟩
    exact ⟨last, List.mem_append_left _ hmem, r, by simp, huser, horder, hne⟩

/-- What the reduction says once the last account is done too. -/
structure Decided (rows : List AccountBlockStateSortRow)
    (accounts : List IndefinitelyBlockedAccount) : Prop where
  sorted : accounts.Pairwise fun a b => a.normalizedName < b.normalizedName
  accounts : ∀ account, account ∈ accounts ↔
    ∃ a, Latest rows a ∧ a.resultingState = .indefinite ∧ account = a.account
  classified : ∀ a, Latest rows a → a.resultingState ≠ .unclassified

theorem Reduced.finish (h : Reduced rows last accounts) (hle : ∀ b ∈ rows, b ≤ last)
    (hmem : last ∈ rows) (hfinish : finishBlockState last accounts = .ok accounts') :
    Decided rows accounts' := by
  obtain ⟨hstate, rfl⟩ := finishBlockState_eq_ok.mp hfinish
  have hlatest := latest_last hle hmem
  refine ⟨?_, fun account => ?_, fun a ha => ?_⟩
  · split
    next =>
      refine List.pairwise_append.mpr ⟨h.sorted, List.pairwise_singleton .., ?_⟩
      intro account haccount b hb
      obtain rfl := List.mem_singleton.mp hb
      obtain ⟨a, ha, hne, -, rfl⟩ := (h.accounts account).mp haccount
      exact lt_of_le_of_ne (targetUser_le (hle a ha.mem)) hne
    next => exact h.sorted
  · have hdone : account ∈ (if last.resultingState = .indefinite
        then accounts ++ [last.account] else accounts) ↔ account ∈ accounts ∨
          last.resultingState = .indefinite ∧ account = last.account := by
      split <;> simp_all
    rw [hdone, h.accounts account]
    constructor
    · rintro (⟨a, ha, -, hindefinite, rfl⟩ | ⟨hindefinite, rfl⟩)
      · exact ⟨a, ha, hindefinite, rfl⟩
      · exact ⟨last, hlatest, hindefinite, rfl⟩
    · rintro ⟨a, ha, hindefinite, rfl⟩
      by_cases hlast : a.targetUser = last.targetUser
      · obtain rfl := eq_last_of_latest h.noConflict hle hmem ha hlast
        exact Or.inr ⟨hindefinite, rfl⟩
      · exact Or.inl ⟨a, ha, hlast, hindefinite, rfl⟩
  · by_cases hlast : a.targetUser = last.targetUser
    · obtain rfl := eq_last_of_latest h.noConflict hle hmem ha hlast
      exact hstate
    · exact h.classified a ha hlast

/-- **One row** of the reduction. -/
theorem Reduced.step (h : Reduced rows last accounts) (hle : ∀ b ∈ rows, b ≤ last)
    (hmem : last ∈ rows) (hr : last ≤ r) :
    (∃ accounts', reduceAccounts (some last) accounts r = .ok accounts' ∧
      Reduced (rows ++ [r]) r accounts') ∨
    ((∃ e, reduceAccounts (some last) accounts r = .error e) ∧ Failed (rows ++ [r]) r) := by
  unfold reduceAccounts
  dsimp only
  by_cases huser : last.targetUser = r.targetUser
  · -- the account goes on: the accounts that are done stay
    have hconflict := conflict_snoc h.noConflict hle hmem hr
    have hkept (hno : ¬ Conflict (rows ++ [r])) : Reduced (rows ++ [r]) r accounts := by
      refine ⟨hno, h.sorted, fun account => (h.accounts account).trans ?_, fun a ha hne => ?_⟩
      · rw [huser]
        refine exists_congr fun a => ⟨fun ⟨ha, hne, hrest⟩ => ?_, fun ⟨ha, hne, hrest⟩ => ?_⟩
        · exact ⟨(latest_snoc_of_ne hne).mpr ha, hne, hrest⟩
        · exact ⟨(latest_snoc_of_ne hne).mp ha, hne, hrest⟩
      · exact h.classified a ((latest_snoc_of_ne hne).mp ha) (huser ▸ hne)
    rw [if_neg (not_not.mpr huser)]
    -- Two rows of the same moment have to be the same row.
    by_cases horder : last.timestamp = r.timestamp ∧ last.logId = r.logId
    · rw [if_pos horder]
      have horder' : last.order = r.order := order_eq_iff.mpr horder
      by_cases hsame : last.action = r.action ∧ last.resultingState = r.resultingState ∧
          last.duration = r.duration
      · refine Or.inl ⟨accounts, bind_eq_ok.mpr ⟨(), ensure_eq_ok.mpr hsame, rfl⟩, hkept ?_⟩
        rw [hconflict]
        rintro ⟨-, -, hne⟩
        obtain ⟨haction, hstate, hduration⟩ := hsame
        refine hne ?_
        cases last
        cases r
        simp_all
      · refine Or.inr ⟨?_, Or.inl (hconflict.mpr ⟨huser, horder', ?_⟩)⟩
        · unfold ensure
          rw [if_neg hsame]
          exact ⟨_, rfl⟩
        · rintro rfl
          exact hsame ⟨rfl, rfl, rfl⟩
    · rw [if_neg horder]
      refine Or.inl ⟨accounts, rfl, hkept ?_⟩
      rw [hconflict]
      exact fun ⟨_, horder', _⟩ => horder (order_eq_iff.mp horder')
  · -- a new account: the one before is done
    rw [if_pos huser]
    have hno : ¬ Conflict (rows ++ [r]) := by
      rw [conflict_snoc h.noConflict hle hmem hr]
      exact fun ⟨hsame, _⟩ => huser hsame
    have hother : ∀ a ∈ rows, a.targetUser ≠ r.targetUser := by
      intro a ha heq
      exact huser (le_antisymm (targetUser_le hr) (heq ▸ targetUser_le (hle a ha)))
    have hlatest := latest_last hle hmem
    cases hfinish : finishBlockState last accounts with
    | error e =>
      exact Or.inr ⟨⟨e, rfl⟩, Or.inr ⟨last, (latest_snoc_of_ne huser).mpr hlatest, huser,
        finishBlockState_error ⟨e, hfinish⟩⟩⟩
    | ok accounts' =>
      obtain ⟨hsorted, haccounts, hclassified⟩ := h.finish hle hmem hfinish
      refine Or.inl ⟨accounts', rfl, hno, hsorted, fun account => (haccounts account).trans ?_,
        fun a ha hne => hclassified a ((latest_snoc_of_ne hne).mp ha)⟩
      refine exists_congr fun a => ⟨fun ⟨ha, hrest⟩ => ?_, fun ⟨ha, hne, hrest⟩ => ?_⟩
      · have hne := hother a ha.mem
        exact ⟨(latest_snoc_of_ne hne).mpr ha, hne, hrest⟩
      · exact ⟨(latest_snoc_of_ne hne).mp ha, hrest⟩

/-- A failure stays one. -/
theorem Failed.snoc (h : Failed rows last) (hle : ∀ b ∈ rows, b ≤ last) (hr : last ≤ r) :
    Failed (rows ++ [r]) r := by
  rcases h with hconflict | ⟨a, ha, hne, hstate⟩
  · exact Or.inl (hconflict.mono fun b hb => List.mem_append_left _ hb)
  · have hne' : a.targetUser ≠ r.targetUser := fun heq => hne (le_antisymm
      (targetUser_le (hle a ha.mem)) (heq ▸ targetUser_le hr))
    exact Or.inr ⟨a, (latest_snoc_of_ne hne').mpr ha, hne', hstate⟩

theorem reduced_singleton (r : AccountBlockStateSortRow) : Reduced [r] r [] := by
  have hsame : ∀ a, Latest [r] a → a.targetUser = r.targetUser := fun a ha =>
    congrArg AccountBlockStateSortRow.targetUser (List.mem_singleton.mp ha.mem)
  refine ⟨?_, List.Pairwise.nil, fun account => ?_, fun a ha hne => absurd (hsame a ha) hne⟩
  · rintro ⟨a, ha, b, hb, -, -, hne⟩
    exact hne ((List.mem_singleton.mp ha).trans (List.mem_singleton.mp hb).symm)
  · exact ⟨fun h => absurd h List.not_mem_nil, fun ⟨a, ha, hne, _⟩ => absurd (hsame a ha) hne⟩

/-- **The reduction of sorted rows**, row by row. -/
theorem foldlM_reduceStep (hsorted : (rows ++ [r]).Pairwise (· ≤ ·)) :
    (∃ accounts, (rows ++ [r]).foldlM reduceStep (none, []) = .ok (some r, accounts) ∧
      Reduced (rows ++ [r]) r accounts) ∨
    ((∃ e, (rows ++ [r]).foldlM reduceStep (none, []) = .error e) ∧ Failed (rows ++ [r]) r) := by
  induction rows using List.reverseRecOn generalizing r with
  | nil => exact Or.inl ⟨[], rfl, reduced_singleton r⟩
  | append_singleton rows last ih =>
    obtain ⟨hbefore, -, hle⟩ := List.pairwise_append.mp hsorted
    have hr : last ≤ r := hle last (by simp) r (by simp)
    have hlast : ∀ b ∈ rows ++ [last], b ≤ last := by
      intro b hb
      rcases List.mem_append.mp hb with hb | hb
      · exact (List.pairwise_append.mp hbefore).2.2 b hb last (by simp)
      · exact le_of_eq (List.mem_singleton.mp hb)
    rw [List.foldlM_append]
    rcases ih hbefore with ⟨accounts, hfold, hreduced⟩ | ⟨⟨e, hfold⟩, hfailed⟩
    · rw [hfold]
      show (∃ accounts, (([r] : List _).foldlM reduceStep (some last, _) = _) ∧ _) ∨
        ((∃ e, ([r] : List _).foldlM reduceStep (some last, _) = _) ∧ _)
      rw [List.foldlM_cons]
      unfold reduceStep
      rcases hreduced.step hlast (by simp) hr with ⟨accounts', hok, hstep⟩ | ⟨⟨e, herror⟩, hfailed⟩
      · rw [hok]
        exact Or.inl ⟨accounts', rfl, hstep⟩
      · rw [herror]
        exact Or.inr ⟨⟨e, rfl⟩, hfailed⟩
    · rw [hfold]
      exact Or.inr ⟨⟨e, rfl⟩, hfailed.snoc hlast hr⟩

theorem exists_snoc_of_ne_nil {α : Type} {l : List α} (h : l ≠ []) : ∃ init a, l = init ++ [a] :=
  ⟨l.dropLast, l.getLast h, (List.dropLast_append_getLast h).symm⟩

/-- **The reduction of a spool**: it fails exactly on a conflict or an open state, and else
names the accounts whose latest transition is an indefinite block. -/
theorem reduceBlockStateSpool_spec (batchRows : ℕ) {fanIn : ℕ} (hfan : 2 ≤ fanIn)
    {spool : List AccountBlockStateSortRow} (hspool : spool ≠ []) :
    ∃ rounds, ∀ fuel ≥ rounds, ∃ result,
      reduceBlockStateSpool batchRows fanIn fuel spool = some result ∧
      ((∃ message, result = .error message) ↔ Conflict spool ∨ Unclassified spool) ∧
      ∀ accounts, result = .ok accounts → Decided spool accounts := by
  obtain ⟨rounds, hrounds⟩ := externalSortSpool_eq batchRows hfan hspool
  refine ⟨rounds, fun fuel hfuel => ?_⟩
  unfold reduceBlockStateSpool
  rw [hrounds fuel hfuel]
  have hperm := sortRows_perm spool
  have hsorted := sortRows_pairwise spool
  obtain ⟨before, r, hsnoc⟩ := exists_snoc_of_ne_nil fun hnil =>
    hspool (List.Perm.nil_eq (hnil ▸ hperm)).symm
  rw [hsnoc] at hperm hsorted ⊢
  have hle : ∀ b ∈ before ++ [r], b ≤ r := by
    intro b hb
    rcases List.mem_append.mp hb with hb | hb
    · exact (List.pairwise_append.mp hsorted).2.2 b hb r (by simp)
    · exact le_of_eq (List.mem_singleton.mp hb)
  -- what decides is the same for the sorted rows
  have hconflict : Conflict spool ↔ Conflict (before ++ [r]) :=
    ⟨fun h => h.mono fun b => hperm.mem_iff.mpr, fun h => h.mono fun b => hperm.mem_iff.mp⟩
  have hunclassified : Unclassified spool ↔ Unclassified (before ++ [r]) :=
    exists_congr fun a => and_congr_left fun _ => (Latest.perm hperm).symm
  rw [hconflict, hunclassified]
  refine ⟨_, rfl, ?_⟩
  rcases foldlM_reduceStep hsorted with ⟨accounts, hfold, hreduced⟩ | ⟨⟨e, hfold⟩, hfailed⟩
  · rw [hfold]
    show ((∃ message, finishBlockState r accounts = .error message) ↔ _) ∧
      ∀ accounts', finishBlockState r accounts = .ok accounts' → _
    refine ⟨⟨fun herror => ?_, ?_⟩, fun accounts' hfinish => ?_⟩
    · exact Or.inr ⟨r, latest_last hle (by simp), finishBlockState_error herror⟩
    · rintro (hconflict | ⟨a, ha, hstate⟩)
      · exact absurd hconflict hreduced.noConflict
      · cases hfinish : finishBlockState r accounts with
        | error e => exact ⟨e, rfl⟩
        | ok accounts' =>
          exact absurd hstate ((hreduced.finish hle (by simp) hfinish).classified a ha)
    · obtain ⟨hpairwise, haccounts, hclassified⟩ := hreduced.finish hle (by simp) hfinish
      refine ⟨hpairwise, fun account => (haccounts account).trans ?_, fun a ha => ?_⟩
      · exact exists_congr fun a => and_congr_left fun _ => Latest.perm hperm
      · exact hclassified a ((Latest.perm hperm).mpr ha)
  · rw [hfold]
    refine ⟨⟨fun _ => ?_, fun _ => ⟨e, rfl⟩⟩, fun accounts h =>
      absurd h (by simp [bind, Except.bind])⟩
    rcases hfailed with hconflict | ⟨a, ha, -, hstate⟩
    · exact Or.inl hconflict
    · exact Or.inr ⟨a, ha, hstate⟩

end Reduce

/-! ## The fold in any order -/

section Fold

variable {rows : List AccountBlockStateSortRow} {r : AccountBlockStateSortRow}
  {transitions : String → Option AccountBlockTransition}

/-- The map holds the latest transition of every account. -/
structure Folded (rows : List AccountBlockStateSortRow)
    (transitions : String → Option AccountBlockTransition) : Prop where
  latest : ∀ a, Latest rows a → transitions a.targetUser = some a.transition
  origin : ∀ user t, transitions user = some t →
    ∃ a, Latest rows a ∧ a.targetUser = user ∧ a.transition = t

theorem folded_nil : Folded [] fun _ => none :=
  ⟨fun _ ha => absurd ha.mem List.not_mem_nil, fun _ _ h => absurd h (by simp)⟩

/-- A row that is not before the latest of its account takes its place. -/
theorem Folded.insert (h : Folded rows transitions)
    (hnew : ∀ a, Latest rows a → a.targetUser = r.targetUser → a.order < r.order) :
    Folded (rows ++ [r]) (Function.update transitions r.targetUser (some r.transition)) := by
  have hbefore : ∀ b ∈ rows, b.targetUser = r.targetUser → b.order < r.order := by
    intro b hb huser
    obtain ⟨l, hl, hsame⟩ := exists_latest hb
    exact lt_of_le_of_lt (hl.le b hb hsame.symm) (hnew l hl (hsame.trans huser))
  have hr : Latest (rows ++ [r]) r := by
    refine ⟨by simp, fun b hb huser => ?_⟩
    rcases List.mem_append.mp hb with hb | hb
    · exact le_of_lt (hbefore b hb huser)
    · rw [List.mem_singleton.mp hb]
  refine ⟨fun a ha => ?_, fun user t ht => ?_⟩
  · by_cases huser : a.targetUser = r.targetUser
    · have heq : a = r := by
        rcases List.mem_append.mp ha.mem with hmem | hmem
        · exact absurd (ha.le r hr.mem huser.symm) (not_le.mpr (hbefore a hmem huser))
        · exact List.mem_singleton.mp hmem
      rw [heq, Function.update_self]
    · rw [Function.update_of_ne huser]
      exact h.latest a ((latest_snoc_of_ne huser).mp ha)
  · by_cases huser : user = r.targetUser
    · subst huser
      rw [Function.update_self] at ht
      exact ⟨r, hr, rfl, Option.some.inj ht⟩
    · rw [Function.update_of_ne huser] at ht
      obtain ⟨a, ha, rfl, rfl⟩ := h.origin user t ht
      exact ⟨a, (latest_snoc_of_ne huser).mpr ha, rfl, rfl⟩

/-- A row that is not after the latest of its account, and agrees with it if it is as late,
changes nothing. -/
theorem Folded.skip (h : Folded rows transitions) {l : AccountBlockStateSortRow}
    (hl : Latest rows l) (huser : l.targetUser = r.targetUser) (hle : r.order ≤ l.order)
    (hstate : r.order = l.order → r.transition = l.transition) :
    Folded (rows ++ [r]) transitions := by
  have hkeep : ∀ a, Latest rows a → Latest (rows ++ [r]) a := by
    intro a ha
    by_cases hsame : a.targetUser = r.targetUser
    · refine ⟨List.mem_append_left _ ha.mem, fun b hb hb' => ?_⟩
      rcases List.mem_append.mp hb with hb | hb
      · exact ha.le b hb hb'
      · rw [List.mem_singleton.mp hb]
        exact hle.trans (ha.le l hl.mem (huser.trans hsame.symm))
    · exact (latest_snoc_of_ne hsame).mpr ha
  refine ⟨fun a ha => ?_, fun user t ht => ?_⟩
  · rcases List.mem_append.mp ha.mem with hmem | hmem
    · exact h.latest a ⟨hmem, fun b hb => ha.le b (List.mem_append_left _ hb)⟩
    · obtain rfl := List.mem_singleton.mp hmem
      have horder := le_antisymm hle (ha.le l (List.mem_append_left _ hl.mem) huser)
      rw [hstate horder, ← huser]
      exact h.latest l hl
  · obtain ⟨a, ha, hrest⟩ := h.origin user t ht
    exact ⟨a, hkeep a ha, hrest⟩

/-- **One row** of the fold. -/
theorem Folded.step (h : Folded rows transitions) :
    (∃ transitions', updateNamedBlockTransition transitions r.targetUser r.transition
        = .ok transitions' ∧ Folded (rows ++ [r]) transitions') ∨
    ((∃ e, updateNamedBlockTransition transitions r.targetUser r.transition = .error e) ∧
      StateConflict (rows ++ [r])) := by
  unfold updateNamedBlockTransition
  cases hexisting : transitions r.targetUser with
  | none =>
    refine Or.inl ⟨_, rfl, h.insert fun a ha huser => ?_⟩
    have hsome := h.latest a ha
    rw [huser, hexisting] at hsome
    exact absurd hsome (by simp)
  | some existing =>
    obtain ⟨l, hl, huser, rfl⟩ := h.origin _ _ hexisting
    dsimp only
    by_cases horder : l.order = r.order
    · rw [if_pos (show l.transition.order = r.transition.order from horder)]
      by_cases hstate : l.resultingState = r.resultingState
      · refine Or.inl ⟨transitions, bind_eq_ok.mpr ⟨(), ensure_eq_ok.mpr hstate, rfl⟩,
          h.skip hl huser (le_of_eq horder.symm) fun _ => ?_⟩
        obtain ⟨htimestamp, hlog⟩ := order_eq_iff.mp horder
        unfold AccountBlockStateSortRow.transition
        rw [htimestamp, hlog, hstate]
      · refine Or.inr ⟨?_, l, List.mem_append_left _ hl.mem, r, by simp, huser, horder, hstate⟩
        unfold ensure
        rw [if_neg (show ¬ l.transition.state = r.transition.state from hstate)]
        exact ⟨_, rfl⟩
    · rw [if_neg (show ¬ l.transition.order = r.transition.order from horder)]
      by_cases hlt : r.order < l.order
      · rw [if_pos (show r.transition.order < l.transition.order from hlt)]
        exact Or.inl ⟨transitions, rfl, h.skip hl huser (le_of_lt hlt) fun heq =>
          absurd heq.symm horder⟩
      · rw [if_neg (show ¬ r.transition.order < l.transition.order from hlt)]
        refine Or.inl ⟨_, rfl, h.insert fun a ha hsame => ?_⟩
        refine lt_of_le_of_lt (hl.le a ha.mem (hsame.trans huser.symm)) ?_
        exact lt_of_le_of_ne (not_lt.mp hlt) horder

theorem StateConflict.mono {rows' : List AccountBlockStateSortRow} (h : StateConflict rows)
    (hsub : ∀ b ∈ rows, b ∈ rows') : StateConflict rows' := by
  obtain ⟨a, ha, b, hb, hrest⟩ := h
  exact ⟨a, hsub a ha, b, hsub b hb, hrest⟩

/-- **The fold**, over rows in any order. -/
theorem foldTransitions_cases (rows : List AccountBlockStateSortRow) :
    (∃ transitions, foldTransitions rows = .ok transitions ∧ Folded rows transitions) ∨
    ((∃ e, foldTransitions rows = .error e) ∧ StateConflict rows) := by
  induction rows using List.reverseRecOn with
  | nil => exact Or.inl ⟨_, rfl, folded_nil⟩
  | append_singleton rows r ih =>
    have hfold : foldTransitions (rows ++ [r]) = (foldTransitions rows).bind fun transitions =>
        updateNamedBlockTransition transitions r.targetUser r.transition := by
      unfold foldTransitions
      rw [List.foldlM_append]
      refine congrArg (Except.bind _) (funext fun transitions => ?_)
      rw [List.foldlM_cons]
      exact bind_pure _
    rw [hfold]
    rcases ih with ⟨transitions, hok, hfolded⟩ | ⟨⟨e, herror⟩, hconflict⟩
    · rw [hok]
      exact hfolded.step
    · rw [herror]
      exact Or.inr ⟨⟨e, rfl⟩, hconflict.mono fun b hb => List.mem_append_left _ hb⟩

end Fold

theorem Folded.eq_some_iff {rows : List AccountBlockStateSortRow}
    {transitions : String → Option AccountBlockTransition} (h : Folded rows transitions)
    {user : String} {t : AccountBlockTransition} :
    transitions user = some t ↔ ∃ a, Latest rows a ∧ a.targetUser = user ∧ a.transition = t := by
  constructor
  · exact h.origin user t
  · rintro ⟨a, ha, rfl, rfl⟩
    exact h.latest a ha

/-- The fold stops at a conflict of latest rows, in whatever order they come. -/
theorem foldTransitions_error {rows : List AccountBlockStateSortRow} (h : LatestConflict rows) :
    ∃ e, foldTransitions rows = .error e := by
  rcases foldTransitions_cases rows with ⟨transitions, -, hfolded⟩ | ⟨herror, -⟩
  · obtain ⟨a, b, ha, hb, huser, hstate⟩ := h
    have heq := (hfolded.latest a ha).symm.trans (huser ▸ hfolded.latest b hb)
    exact absurd (congrArg AccountBlockTransition.state (Option.some.inj heq)) hstate
  · exact herror

/-- Without a conflict the fold finds the accounts of the reduction. -/
theorem Decided.agrees {rows arrived : List AccountBlockStateSortRow}
    {accounts : List IndefinitelyBlockedAccount} (h : Decided rows accounts)
    (hno : ¬ Conflict rows) (hperm : arrived.Perm rows) :
    ∃ transitions, foldTransitions arrived = .ok transitions ∧
      ∀ user, user ∈ accounts.map IndefinitelyBlockedAccount.normalizedName ↔
        ∃ t, transitions user = some t ∧ t.state = .indefinite := by
  rcases foldTransitions_cases arrived with ⟨transitions, hok, hfolded⟩ | ⟨-, hconflict⟩
  · refine ⟨transitions, hok, fun user => ?_⟩
    simp only [hfolded.eq_some_iff]
    constructor
    · intro hmem
      obtain ⟨account, haccount, rfl⟩ := List.mem_map.mp hmem
      obtain ⟨a, ha, hstate, rfl⟩ := (h.accounts account).mp haccount
      exact ⟨a.transition, ⟨a, (Latest.perm hperm).mpr ha, rfl, rfl⟩, hstate⟩
    · rintro ⟨t, ⟨a, ha, rfl, rfl⟩, hstate⟩
      exact List.mem_map.mpr ⟨a.account,
        (h.accounts _).mpr ⟨a, (Latest.perm hperm).mp ha, hstate, rfl⟩, rfl⟩
  · obtain ⟨a, ha, b, hb, huser, horder, hne⟩ := hconflict
    exact absurd ⟨a, hperm.mem_iff.mp ha, b, hperm.mem_iff.mp hb, huser, horder,
      fun heq => hne (congrArg _ heq)⟩ hno

/-! ## The two paths -/

/-- What the two paths promise of the rows of a spool. -/
structure BlockStates (batchRows fanIn : ℕ) (rows : List AccountBlockStateSortRow) : Prop where
  /-- The external sort ends, and hands the rows on in order. -/
  sorts : (sortRows rows).Perm rows ∧ (sortRows rows).Pairwise (· ≤ ·) ∧
    ∀ σ : Type, ∃ rounds, ∀ fuel ≥ rounds,
      ∀ (emit : σ → AccountBlockStateSortRow → Except String σ) (start : σ),
        externalSortSpool batchRows fanIn fuel rows emit start
          = some ((sortRows rows).foldlM emit start)
  reduces : ∃ rounds, ∀ fuel ≥ rounds, ∃ result,
    reduceBlockStateSpool batchRows fanIn fuel rows = some result ∧
    ((∃ message, result = .error message) ↔ Conflict rows ∨ Unclassified rows) ∧
    ∀ accounts, result = .ok accounts → Decided rows accounts ∧
      -- the fold finds the same accounts
      ∀ arrived, arrived.Perm rows → ∃ transitions, foldTransitions arrived = .ok transitions ∧
        ∀ user, user ∈ accounts.map IndefinitelyBlockedAccount.normalizedName ↔
          ∃ t, transitions user = some t ∧ t.state = .indefinite
  /-- The fold, over the same rows in any order. -/
  folds : ∀ arrived, arrived.Perm rows →
    (LatestConflict rows → ∃ e, foldTransitions arrived = .error e) ∧
    (¬ StateConflict rows → ∃ transitions, foldTransitions arrived = .ok transitions) ∧
    ∀ transitions, foldTransitions arrived = .ok transitions → ∀ user t,
      transitions user = some t ↔ ∃ a, Latest rows a ∧ a.targetUser = user ∧ a.transition = t

/-- **Block states**: the reduction is exact, and the fold finds the same latest transitions. -/
theorem blockStates (batchRows : ℕ) {fanIn : ℕ} (hfan : 2 ≤ fanIn)
    {rows : List AccountBlockStateSortRow} (hrows : rows ≠ []) :
    BlockStates batchRows fanIn rows where
  sorts := ⟨sortRows_perm rows, sortRows_pairwise rows, fun _ =>
    externalSortSpool_eq batchRows hfan hrows⟩
  reduces := by
    obtain ⟨rounds, hrounds⟩ := reduceBlockStateSpool_spec batchRows hfan hrows
    refine ⟨rounds, fun fuel hfuel => ?_⟩
    obtain ⟨result, hresult, hfails, hdecided⟩ := hrounds fuel hfuel
    refine ⟨result, hresult, hfails, fun accounts hok => ⟨hdecided accounts hok, ?_⟩⟩
    have hno : ¬ Conflict rows := fun hconflict => by
      obtain ⟨message, herror⟩ := hfails.mpr (Or.inl hconflict)
      exact absurd (hok.symm.trans herror) (by simp)
    exact fun arrived => (hdecided accounts hok).agrees hno
  folds := by
    intro arrived hperm
    have hlatest (a) : Latest arrived a ↔ Latest rows a := Latest.perm hperm
    refine ⟨fun ⟨a, b, ha, hb, hrest⟩ => ?_, fun hno => ?_, fun transitions hok user t => ?_⟩
    · exact foldTransitions_error ⟨a, b, (hlatest a).mpr ha, (hlatest b).mpr hb, hrest⟩
    · rcases foldTransitions_cases arrived with ⟨transitions, hok, -⟩ | ⟨-, hconflict⟩
      · exact ⟨transitions, hok⟩
      · exact absurd (hconflict.mono fun b => hperm.mem_iff.mp) hno
    · rcases foldTransitions_cases arrived with ⟨transitions', hok', hfolded⟩ | ⟨⟨e, herror⟩, -⟩
      · obtain rfl := Except.ok.inj (hok'.symm.trans hok)
        rw [hfolded.eq_some_iff]
        exact exists_congr fun a => and_congr_left fun _ => hlatest a
      · exact absurd (herror.symm.trans hok) (by simp)

def blockRow (timestamp : String) (state : AccountBlockState) : AccountBlockStateSortRow :=
  ⟨"A", timestamp, 1, "block", state, none⟩

theorem blockStates_twoRows : BlockStates 1 2 [blockRow "2024-02-01 00:00:00" .indefinite,
    blockRow "2024-01-01 00:00:00" .notIndefinite] :=
  blockStates 1 (by decide) (by simp)

/-- A spool without rows is refused; and rows that the reduction refuses for a conflict below
the latest are folded or refused by the order in which they come. -/
theorem conflict_depends_on_order :
    reduceBlockStateSpool 2 2 0 [] = some (.error "monthly patrol spool is empty") ∧
    (∃ e, reduceBlockStateSpool 2 2 2 [blockRow "2024-02-01 00:00:00" .indefinite,
      blockRow "2024-01-01 00:00:00" .indefinite, blockRow "2024-01-01 00:00:00" .notIndefinite]
        = some (.error e)) ∧
    (∃ transitions, foldTransitions [blockRow "2024-02-01 00:00:00" .indefinite,
      blockRow "2024-01-01 00:00:00" .indefinite, blockRow "2024-01-01 00:00:00" .notIndefinite]
        = .ok transitions) ∧
    ∃ e, foldTransitions [blockRow "2024-01-01 00:00:00" .indefinite,
      blockRow "2024-01-01 00:00:00" .notIndefinite, blockRow "2024-02-01 00:00:00" .indefinite]
        = .error e := by
  refine ⟨rfl, ?_, ?_, ?_⟩
  · exact ⟨"conflicting account block transitions for A at 2024-01-01 00:00:00 / 1",
      by decide +kernel⟩
  · exact ⟨_, rfl⟩
  · exact ⟨_, rfl⟩

end WikiEcon.Patrol
