import WikiEcon.Lib.Transition

/-!
# Programs of atomic calls

A process that works on a shared store does so one call at a time, and what it
does next depends on what it was answered. `Program` is the tree of these
possibilities. The same program can be run alone to its end (`run`), be cut off
after any number of calls (`steps`), or take turns with others (`Machine`).

What a program does to the store is said in two ways. `Always` follows one store
through a program and asks for an invariant after each call. `Obeys` knows no
store at all: it follows what the process has learned, and says which calls it
makes knowing what. Other processes cannot spoil it, so it is the part of a
proof that survives interleaving.
-/

namespace Programs

/-- Done, failed, or a call and what follows each answer. -/
inductive Program (ε Call : Type) (Answer : Call → Type) (α : Type) : Type
  | done (result : α)
  | fail (error : ε)
  | call (c : Call) (rest : Answer c → Program ε Call Answer α)

variable {ε Call α β σ κ : Type} {Answer : Call → Type}

namespace Program

def bind : Program ε Call Answer α → (α → Program ε Call Answer β) → Program ε Call Answer β
  | .done a, next => next a
  | .fail e, _ => .fail e
  | .call c rest, next => .call c fun answer => (rest answer).bind next

instance : Monad (Program ε Call Answer) where
  pure := .done
  bind := bind

/-- Make one call. -/
def ask (c : Call) : Program ε Call Answer (Answer c) := .call c .done

/-- `?` on a value that is there already. -/
def check : Except ε α → Program ε Call Answer α
  | .ok a => .done a
  | .error e => .fail e

/-- A program whose failure is looked at. -/
def attempt : Program ε Call Answer α → Program ε Call Answer (Except ε α)
  | .done a => .done (.ok a)
  | .fail e => .done (.error e)
  | .call c rest => .call c fun answer => attempt (rest answer)

@[simp] theorem pure_eq_done (a : α) : (pure a : Program ε Call Answer α) = .done a := rfl

@[simp] theorem done_bind (a : α) (next : α → Program ε Call Answer β) :
    (Program.done a >>= next) = next a := rfl

@[simp] theorem fail_bind (e : ε) (next : α → Program ε Call Answer β) :
    (Program.fail e >>= next) = .fail e := rfl

@[simp] theorem call_bind (c : Call) (rest : Answer c → Program ε Call Answer α)
    (next : α → Program ε Call Answer β) :
    (Program.call c rest >>= next) = .call c fun answer => rest answer >>= next := rfl

@[simp] theorem ask_bind (c : Call) (next : Answer c → Program ε Call Answer β) :
    (ask c >>= next) = .call c next := rfl

@[simp] theorem check_ok (a : α) : (check (.ok a) : Program ε Call Answer α) = .done a := rfl

@[simp] theorem check_error (e : ε) :
    (check (.error e) : Program ε Call Answer α) = .fail e := rfl

/-! ## Alone -/

section Alone

variable (perform : σ → (c : Call) → Answer c × σ)

/-- Run to the end. -/
def run : Program ε Call Answer α → σ → Except ε α × σ
  | .done a, s => (.ok a, s)
  | .fail e, s => (.error e, s)
  | .call c rest, s => (rest (perform s c).1).run (perform s c).2

theorem run_attempt (p : Program ε Call Answer α) (s : σ) :
    p.attempt.run perform s = (.ok (p.run perform s).1, (p.run perform s).2) := by
  induction p generalizing s with
  | done a => rfl
  | fail e => rfl
  | call c rest ih => exact ih _ _

/-- The process is cut off after `n` calls: what it had still to do, and the
store it leaves. -/
def steps : ℕ → Program ε Call Answer α → σ → Program ε Call Answer α × σ
  | n + 1, .call c rest, s => (rest (perform s c).1).steps n (perform s c).2
  | _, p, s => (p, s)

@[simp] theorem run_done (a : α) (s : σ) :
    (.done a : Program ε Call Answer α).run perform s = (.ok a, s) := rfl

@[simp] theorem run_fail (e : ε) (s : σ) :
    (.fail e : Program ε Call Answer α).run perform s = (.error e, s) := rfl

@[simp] theorem run_call (c : Call) (rest : Answer c → Program ε Call Answer α) (s : σ) :
    (Program.call c rest).run perform s
      = (rest (perform s c).1).run perform (perform s c).2 := rfl

theorem run_bind (p : Program ε Call Answer α) (next : α → Program ε Call Answer β) (s : σ) :
    (p >>= next).run perform s = match p.run perform s with
      | (.ok a, t) => (next a).run perform t
      | (.error e, t) => (.error e, t) := by
  induction p generalizing s with
  | done a => rfl
  | fail e => rfl
  | call c rest ih => exact ih _ _

theorem run_bind_ok {p : Program ε Call Answer α} {next : α → Program ε Call Answer β} {s t : σ}
    {a : α} (h : p.run perform s = (.ok a, t)) :
    (p >>= next).run perform s = (next a).run perform t := by
  rw [run_bind, h]

theorem run_bind_error {p : Program ε Call Answer α} {next : α → Program ε Call Answer β} {s : σ}
    {e : ε} (h : (p.run perform s).1 = .error e) :
    ((p >>= next).run perform s).1 = .error e := by
  rw [run_bind]
  split
  next hok =>
    rw [hok] at h
    exact absurd h (by simp)
  next herror =>
    rw [herror] at h
    exact congrArg _ (Except.error.inj h)

/-- A loop none of whose turns fails or changes the store. -/
theorem exists_run_foldlM {ι : Type} {body : β → ι → Program ε Call Answer β} {s : σ}
    (hbody : ∀ b i, ∃ b', (body b i).run perform s = (.ok b', s)) (l : List ι) (b : β) :
    ∃ b', (l.foldlM body b).run perform s = (.ok b', s) := by
  induction l generalizing b with
  | nil => exact ⟨b, rfl⟩
  | cons i l ih =>
    obtain ⟨b₁, hturn⟩ := hbody b i
    obtain ⟨b₂, hrest⟩ := ih b₁
    exact ⟨b₂, by rw [List.foldlM_cons, run_bind_ok perform hturn, hrest]⟩

/-- How two programs in a row can end. -/
theorem run_bind_cases {p : Program ε Call Answer α} {next : α → Program ε Call Answer β}
    {s t : σ} {r : Except ε β} (h : (p >>= next).run perform s = (r, t)) :
    (∃ e, r = .error e ∧ p.run perform s = (.error e, t)) ∨
      ∃ a u, p.run perform s = (.ok a, u) ∧ (next a).run perform u = (r, t) := by
  rw [run_bind] at h
  split at h
  next a u hp => exact Or.inr ⟨a, u, hp, h⟩
  next e u hp =>
    obtain ⟨rfl, rfl⟩ := Prod.mk.inj h
    exact Or.inl ⟨e, rfl, hp⟩

theorem run_bind_eq_ok {p : Program ε Call Answer α} {next : α → Program ε Call Answer β}
    {s t : σ} {b : β} (h : (p >>= next).run perform s = (.ok b, t)) :
    ∃ a u, p.run perform s = (.ok a, u) ∧ (next a).run perform u = (.ok b, t) := by
  rcases run_bind_cases perform h with ⟨e, he, -⟩ | hboth
  · cases he
  · exact hboth

/-- A program with something made of its result. -/
theorem run_map {p : Program ε Call Answer α} {f : α → β} {s t : σ} {r : Except ε β}
    (h : (p >>= fun a => Program.done (f a)).run perform s = (r, t)) :
    ∃ answer, p.run perform s = (answer, t) ∧ r = answer.map f := by
  rcases run_bind_cases perform h with ⟨e, rfl, hp⟩ | ⟨a, u, hp, hdone⟩
  · exact ⟨_, hp, rfl⟩
  · obtain ⟨rfl, rfl⟩ := Prod.mk.inj hdone
    exact ⟨_, hp, rfl⟩

/-- The invariant holds before the program, after each of its calls, and at its
end; there, if it does not fail, `post` holds too. -/
def Always (inv : σ → Prop) (post : α → σ → Prop) : Program ε Call Answer α → σ → Prop
  | .done a, s => inv s ∧ post a s
  | .fail _, s => inv s
  | .call c rest, s => inv s ∧ (rest (perform s c).1).Always inv post (perform s c).2

variable {perform} {inv : σ → Prop} {post : α → σ → Prop}

theorem Always.now : ∀ {p : Program ε Call Answer α} {s : σ}, p.Always perform inv post s → inv s
  | .done _, _, h => h.1
  | .fail _, _, h => h
  | .call _ _, _, h => h.1

/-- The rule for two programs in a row. -/
theorem Always.bind {mid : α → σ → Prop} {post : β → σ → Prop} {p : Program ε Call Answer α}
    {next : α → Program ε Call Answer β} {s : σ} (hp : p.Always perform inv mid s)
    (hnext : ∀ a t, inv t → mid a t → (next a).Always perform inv post t) :
    (p >>= next).Always perform inv post s := by
  induction p generalizing s with
  | done a => exact hnext a s hp.1 hp.2
  | fail e => exact hp
  | call c rest ih => exact ⟨hp.1, ih _ hp.2⟩

theorem Always.mono {post' : α → σ → Prop} (hpost : ∀ a s, post a s → post' a s) :
    ∀ {p : Program ε Call Answer α} {s : σ}, p.Always perform inv post s →
      p.Always perform inv post' s
  | .done _, _, h => ⟨h.1, hpost _ _ h.2⟩
  | .fail _, _, h => h
  | .call _ _, _, h => ⟨h.1, h.2.mono hpost⟩

/-- The invariant holds at the end too. -/
theorem Always.keeps : ∀ {p : Program ε Call Answer α} {s : σ}, p.Always perform inv post s →
    p.Always perform inv (fun a s => inv s ∧ post a s) s
  | .done _, _, h => ⟨h.1, h⟩
  | .fail _, _, h => h
  | .call _ _, _, h => ⟨h.1, h.2.keeps⟩

theorem Always.attempt : ∀ {p : Program ε Call Answer α} {s : σ}, p.Always perform inv post s →
    p.attempt.Always perform inv (fun result s => ∀ a, result = .ok a → post a s) s
  | .done _, _, h => ⟨h.1, fun _ ha => Except.ok.inj ha ▸ h.2⟩
  | .fail _, _, h => ⟨h, fun _ ha => absurd ha (by simp)⟩
  | .call _ _, _, h => ⟨h.1, h.2.attempt⟩

/-- A stronger invariant will do. -/
theorem Always.weaken {inv' : σ → Prop} (hinv : ∀ s, inv s → inv' s) :
    ∀ {p : Program ε Call Answer α} {s : σ}, p.Always perform inv post s →
      p.Always perform inv' post s
  | .done _, _, h => ⟨hinv _ h.1, h.2⟩
  | .fail _, _, h => hinv _ h
  | .call _ _, _, h => ⟨hinv _ h.1, h.2.weaken hinv⟩

/-- The rule for a loop that adds something up: `mid` is kept by each turn. -/
theorem Always.foldlM {ι : Type} {mid : β → σ → Prop} {body : β → ι → Program ε Call Answer β} :
    ∀ {l : List ι} {s : σ} {b : β},
      (∀ i ∈ l, ∀ s b, inv s → mid b s → (body b i).Always perform inv mid s) →
      inv s → mid b s → (l.foldlM body b).Always perform inv mid s := by
  intro l
  induction l with
  | nil => intro s b _ hs hb; exact ⟨hs, hb⟩
  | cons i l ih =>
    intro s b hbody hs hb
    rw [List.foldlM_cons]
    refine (hbody i (List.mem_cons_self ..) s b hs hb).bind fun b' t ht hb' => ?_
    exact ih (fun j hj => hbody j (List.mem_cons_of_mem _ hj)) ht hb'

/-- The same where what is kept depends on what is done. -/
theorem Always.foldlM_done {ι : Type} {mid : List ι → β → σ → Prop}
    {body : β → ι → Program ε Call Answer β} {l : List ι} {s : σ} {b : β}
    (hbody : ∀ done i rest, l = done ++ i :: rest → ∀ s b, inv s → mid done b s →
      (body b i).Always perform inv (mid (done ++ [i])) s)
    (hs : inv s) (hb : mid [] b s) : (l.foldlM body b).Always perform inv (mid l) s := by
  have hfrom : ∀ {rest done : List ι} {s : σ} {b : β}, l = done ++ rest → inv s → mid done b s →
      (rest.foldlM body b).Always perform inv (mid l) s := by
    intro rest
    induction rest with
    | nil =>
      intro done s b hl hs hb
      rw [hl, List.append_nil]
      exact ⟨hs, hb⟩
    | cons i rest ih =>
      intro done s b hl hs hb
      rw [List.foldlM_cons]
      refine (hbody done i rest hl s b hs hb).bind fun b' t ht hb' => ih ?_ ht hb'
      rw [hl, List.append_assoc]
      rfl
  exact hfrom rfl hs hb

theorem Always.run {p : Program ε Call Answer α} {s : σ} (h : p.Always perform inv post s) :
    inv (p.run perform s).2 ∧ ∀ a, (p.run perform s).1 = .ok a → post a (p.run perform s).2 := by
  induction p generalizing s with
  | done a =>
    refine ⟨h.1, fun b hb => ?_⟩
    obtain rfl := Except.ok.inj hb
    exact h.2
  | fail e => exact ⟨h, fun b hb => absurd hb (by simp)⟩
  | call c rest ih => exact ih _ h.2

/-- **A cut-off process leaves the invariant**, and the rest of it would. -/
theorem Always.steps {p : Program ε Call Answer α} {s : σ} (h : p.Always perform inv post s)
    (n : ℕ) : (p.steps perform n s).1.Always perform inv post (p.steps perform n s).2 := by
  induction n generalizing p s with
  | zero => cases p <;> exact h
  | succ n ih =>
    cases p with
    | done a => exact h
    | fail e => exact h
    | call c rest => exact ih h.2

end Alone

/-! ## What a process knows -/

section Knowledge

variable (learn : κ → (c : Call) → Answer c → κ) (allowed : κ → Call → Prop)
  (raises : κ → ε → Prop)

/-- Whatever it is answered, the process makes only calls it is allowed knowing
what it has learned, and ends knowing `post`. -/
def Obeys (post : κ → α → Prop) : κ → Program ε Call Answer α → Prop
  | k, .done a => post k a
  | k, .fail e => raises k e
  | k, .call c rest => allowed k c ∧ ∀ answer, (rest answer).Obeys post (learn k c answer)

variable {learn allowed raises}

theorem Obeys.mono {post post' : κ → α → Prop} (hpost : ∀ k a, post k a → post' k a) :
    ∀ {p : Program ε Call Answer α} {k : κ}, p.Obeys learn allowed raises post k →
      p.Obeys learn allowed raises post' k
  | .done _, _, h => hpost _ _ h
  | .fail _, _, h => h
  | .call _ _, _, h => ⟨h.1, fun answer => (h.2 answer).mono hpost⟩

/-- The rule for two programs in a row. -/
theorem Obeys.bind {mid : κ → α → Prop} {post : κ → β → Prop} {next : α → Program ε Call Answer β} :
    ∀ {p : Program ε Call Answer α} {k : κ}, p.Obeys learn allowed raises mid k →
      (∀ k' a, mid k' a → (next a).Obeys learn allowed raises post k') →
      (p >>= next).Obeys learn allowed raises post k
  | .done _, _, hp, hnext => hnext _ _ hp
  | .fail _, _, hp, _ => hp
  | .call _ _, _, hp, hnext => ⟨hp.1, fun answer => (hp.2 answer).bind hnext⟩

/-- The rule for a check. -/
theorem Obeys.check {post : κ → α → Prop} {x : Except ε α} {k : κ}
    (hok : ∀ a, x = .ok a → post k a) (herror : ∀ e, x = .error e → raises k e) :
    (Program.check x : Program ε Call Answer α).Obeys learn allowed raises post k := by
  cases x with
  | ok a => exact hok a rfl
  | error e => exact herror e rfl

/-- The rule for a loop: `inv` is kept by each turn. -/
theorem Obeys.forM {ι : Type} (inv : κ → Prop) {body : ι → Program ε Call Answer PUnit} :
    ∀ {l : List ι} {k : κ},
      (∀ i ∈ l, ∀ k, inv k → (body i).Obeys learn allowed raises (fun k' _ => inv k') k) →
      inv k → (l.forM body).Obeys learn allowed raises (fun k' _ => inv k') k := by
  intro l
  induction l with
  | nil => intro k _ hk; exact hk
  | cons i l ih =>
    intro k hbody hk
    show (body i >>= fun _ => l.forM body).Obeys learn allowed raises (fun k' _ => inv k') k
    refine (hbody i (List.mem_cons_self ..) k hk).bind fun k' _ hk' => ?_
    exact ih (fun j hj => hbody j (List.mem_cons_of_mem _ hj)) hk'

/-- The same for a loop that adds something up. -/
theorem Obeys.foldlM {ι : Type} (inv : κ → β → Prop) {body : β → ι → Program ε Call Answer β} :
    ∀ {l : List ι} {k : κ} {b : β},
      (∀ i ∈ l, ∀ k b, inv k b → (body b i).Obeys learn allowed raises inv k) →
      inv k b → (l.foldlM body b).Obeys learn allowed raises inv k := by
  intro l
  induction l with
  | nil => intro k b _ hk; exact hk
  | cons i l ih =>
    intro k b hbody hk
    rw [List.foldlM_cons]
    refine (hbody i (List.mem_cons_self ..) k b hk).bind fun k' b' hk' => ?_
    exact ih (fun j hj => hbody j (List.mem_cons_of_mem _ hj)) hk'

end Knowledge

end Program

/-! ## Side by side -/

/-- The operations that can be started and what their calls do. `learn` is what a
process takes away from an answer. -/
structure Machine (Op κ ε Call : Type) (Answer : Call → Type) (α σ : Type) where
  program : Op → Program ε Call Answer α
  fresh : κ
  learn : κ → (c : Call) → Answer c → κ
  perform : σ → (c : Call) → Answer c × σ

/-- An operation under way, or at its end. -/
structure Process (Op κ ε Call : Type) (Answer : Call → Type) (α : Type) where
  op : Op
  knowledge : κ
  rest : Program ε Call Answer α

/-- The store and the processes that work on it. -/
structure Shared (Op κ ε Call : Type) (Answer : Call → Type) (α σ : Type) where
  store : σ
  processes : List (Process Op κ ε Call Answer α)

variable {Op : Type}

namespace Machine

variable (M : Machine Op κ ε Call Answer α σ)

/-- A new process for the operation. -/
def spawn (op : Op) : Process Op κ ε Call Answer α := ⟨op, M.fresh, M.program op⟩

def start (s : Shared Op κ ε Call Answer α σ) (op : Op) : Shared Op κ ε Call Answer α σ :=
  { s with processes := s.processes ++ [M.spawn op] }

/-- Process `i` makes its next call. -/
def advance (s : Shared Op κ ε Call Answer α σ) (i : ℕ) :
    Option (Shared Op κ ε Call Answer α σ) :=
  match s.processes[i]? with
  | some ⟨op, k, .call c rest⟩ => some {
      store := (M.perform s.store c).2
      processes := s.processes.set i
        ⟨op, M.learn k c (M.perform s.store c).1, rest (M.perform s.store c).1⟩ }
  | _ => none

/-- Process `i` is killed before its next call. -/
def kill (s : Shared Op κ ε Call Answer α σ) (i : ℕ) (e : ε) :
    Option (Shared Op κ ε Call Answer α σ) :=
  match s.processes[i]? with
  | some ⟨op, k, .call _ _⟩ => some { s with processes := s.processes.set i ⟨op, k, .fail e⟩ }
  | _ => none

variable {M}

/-- What a step of process `i` is. -/
theorem advance_eq_some {s t : Shared Op κ ε Call Answer α σ} {i : ℕ} :
    M.advance s i = some t ↔ ∃ op k c rest, s.processes[i]? = some ⟨op, k, .call c rest⟩ ∧
      t = {
        store := (M.perform s.store c).2
        processes := s.processes.set i
          ⟨op, M.learn k c (M.perform s.store c).1, rest (M.perform s.store c).1⟩ } := by
  unfold advance
  constructor
  · intro h
    split at h
    next op k c rest hi => exact ⟨op, k, c, rest, hi, (Option.some.inj h).symm⟩
    next => exact absurd h (by simp)
  · rintro ⟨op, k, c, rest, hi, rfl⟩
    rw [hi]

theorem kill_eq_some {s t : Shared Op κ ε Call Answer α σ} {i : ℕ} {e : ε} :
    kill s i e = some t ↔ ∃ op k c rest, s.processes[i]? = some ⟨op, k, .call c rest⟩ ∧
      t = { s with processes := s.processes.set i ⟨op, k, .fail e⟩ } := by
  unfold kill
  constructor
  · intro h
    split at h
    next op k c rest hi => exact ⟨op, k, c, rest, hi, (Option.some.inj h).symm⟩
    next => exact absurd h (by simp)
  · rintro ⟨op, k, c, rest, hi, rfl⟩
    rw [hi]

section Invariant

variable {inv : Process Op κ ε Call Answer α → Prop}

theorem forall_start {s : Shared Op κ ε Call Answer α σ} (hs : ∀ p ∈ s.processes, inv p) {op : Op}
    (hop : inv (M.spawn op)) : ∀ p ∈ (M.start s op).processes, inv p := by
  intro p hp
  rcases List.mem_append.mp hp with hp | hp
  · exact hs p hp
  · rw [List.mem_singleton.mp hp]
    exact hop

end Invariant

end Machine

end Programs
