import WikiEcon.Lib.Programs

/-!
# Calls that fail

A call to the operating system may fail before it did anything, or after it did all that it was
asked to, as when a file was renamed and its directory could not be synced. Which calls fail,
and how, is a list that every call that can fail takes its turn from.

`Withstands` is `Program.Always` whatever that list is. Its rules speak of the store alone.
`Accomplishes` adds that the program succeeds where no call fails, perhaps on a condition, so that
one derivation says what it does with faults and without.
-/

namespace Programs

inductive Fault
  | none
  | before
  | after
  deriving DecidableEq

/-- A store and the faults that its next calls meet. -/
structure Faulty (σ : Type) where
  store : σ
  faults : List Fault

variable {ε Call σ : Type} {Answer : Call → Type}

/-- Calls that meet faults. -/
def faulty (fallible : Call → Bool) (perform : σ → (c : Call) → Except ε (Answer c) × σ) (error : ε)
    (s : Faulty σ) (c : Call) : Except ε (Answer c) × Faulty σ :=
  match fallible c, s.faults with
  | true, .before :: faults => (.error error, ⟨s.store, faults⟩)
  | true, .after :: faults => (.error error, ⟨(perform s.store c).2, faults⟩)
  | true, .none :: faults => ((perform s.store c).1, ⟨(perform s.store c).2, faults⟩)
  | _, faults => ((perform s.store c).1, ⟨(perform s.store c).2, faults⟩)

/-- A call did what it was asked to or nothing, and if it says that it did not fail it did. -/
theorem faulty_cases (fallible : Call → Bool)
    (perform : σ → (c : Call) → Except ε (Answer c) × σ) (error : ε) (s : Faulty σ) (c : Call) :
    ((faulty fallible perform error s c).1 = (perform s.store c).1 ∧
        (faulty fallible perform error s c).2.store = (perform s.store c).2) ∨
      ((faulty fallible perform error s c).1 = .error error ∧
        ((faulty fallible perform error s c).2.store = s.store ∨
          (faulty fallible perform error s c).2.store = (perform s.store c).2)) := by
  unfold faulty
  split
  · exact Or.inr ⟨rfl, Or.inl rfl⟩
  · exact Or.inr ⟨rfl, Or.inr rfl⟩
  · exact Or.inl ⟨rfl, rfl⟩
  · exact Or.inl ⟨rfl, rfl⟩

variable {fallible : Call → Bool} {perform : σ → (c : Call) → Except ε (Answer c) × σ} {error : ε}
  {s : Faulty σ} {c : Call}

/-- An answer comes from the store. -/
theorem faulty_eq_ok {answer : Answer c} (h : (faulty fallible perform error s c).1 = .ok answer) :
    (perform s.store c).1 = .ok answer ∧
      (faulty fallible perform error s c).2.store = (perform s.store c).2 := by
  rcases faulty_cases fallible perform error s c with ⟨hanswer, hstore⟩ | ⟨herror, -⟩
  · exact ⟨hanswer.symm.trans h, hstore⟩
  · rw [herror] at h
    cases h

/-- A call that only reads leaves the store as it is. -/
theorem faulty_store_of_reads (hreads : (perform s.store c).2 = s.store) :
    (faulty fallible perform error s c).2.store = s.store := by
  rcases faulty_cases fallible perform error s c with ⟨-, hstore⟩ | ⟨-, hstore | hstore⟩
  · exact hstore.trans hreads
  · exact hstore
  · exact hstore.trans hreads

/-! ## Programs whose calls fail -/

theorem run_check {α : Type} (x : Except ε α) (s : σ) :
    (Program.check x : Program ε Call (fun c => Except ε (Answer c)) α).run perform s = (x, s) := by
  cases x with
  | error e => rfl
  | ok a => rfl

theorem run_asked (c : Call) (s : σ) :
    (Program.ask c >>= Program.check : Program ε Call (fun c => Except ε (Answer c)) (Answer c)).run
      perform s = perform s c := by
  show (Program.check (perform s c).1 : Program ε Call _ (Answer c)).run perform (perform s c).2 = _
  rw [run_check]

/-- Without faults the calls are as they are. -/
theorem run_faulty {α : Type} (p : Program ε Call (fun c => Except ε (Answer c)) α) (s : σ) :
    p.run (faulty fallible perform error) ⟨s, []⟩
      = ((p.run perform s).1, ⟨(p.run perform s).2, []⟩) := by
  have hcall : ∀ (s : σ) c, faulty fallible perform error ⟨s, []⟩ c
      = ((perform s c).1, ⟨(perform s c).2, []⟩) := by
    intro s c
    unfold faulty
    cases fallible c with
    | false => rfl
    | true => rfl
  induction p generalizing s with
  | done a => rfl
  | fail e => rfl
  | call c rest ih => rw [Program.run_call, hcall, ih, Program.run_call]

section Withstands

variable {α β : Type} (fallible perform error)

/-- Started on the store, whatever faults its calls meet, a program keeps the invariant, and what
it returns it returns with `post`. -/
def Withstands (inv : σ → Prop) (post : α → σ → Prop)
    (p : Program ε Call (fun c => Except ε (Answer c)) α) (s : σ) : Prop :=
  ∀ faults, p.Always (faulty fallible perform error) (fun w => inv w.store)
    (fun a w => post a w.store) ⟨s, faults⟩

variable {fallible perform error} {inv : σ → Prop} {s : σ}

theorem Withstands.done {post : α → σ → Prop} {a : α} (hs : inv s) (ha : post a s) :
    Withstands fallible perform error inv post (.done a) s :=
  fun _ => ⟨hs, ha⟩

theorem Withstands.fail {post : α → σ → Prop} {e : ε} (hs : inv s) :
    Withstands fallible perform error inv post (.fail e) s :=
  fun _ => hs

/-- The rule for a check. -/
theorem Withstands.check {post : α → σ → Prop} {x : Except ε α} (hs : inv s)
    (hok : ∀ a, x = .ok a → post a s) :
    Withstands fallible perform error inv post (Program.check x) s := by
  cases x with
  | error e => exact .fail hs
  | ok a => exact .done hs (hok a rfl)

/-- The rule for a call and the check of its answer. -/
theorem Withstands.ask {c : Call} {post : Answer c → σ → Prop} (hs : inv s)
    (hafter : inv (perform s c).2)
    (hok : ∀ a, (perform s c).1 = .ok a → post a (perform s c).2) :
    Withstands fallible perform error inv post (Program.ask c >>= Program.check) s := by
  intro faults
  refine ⟨hs, ?_⟩
  cases hanswer : (faulty fallible perform error ⟨s, faults⟩ c).1 with
  | error e =>
    show inv (faulty fallible perform error ⟨s, faults⟩ c).2.store
    rcases faulty_cases fallible perform error ⟨s, faults⟩ c with ⟨-, h⟩ | ⟨-, h | h⟩
    · exact h.symm ▸ hafter
    · exact h.symm ▸ hs
    · exact h.symm ▸ hafter
  | ok a =>
    obtain ⟨hok', hstore⟩ := faulty_eq_ok hanswer
    show inv (faulty fallible perform error ⟨s, faults⟩ c).2.store
      ∧ post a (faulty fallible perform error ⟨s, faults⟩ c).2.store
    rw [hstore]
    exact ⟨hafter, hok a hok'⟩

theorem Withstands.checked (hs : inv s) (x : Except ε α) :
    Withstands fallible perform error inv (fun a t => t = s ∧ x = .ok a) (Program.check x) s :=
  .check hs fun _ hx => ⟨rfl, hx⟩

theorem Withstands.asked (hs : inv s) (c : Call) (hafter : inv (perform s c).2) :
    Withstands fallible perform error inv
      (fun a t => t = (perform s c).2 ∧ (perform s c).1 = .ok a)
      (Program.ask c >>= Program.check) s :=
  .ask hs hafter fun _ ha => ⟨rfl, ha⟩

/-- The rule for two programs in a row. -/
theorem Withstands.bind {mid : α → σ → Prop} {post : β → σ → Prop}
    {p : Program ε Call (fun c => Except ε (Answer c)) α}
    {next : α → Program ε Call (fun c => Except ε (Answer c)) β}
    (hp : Withstands fallible perform error inv mid p s)
    (hnext : ∀ a t, inv t → mid a t → Withstands fallible perform error inv post (next a) t) :
    Withstands fallible perform error inv post (p >>= next) s :=
  fun faults => (hp faults).bind fun a w hinv hmid => hnext a w.store hinv hmid w.faults

theorem Withstands.mono {post post' : α → σ → Prop}
    {p : Program ε Call (fun c => Except ε (Answer c)) α}
    (h : Withstands fallible perform error inv post p s)
    (hpost : ∀ a t, post a t → post' a t) : Withstands fallible perform error inv post' p s :=
  fun faults => (h faults).mono fun a (w : Faulty σ) => hpost a w.store

theorem Withstands.keeps {post : α → σ → Prop}
    {p : Program ε Call (fun c => Except ε (Answer c)) α}
    (h : Withstands fallible perform error inv post p s) :
    Withstands fallible perform error inv (fun a t => inv t ∧ post a t) p s :=
  fun faults => (h faults).keeps

theorem Withstands.weaken {inv' : σ → Prop} {post : α → σ → Prop}
    {p : Program ε Call (fun c => Except ε (Answer c)) α} (hinv : ∀ t, inv t → inv' t)
    (h : Withstands fallible perform error inv post p s) :
    Withstands fallible perform error inv' post p s :=
  fun faults => (h faults).weaken fun (w : Faulty σ) => hinv w.store

/-- The rule for a loop, where what is kept depends on what is done. -/
theorem Withstands.foldlM {ι : Type} {mid : List ι → β → σ → Prop}
    {body : β → ι → Program ε Call (fun c => Except ε (Answer c)) β} {l : List ι} {b : β}
    (hbody : ∀ done i rest, l = done ++ i :: rest → ∀ t b, inv t → mid done b t →
      Withstands fallible perform error inv (mid (done ++ [i])) (body b i) t)
    (hs : inv s) (hb : mid [] b s) :
    Withstands fallible perform error inv (mid l) (l.foldlM body b) s := by
  intro faults
  have hloop := @Program.Always.foldlM_done ε Call β (Faulty σ) _ (faulty fallible perform error)
    (fun w => inv w.store) ι (fun done b w => mid done b w.store) body l ⟨s, faults⟩ b
  refine hloop (fun done i rest hl w b hinv hmid => ?_) hs hb
  exact hbody done i rest hl w.store b hinv hmid w.faults

/-- A program that fails has an answer too. -/
theorem Withstands.attempt {post : α → σ → Prop}
    {p : Program ε Call (fun c => Except ε (Answer c)) α}
    (h : Withstands fallible perform error inv post p s) :
    Withstands fallible perform error inv (fun result t => ∀ a, result = .ok a → post a t)
      p.attempt s :=
  fun faults => (h faults).attempt

/-- However a program is cut off, the invariant holds, and if it was done what it returns has the
property. -/
theorem Withstands.steps {post : α → σ → Prop}
    {p : Program ε Call (fun c => Except ε (Answer c)) α}
    (h : Withstands fallible perform error inv post p s) (faults : List Fault) (n : ℕ) :
    inv (p.steps (faulty fallible perform error) n ⟨s, faults⟩).2.store ∧
      ∀ a, (p.steps (faulty fallible perform error) n ⟨s, faults⟩).1 = .done a →
        post a (p.steps (faulty fallible perform error) n ⟨s, faults⟩).2.store := by
  have hrest := (h faults).steps n
  refine ⟨hrest.now, fun a ha => ?_⟩
  rw [ha] at hrest
  exact hrest.2

/-- Nor does it matter that nothing disturbs a program. -/
theorem Withstands.run {post : α → σ → Prop}
    {p : Program ε Call (fun c => Except ε (Answer c)) α}
    (h : Withstands fallible perform error inv post p s) :
    inv (p.run perform s).2 ∧ ∀ a, (p.run perform s).1 = .ok a → post a (p.run perform s).2 := by
  have hrun := (h []).run
  rw [run_faulty] at hrun
  exact hrun

end Withstands

/-! ## Programs that succeed undisturbed -/

section Accomplishes

variable {α β : Type} (fallible perform error)

/-- A program withstands every fault, and where what is `given` holds and no call fails it succeeds.
What is given is asked for where the program would fail without it, and nowhere else. -/
structure Accomplishes (given : Prop) (inv : σ → Prop) (post : α → σ → Prop)
    (p : Program ε Call (fun c => Except ε (Answer c)) α) (s : σ) : Prop where
  withstands : Withstands fallible perform error inv post p s
  succeeds : given → ∃ a t, p.run perform s = (.ok a, t) ∧ inv t ∧ post a t

variable {fallible perform error} {given : Prop} {inv : σ → Prop} {s : σ}

theorem Accomplishes.done {post : α → σ → Prop} {a : α} (hs : inv s) (ha : post a s) :
    Accomplishes fallible perform error given inv post (.done a) s :=
  ⟨.done hs ha, fun _ => ⟨a, s, rfl, hs, ha⟩⟩

/-- The rule for a check that what is given passes. -/
theorem Accomplishes.check {x : Except ε α} (hs : inv s) (hx : given → ∃ a, x = .ok a) :
    Accomplishes fallible perform error given inv (fun a t => t = s ∧ x = .ok a)
      (Program.check x) s := by
  refine ⟨.checked hs x, fun hgiven => ?_⟩
  obtain ⟨a, ha⟩ := hx hgiven
  exact ⟨a, s, by rw [run_check, ha], hs, rfl, ha⟩

theorem Accomplishes.ask {c : Call} {a : Answer c} {t : σ} (hs : inv s)
    (hc : perform s c = (.ok a, t)) (ht : inv t) :
    Accomplishes fallible perform error given inv (fun b u => b = a ∧ u = t)
      (Program.ask c >>= Program.check) s := by
  refine ⟨.ask hs ?_ fun b hb => ?_, fun _ => ⟨a, t, by rw [run_asked, hc], ht, rfl, rfl⟩⟩
  · rw [hc]
    exact ht
  · rw [hc] at hb
    exact ⟨(Except.ok.inj hb).symm, congrArg Prod.snd hc⟩

theorem Accomplishes.bind {mid : α → σ → Prop} {post : β → σ → Prop}
    {p : Program ε Call (fun c => Except ε (Answer c)) α}
    {next : α → Program ε Call (fun c => Except ε (Answer c)) β}
    (hp : Accomplishes fallible perform error given inv mid p s)
    (hnext : ∀ a t, inv t → mid a t →
      Accomplishes fallible perform error given inv post (next a) t) :
    Accomplishes fallible perform error given inv post (p >>= next) s := by
  refine ⟨hp.withstands.bind fun a t ht ha => (hnext a t ht ha).withstands, fun hgiven => ?_⟩
  obtain ⟨a, t, hrun, ht, ha⟩ := hp.succeeds hgiven
  obtain ⟨b, u, hrest, hu, hb⟩ := (hnext a t ht ha).succeeds hgiven
  exact ⟨b, u, by rw [Program.run_bind_ok perform hrun, hrest], hu, hb⟩

theorem Accomplishes.mono {post post' : α → σ → Prop}
    {p : Program ε Call (fun c => Except ε (Answer c)) α}
    (h : Accomplishes fallible perform error given inv post p s)
    (hpost : ∀ a t, post a t → post' a t) :
    Accomplishes fallible perform error given inv post' p s := by
  refine ⟨h.withstands.mono hpost, fun hgiven => ?_⟩
  obtain ⟨a, t, hrun, ht, ha⟩ := h.succeeds hgiven
  exact ⟨a, t, hrun, ht, hpost a t ha⟩

theorem Accomplishes.keeps {post : α → σ → Prop}
    {p : Program ε Call (fun c => Except ε (Answer c)) α}
    (h : Accomplishes fallible perform error given inv post p s) :
    Accomplishes fallible perform error given inv (fun a t => inv t ∧ post a t) p s := by
  refine ⟨h.withstands.keeps, fun hgiven => ?_⟩
  obtain ⟨a, t, hrun, ht, ha⟩ := h.succeeds hgiven
  exact ⟨a, t, hrun, ht, ht, ha⟩

theorem Accomplishes.foldlM {ι : Type} {mid : List ι → β → σ → Prop}
    {body : β → ι → Program ε Call (fun c => Except ε (Answer c)) β} {l : List ι} {b : β}
    (hbody : ∀ done i rest, l = done ++ i :: rest → ∀ t b, inv t → mid done b t →
      Accomplishes fallible perform error given inv (mid (done ++ [i])) (body b i) t)
    (hs : inv s) (hb : mid [] b s) :
    Accomplishes fallible perform error given inv (mid l) (l.foldlM body b) s := by
  refine ⟨.foldlM (fun done i rest hl t b ht hb => (hbody done i rest hl t b ht hb).withstands) hs
    hb,
    fun hgiven => ?_⟩
  have hfrom : ∀ {rest done : List ι} {s : σ} {b : β}, l = done ++ rest → inv s → mid done b s →
      ∃ c t, (rest.foldlM body b).run perform s = (.ok c, t) ∧ inv t ∧ mid l c t := by
    intro rest
    induction rest with
    | nil =>
      intro done s b hl hs hb
      rw [hl, List.append_nil]
      exact ⟨b, s, rfl, hs, hb⟩
    | cons i rest ih =>
      intro done s b hl hs hb
      obtain ⟨c, t, hturn, ht, hc⟩ := (hbody done i rest hl s b hs hb).succeeds hgiven
      have hl' : l = (done ++ [i]) ++ rest := by
        rw [hl, List.append_assoc]
        rfl
      obtain ⟨e, u, hrest, hu, he⟩ := ih hl' ht hc
      exact ⟨e, u, by rw [List.foldlM_cons, Program.run_bind_ok perform hturn, hrest], hu, he⟩
  exact hfrom rfl hs hb

end Accomplishes

end Programs
