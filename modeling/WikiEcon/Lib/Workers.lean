import Mathlib.Data.List.Forall2
import Mathlib.Data.List.Perm.Basic
import Mathlib.Data.List.Sort

/-!
# Waves of workers

A batch of jobs is worked off in waves. `admitWave` asks for leave to run as many
of the next jobs as allowed and settles for fewer; `wave` runs the admitted ones
side by side on a shared store and collects their results in the order they were
started; `inWaves` goes on until no job is left.

Workers finish in any order, so `wave` takes the order as an argument. Where each
job touches its own part of the store the order cannot show: `wave_spec` asks that
a job establish its postcondition from its precondition and that no job disturb
another's, and gives every postcondition at the end. `inWaves_spec` is the rule
for the whole batch.
-/

namespace Workers

variable {σ ι ρ ε : Type}

/-! ## One wave -/

/-- Run the jobs to their ends in the order given. Each outcome keeps the place
its worker was started at; a failed worker leaves the store alone. -/
def execute (work : σ → ι → Except ε (ρ × σ)) : List (ι × ℕ) → σ → List (ℕ × Except ε ρ) × σ
  | [], s => ([], s)
  | (job, place) :: rest, s =>
    match work s job with
    | .ok (result, s') =>
      let (outcomes, final) := execute work rest s'
      ((place, .ok result) :: outcomes, final)
    | .error e =>
      let (outcomes, final) := execute work rest s
      ((place, .error e) :: outcomes, final)

/-- Wait for the workers in the order they were started; the first failure wins. -/
def join (outcomes : List (ℕ × Except ε ρ)) : Except ε (List ρ) :=
  (outcomes.insertionSort fun a b => a.1 ≤ b.1).mapM (·.2)

/-- Start a worker for each job; `finishing` is the order they finish in. -/
def wave (finishing : List (ι × ℕ) → List (ι × ℕ)) (work : σ → ι → Except ε (ρ × σ))
    (jobs : List ι) (s : σ) : Except ε (List ρ × σ) :=
  let (outcomes, final) := execute work (finishing jobs.zipIdx) s
  match join outcomes with
  | .ok results => .ok (results, final)
  | .error e => .error e

theorem forall₂_of_mapM_eq_ok {α β : Type} {f : α → Except ε β} :
    ∀ {l : List α} {r : List β}, l.mapM f = .ok r → List.Forall₂ (fun a b => f a = .ok b) l r := by
  intro l
  induction l with
  | nil =>
    intro r h
    obtain rfl : [] = r := Except.ok.inj h
    exact .nil
  | cons a l ih =>
    intro r h
    rw [List.mapM_cons] at h
    cases ha : f a with
    | error e => rw [ha] at h; exact absurd h (by simp [bind, Except.bind])
    | ok b =>
      cases hl : l.mapM f with
      | error e => rw [ha, hl] at h; exact absurd h (by simp [bind, Except.bind])
      | ok bs =>
        rw [ha, hl] at h
        obtain rfl : b :: bs = r := Except.ok.inj h
        exact .cons ha (ih hl)

/-- Related entries that agree on a field give the same list of it. -/
theorem map_eq_map_of_forall₂ {α β γ : Type} {R : α → β → Prop} {f : α → γ} {g : β → γ}
    (hR : ∀ a b, R a b → f a = g b) :
    ∀ {l : List α} {l' : List β}, List.Forall₂ R l l' → l.map f = l'.map g := by
  intro l l' h
  induction h with
  | nil => rfl
  | cons hr _ ih => rw [List.map_cons, List.map_cons, hR _ _ hr, ih]

section Spec

variable {work : σ → ι → Except ε (ρ × σ)} {pre : ι → σ → Prop} {post : ι → ρ → σ → Prop}

/-- What the workers of one wave promise each other. -/
structure Independent (work : σ → ι → Except ε (ρ × σ)) (pre : ι → σ → Prop)
    (post : ι → ρ → σ → Prop) (jobs : List ι) : Prop where
  /-- A job does what it should. -/
  does : ∀ i ∈ jobs, ∀ s r s', pre i s → work s i = .ok (r, s') → post i r s'
  /-- It leaves what another is about to read. -/
  keepsPre : ∀ i ∈ jobs, ∀ j ∈ jobs, i ≠ j → ∀ s r s', pre i s → pre j s →
    work s i = .ok (r, s') → pre j s'
  /-- It leaves what another has written. -/
  keepsPost : ∀ i ∈ jobs, ∀ j ∈ jobs, i ≠ j → ∀ s r s' q, pre i s → post j q s →
    work s i = .ok (r, s') → post j q s'

/-- Every worker that succeeds has its postcondition at the end, and what earlier
ones established still stands. -/
theorem execute_spec {jobs : List ι} (hind : Independent work pre post jobs) :
    ∀ (order : List (ι × ℕ)) (s : σ), (∀ e ∈ order, e.1 ∈ jobs) → (order.map Prod.fst).Nodup →
      (∀ e ∈ order, pre e.1 s) →
      List.Forall₂ (fun e o => e.2 = o.1 ∧ ∀ r, o.2 = .ok r →
          post e.1 r (execute work order s).2) order (execute work order s).1 ∧
        ∀ j ∈ jobs, (∀ e ∈ order, e.1 ≠ j) → ∀ q, post j q s →
          post j q (execute work order s).2 := by
  intro order
  induction order with
  | nil => intro s _ _ _; exact ⟨.nil, fun _ _ _ _ h => h⟩
  | cons e order ih =>
    obtain ⟨job, place⟩ := e
    intro s hjobs hnodup hpre
    rw [List.map_cons, List.nodup_cons] at hnodup
    obtain ⟨hjob, hnodup⟩ := hnodup
    have hmem := hjobs (job, place) (List.mem_cons_self ..)
    have hother : ∀ e ∈ order, e.1 ≠ job := fun e he heq =>
      hjob (List.mem_map.mpr ⟨e, he, heq⟩)
    have hjobs' : ∀ e ∈ order, e.1 ∈ jobs := fun e he => hjobs e (List.mem_cons_of_mem _ he)
    have hpreJob := hpre (job, place) (List.mem_cons_self ..)
    cases hwork : work s job with
    -- A job that fails leaves the state as it was for the others.
    | error err =>
      have hrun : execute work ((job, place) :: order) s
          = ((place, .error err) :: (execute work order s).1, (execute work order s).2) := by
        rw [execute, hwork]
      obtain ⟨hall, hkeep⟩ := ih s hjobs' hnodup fun e he => hpre e (List.mem_cons_of_mem _ he)
      rw [hrun]
      refine ⟨.cons ⟨rfl, fun r hr => absurd hr (by simp)⟩ hall, fun j hj hne => ?_⟩
      exact hkeep j hj fun e he => hne e (List.mem_cons_of_mem _ he)
    | ok done =>
      obtain ⟨result, s'⟩ := done
      have hrun : execute work ((job, place) :: order) s
          = ((place, .ok result) :: (execute work order s').1, (execute work order s').2) := by
        rw [execute, hwork]
      -- The others are as ready as before, and what this job has done stays.
      have hpre' : ∀ e ∈ order, pre e.1 s' := fun e he =>
        hind.keepsPre job hmem e.1 (hjobs' e he) (hother e he).symm s result s' hpreJob
          (hpre e (List.mem_cons_of_mem _ he)) hwork
      obtain ⟨hall, hkeep⟩ := ih s' hjobs' hnodup hpre'
      rw [hrun]
      refine ⟨.cons ⟨rfl, fun r hr => ?_⟩ hall, fun j hj hne q hq => ?_⟩
      · obtain rfl : result = r := Except.ok.inj hr
        exact hkeep job hmem hother result (hind.does job hmem s result s' hpreJob hwork)
      · refine hkeep j hj (fun e he => hne e (List.mem_cons_of_mem _ he)) q ?_
        exact hind.keepsPost job hmem j hj (hne (job, place) (List.mem_cons_self ..)) s result s' q
          hpreJob hq hwork

/-- What no worker disturbs is there at the end. -/
theorem execute_preserves (inv : σ → Prop) :
    ∀ (order : List (ι × ℕ)) (s : σ),
      (∀ e ∈ order, ∀ s r s', inv s → work s e.1 = .ok (r, s') → inv s') → inv s →
      inv (execute work order s).2 := by
  intro order
  induction order with
  | nil => intro s _ h; exact h
  | cons e order ih =>
    obtain ⟨job, place⟩ := e
    intro s hwork h
    have hrest : ∀ e ∈ order, ∀ s r s', inv s → work s e.1 = .ok (r, s') → inv s' :=
      fun e he => hwork e (List.mem_cons_of_mem _ he)
    rw [execute]
    cases hjob : work s job with
    | error err => exact ih s hrest h
    | ok done =>
      exact ih done.2 hrest (hwork (job, place) (List.mem_cons_self ..) s done.1 done.2 h hjob)

theorem places_pairwise {β : Type} {jobs : List ι} {w : List (ℕ × β)} {p : ι → β → Prop}
    (h : List.Forall₂ (fun e o => e.2 = o.1 ∧ p e.1 o.2) jobs.zipIdx w) :
    w.Pairwise (fun a b => a.1 < b.1) := by
  have hplaces : w.map Prod.fst = jobs.zipIdx.map Prod.snd := by
    refine List.ext_getElem ?_ fun i hi hi' => ?_
    · rw [List.length_map, List.length_map, h.length_eq]
    · rw [List.length_map] at hi hi'
      rw [List.getElem_map, List.getElem_map]
      exact (h.get hi' hi).1.symm
  have hrange : (jobs.zipIdx.map Prod.snd).Pairwise (· < ·) := by
    rw [List.zipIdx_map_snd]
    exact List.pairwise_lt_range'
  rw [← hplaces] at hrange
  exact List.pairwise_map.mp hrange

/-- Joining workers that finished in any order puts each result beside its job. -/
theorem join_spec {outcomes w : List (ℕ × Except ε ρ)} {jobs : List ι} {results : List ρ}
    {p : ι → ρ → Prop} (hperm : outcomes.Perm w)
    (hw : List.Forall₂ (fun e o => e.2 = o.1 ∧ ∀ r, o.2 = .ok r → p e.1 r) jobs.zipIdx w)
    (h : join outcomes = .ok results) : List.Forall₂ p jobs results := by
  have hsort : outcomes.insertionSort (fun a b => a.1 ≤ b.1) = w := by
    have hlt := places_pairwise (p := fun i (o : Except ε ρ) => ∀ r, o = .ok r → p i r) hw
    have hle := List.pairwise_insertionSort (fun a b : ℕ × Except ε ρ => a.1 ≤ b.1) outcomes
    have hperm' := (List.perm_insertionSort (fun a b : ℕ × Except ε ρ => a.1 ≤ b.1)
      outcomes).trans hperm
    have hplaces : (w.map Prod.fst).Nodup := (List.pairwise_map.mpr hlt).imp fun h => ne_of_lt h
    refine hperm'.eq_of_pairwise (fun a b ha hb h h' => ?_) hle (hlt.imp fun h => le_of_lt h)
    exact List.inj_on_of_nodup_map hplaces (hperm'.mem_iff.mp ha) hb (le_antisymm h h')
  unfold join at h
  rw [hsort] at h
  have hresults := forall₂_of_mapM_eq_ok h
  refine List.forall₂_iff_get.mpr ⟨?_, fun i hi hi' => ?_⟩
  · rw [← hresults.length_eq, ← hw.length_eq, List.length_zipIdx]
  · have hiz : i < jobs.zipIdx.length := by rw [List.length_zipIdx]; exact hi
    have hiw : i < w.length := by rw [hresults.length_eq]; exact hi'
    have := (hw.get hiz hiw).2 _ (hresults.get hiw hi')
    simpa using this

theorem wave_eq_ok {finishing : List (ι × ℕ) → List (ι × ℕ)} {jobs : List ι} {s s' : σ}
    {results : List ρ} (h : wave finishing work jobs s = .ok (results, s')) :
    join (execute work (finishing jobs.zipIdx) s).1 = .ok results ∧
      (execute work (finishing jobs.zipIdx) s).2 = s' := by
  unfold wave at h
  cases hjoin : join (execute work (finishing jobs.zipIdx) s).1 with
  | error e => simp [hjoin] at h
  | ok rs => simpa [hjoin] using h

/-- **Independent workers**: whatever order they finish in, each result is that of
its job, and every postcondition holds of the store left behind. -/
theorem wave_spec {finishing : List (ι × ℕ) → List (ι × ℕ)} {jobs : List ι} {s s' : σ}
    {results : List ρ} (hfinishing : (finishing jobs.zipIdx).Perm jobs.zipIdx)
    (hnodup : jobs.Nodup) (hind : Independent work pre post jobs) (hpre : ∀ i ∈ jobs, pre i s)
    (h : wave finishing work jobs s = .ok (results, s')) :
    List.Forall₂ (fun i r => post i r s') jobs results := by
  have hfst : jobs.zipIdx.map Prod.fst = jobs := List.zipIdx_map_fst 0 jobs
  have hmem : ∀ e ∈ finishing jobs.zipIdx, e.1 ∈ jobs := by
    intro e he
    have := List.mem_map_of_mem (f := Prod.fst) (hfinishing.mem_iff.mp he)
    rwa [hfst] at this
  have hnodup' : ((finishing jobs.zipIdx).map Prod.fst).Nodup := by
    rw [(hfinishing.map Prod.fst).nodup_iff, hfst]
    exact hnodup
  obtain ⟨hall, -⟩ := execute_spec hind (finishing jobs.zipIdx) s hmem hnodup'
    fun e he => hpre e.1 (hmem e he)
  -- back to the order the workers were started in
  obtain ⟨w, hw, hperm⟩ := List.perm_comp_forall₂ hfinishing.symm hall
  obtain ⟨hjoin, rfl⟩ := wave_eq_ok h
  exact join_spec hperm.symm hw hjoin

theorem wave_preserves (inv : σ → Prop) {finishing : List (ι × ℕ) → List (ι × ℕ)}
    {jobs : List ι} {s s' : σ} {results : List ρ}
    (hfinishing : (finishing jobs.zipIdx).Perm jobs.zipIdx)
    (hwork : ∀ i ∈ jobs, ∀ s r s', inv s → work s i = .ok (r, s') → inv s') (hs : inv s)
    (h : wave finishing work jobs s = .ok (results, s')) : inv s' := by
  have hmem : ∀ e ∈ finishing jobs.zipIdx, e.1 ∈ jobs := fun e he => by
    have := List.mem_map_of_mem (f := Prod.fst) (hfinishing.mem_iff.mp he)
    rwa [List.zipIdx_map_fst] at this
  rw [← (wave_eq_ok h).2]
  exact execute_preserves inv _ s (fun e he => hwork e.1 (hmem e he)) hs

end Spec

/-! ## Admission -/

/-- Ask for each job in turn: `some e` is a refusal, an error is an error. -/
def tryAdmit (grant : ι → Except ε (Option ε)) : List ι → Except ε (Option ε)
  | [] => .ok none
  | job :: rest =>
    match grant job with
    | .error e => .error e
    | .ok (some e) => .ok (some e)
    | .ok none => tryAdmit grant rest

/-- Ask for the next `width` jobs, and when one is refused for one fewer, down to
a single one. -/
def admitWave (grant : ℕ → ι → Except ε (Option ε)) (refused : ε → ε) :
    ℕ → List ι → Except ε (List ι)
  | 0, _ => .ok []
  | width + 1, pending =>
    match tryAdmit (grant (width + 1)) (pending.take (width + 1)) with
    | .error e => .error e
    | .ok none => .ok (pending.take (width + 1))
    | .ok (some e) =>
      if width = 0 then .error (refused e) else admitWave grant refused width pending

/-- An admitted wave is a nonempty prefix of what is pending. -/
theorem admitWave_spec {grant : ℕ → ι → Except ε (Option ε)} {refused : ε → ε}
    {pending jobs : List ι} : ∀ {width : ℕ}, admitWave grant refused width pending = .ok jobs →
      ∃ n ≤ width, jobs = pending.take n ∧ (0 < width → 0 < n) := by
  intro width
  induction width with
  | zero =>
    intro h
    obtain rfl : [] = jobs := Except.ok.inj h
    exact ⟨0, le_refl _, rfl, fun h => h⟩
  | succ width ih =>
    intro h
    rw [admitWave] at h
    split at h
    · exact absurd h (by simp)
    · exact ⟨width + 1, le_refl _, (Except.ok.inj h).symm, fun h => h⟩
    · split at h
      · exact absurd h (by simp)
      next hwidth =>
        obtain ⟨n, hn, hjobs, hpos⟩ := ih h
        exact ⟨n, by omega, hjobs, fun _ => hpos (by omega)⟩

/-- Work off what is pending, at most `limit` jobs at a time. Every wave takes at
least one job, so the jobs bound the waves. The number of jobs done tells the
waves apart. -/
def inWaves (grant : ℕ → ℕ → ι → Except ε (Option ε)) (refused : ε → ε) (limit : ℕ)
    (run : List ι → σ → Except ε σ) : ℕ → ℕ → List ι → σ → Except ε σ
  | 0, _, _, s => .ok s
  | _ + 1, _, [], s => .ok s
  | fuel + 1, offset, job :: rest, s => do
    let pending := job :: rest
    let jobs ← admitWave (grant offset) refused (min limit pending.length) pending
    let s ← run jobs s
    inWaves grant refused limit run fuel (offset + jobs.length) (pending.drop jobs.length) s

/-- **The rule for a whole batch**: if running a block of jobs extends what holds
of the jobs done by these, then at the end it holds of all. -/
theorem inWaves_spec (inv : List ι → σ → Prop) {grant : ℕ → ℕ → ι → Except ε (Option ε)}
    {refused : ε → ε} {limit : ℕ} (hlimit : 0 < limit) {run : List ι → σ → Except ε σ}
    {all : List ι} (hrun : ∀ done jobs rest s s', all = done ++ jobs ++ rest →
      inv done s → run jobs s = .ok s' → inv (done ++ jobs) s') :
    ∀ {fuel offset : ℕ} {done pending : List ι} {s s' : σ}, all = done ++ pending →
      pending.length ≤ fuel → inv done s →
      inWaves grant refused limit run fuel offset pending s = .ok s' → inv all s' := by
  intro fuel
  induction fuel with
  | zero =>
    intro offset done pending s s' hall hfuel hinv h
    obtain rfl := List.length_eq_zero_iff.mp (Nat.le_zero.mp hfuel)
    rw [inWaves] at h
    obtain rfl := Except.ok.inj h
    rw [hall, List.append_nil]
    exact hinv
  | succ fuel ih =>
    intro offset done pending s s' hall hfuel hinv h
    cases pending with
    | nil =>
      rw [inWaves] at h
      obtain rfl := Except.ok.inj h
      rw [hall, List.append_nil]
      exact hinv
    | cons job pending =>
      rw [inWaves] at h
      cases hgrant : admitWave (grant offset) refused (min limit (job :: pending).length)
          (job :: pending) with
      | error e => rw [hgrant] at h; exact absurd h (by simp [bind, Except.bind])
      | ok jobs =>
        rw [hgrant] at h
        cases hstep : run jobs s with
        | error e => simp [hstep, bind, Except.bind] at h
        | ok t =>
          simp only [hstep, bind, Except.bind] at h
          obtain ⟨n, hn, rfl, hpos⟩ := admitWave_spec hgrant
          -- A wave that is admitted takes at least one job, so the rest is shorter.
          have hn' : 0 < n := hpos (by simp; omega)
          have hlen : ((job :: pending).take n).length = n := by
            rw [List.length_take]
            omega
          have hsplit : all = done ++ (job :: pending).take n ++ (job :: pending).drop n := by
            rw [hall, List.append_assoc, List.take_append_drop]
          rw [hlen] at h
          refine ih hsplit ?_ (hrun done _ _ s t hsplit hinv hstep) h
          rw [List.length_drop]
          omega

end Workers
