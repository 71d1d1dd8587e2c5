import Mathlib.Data.List.Chain
import WikiEcon.Lib.Workers

/-!
# Waves with permits

The loop of `Workers.inWaves`, with what it does written down: every attempt to
admit a wave, the permits it takes and gives back, and the jobs it runs. Whether a
permit is granted is up to a governor whose state changes as it is asked, so any
sequence of answers is possible.

`batch_exact` is what holds of the log of any batch. `batch_eq_inWaves` says that
the loop without the log is `inWaves`.
-/

namespace Workers

variable {σ ι ε : Type}

/-- What a batch does, step by step. -/
inductive Event (ι : Type)
  | attempt (offset width : ℕ)
  | granted (job : ι)
  | refused (job : ι)
  | released (job : ι)
  | started (job : ι)

def Event.granted? : Event ι → Option ι
  | .granted job => some job
  | _ => none

def Event.released? : Event ι → Option ι
  | .released job => some job
  | _ => none

def Event.started? : Event ι → Option ι
  | .started job => some job
  | _ => none

def Event.isAttempt : Event ι → Bool
  | .attempt .. => true
  | _ => false

/-- The jobs run, in the order they were started. -/
def ran (log : List (Event ι)) : List ι := log.filterMap Event.started?

/-- Every permit taken has been given back. -/
def Settled (log : List (Event ι)) : Prop :=
  (log.filterMap Event.granted?).Perm (log.filterMap Event.released?)

/-! ## The loop -/

/-- What came of asking for the jobs of one wave. -/
structure Asked (σ ι ε : Type) where
  log : List (Event ι)
  taken : List ι
  answer : Except ε (Option ε)
  state : σ

/-- Ask for each job in turn, up to the first that is refused or cannot be asked for. -/
def ask (grant : σ → ι → Except ε (Option ε) × σ) : List ι → σ → Asked σ ι ε
  | [], s => ⟨[], [], .ok none, s⟩
  | job :: rest, s =>
    match grant s job with
    | (.error e, s) => ⟨[], [], .error e, s⟩
    | (.ok (some e), s) => ⟨[.refused job], [], .ok (some e), s⟩
    | (.ok none, s) =>
      let asked := ask grant rest s
      ⟨.granted job :: asked.log, job :: asked.taken, asked.answer, asked.state⟩

/-- Ask for the next `width` jobs, and when one is refused give the permits back
and ask for one fewer, down to a single one. -/
def negotiate (grant : ℕ → σ → ι → Except ε (Option ε) × σ) (refused : ε → ε) (offset : ℕ) :
    ℕ → List ι → σ → List (Event ι) × Except ε (List ι × σ)
  | 0, _, s => ([], .ok ([], s))
  | width + 1, pending, s =>
    let asked := ask (grant (width + 1)) (pending.take (width + 1)) s
    let log := .attempt offset (width + 1) :: asked.log
    match asked.answer with
    | .error e => (log ++ asked.taken.map .released, .error e)
    | .ok none => (log, .ok (asked.taken, asked.state))
    | .ok (some e) =>
      if width = 0 then (log ++ asked.taken.map .released, .error (refused e))
      else
        let rest := negotiate grant refused offset width pending asked.state
        (log ++ asked.taken.map .released ++ rest.1, rest.2)

/-- Work off what is pending. A worker holds its permit until it ends, and all of a
wave's workers have ended before the next wave is asked for. -/
def batch (grant : ℕ → ℕ → σ → ι → Except ε (Option ε) × σ) (refused : ε → ε) (limit : ℕ)
    (run : List ι → σ → Except ε σ) :
    ℕ → ℕ → List ι → σ → List (Event ι) × Except ε σ
  | 0, _, _, s => ([], .ok s)
  | _ + 1, _, [], s => ([], .ok s)
  | fuel + 1, offset, job :: rest, s =>
    let pending := job :: rest
    let admitted := negotiate (grant offset) refused offset (min limit pending.length) pending s
    match admitted.2 with
    | .error e => (admitted.1, .error e)
    | .ok (jobs, s) =>
      let log := admitted.1 ++ jobs.map .started ++ jobs.map .released
      match run jobs s with
      | .error e => (log, .error e)
      | .ok s =>
        let more := batch grant refused limit run fuel (offset + jobs.length)
          (pending.drop jobs.length) s
        (log ++ more.1, more.2)

/-! ## What a log looks like -/

/-- How an attempt ends: its wave is run, one of its jobs is refused, or one cannot
even be asked for. -/
inductive Ending (ι : Type)
  | ran
  | refused (job : ι)
  | failed

/-- One attempt with what follows it. -/
structure Round (ι : Type) where
  offset : ℕ
  width : ℕ
  taken : List ι
  ending : Ending ι

def Round.events (r : Round ι) : List (Event ι) :=
  .attempt r.offset r.width :: (r.taken.map .granted ++ match r.ending with
    | .ran => r.taken.map .started ++ r.taken.map .released
    | .refused job => .refused job :: r.taken.map .released
    | .failed => r.taken.map .released)

/-- The jobs an attempt is for. -/
def Round.jobs (all : List ι) (r : Round ι) : List ι := (all.drop r.offset).take r.width

/-- A wave that is run has all its jobs; another stops at the first refusal. -/
def Round.Sound (all : List ι) (limit : ℕ) (r : Round ι) : Prop :=
  0 < r.width ∧ r.width ≤ limit ∧ r.offset + r.width ≤ all.length ∧ match r.ending with
    | .ran => r.taken = r.jobs all
    | .refused job => r.taken ++ [job] <+: r.jobs all
    | .failed => r.taken <+: r.jobs all

/-- After a wave comes the one behind it, after a refusal a narrower one. -/
def Round.Next (a b : Round ι) : Prop :=
  match a.ending with
  | .ran => b.offset = a.offset + a.width
  | .refused _ => b.offset = a.offset ∧ b.width < a.width
  | .failed => False

theorem Settled.append {log log' : List (Event ι)} (h : Settled log) (h' : Settled log') :
    Settled (log ++ log') := by
  unfold Settled at *
  rw [List.filterMap_append, List.filterMap_append]
  exact h.append h'

theorem Settled.flatMap {rounds : List (Round ι)} (h : ∀ r ∈ rounds, Settled r.events) :
    Settled (rounds.flatMap Round.events) := by
  induction rounds with
  | nil => exact List.Perm.refl _
  | cons r rounds ih =>
    rw [List.flatMap_cons]
    exact (h r (List.mem_cons_self ..)).append (ih fun r' hr' => h r' (List.mem_cons_of_mem _ hr'))

/-- Whatever its end, an attempt keeps no permit. -/
theorem Round.settled (r : Round ι) : Settled r.events := by
  obtain ⟨offset, width, taken, ending⟩ := r
  cases ending <;>
    simp [Settled, Round.events, List.filterMap_cons, List.filterMap_map, Function.comp_def,
      Event.granted?, Event.released?]

theorem ran_append (log log' : List (Event ι)) : ran (log ++ log') = ran log ++ ran log' :=
  List.filterMap_append

/-- Only a wave that is run starts jobs. -/
theorem Round.ran_events (r : Round ι) :
    ran r.events = match r.ending with
      | .ran => r.taken
      | _ => [] := by
  obtain ⟨offset, width, taken, ending⟩ := r
  cases ending <;>
    simp [ran, Round.events, List.filterMap_cons, List.filterMap_map, Function.comp_def,
      Event.started?]

/-- An attempt is where a round begins. -/
theorem Round.events_eq (r : Round ι) : ∃ rest,
    r.events = .attempt r.offset r.width :: rest ∧ ∀ e ∈ rest, e.isAttempt = false := by
  refine ⟨_, rfl, fun e he => ?_⟩
  obtain ⟨offset, width, taken, ending⟩ := r
  cases ending <;> grind [Event.isAttempt]

theorem split_at_attempt {offset width : ℕ} : ∀ {rounds : List (Round ι)}
    {before after : List (Event ι)},
    rounds.flatMap Round.events = before ++ .attempt offset width :: after →
      ∃ earlier r later, rounds = earlier ++ r :: later ∧
        before = earlier.flatMap Round.events ∧ r.offset = offset ∧ r.width = width := by
  intro rounds
  induction rounds with
  | nil => exact fun h => absurd h (by simp)
  | cons r rounds ih =>
    intro before after h
    obtain ⟨rest, hevents, hrest⟩ := r.events_eq
    rw [List.flatMap_cons] at h
    rcases List.append_eq_append_iff.mp h with ⟨more, hbefore, hmore⟩ | ⟨more, hr, hmore⟩
    · obtain ⟨earlier, r', later, rfl, rfl, hat⟩ := ih hmore
      exact ⟨r :: earlier, r', later, rfl, by rw [hbefore, List.flatMap_cons], hat⟩
    · cases more with
      | nil =>
        -- the attempt begins the next round
        obtain ⟨earlier, r', later, rfl, hnil, hat⟩ := ih (show _ = [] ++ _ from hmore.symm)
        refine ⟨r :: earlier, r', later, rfl, ?_, hat⟩
        rw [List.flatMap_cons, ← hnil, hr, List.append_nil, List.append_nil]
      | cons e more =>
        obtain ⟨rfl, -⟩ := List.cons_eq_cons.mp hmore
        rw [hevents] at hr
        cases before with
        | nil =>
          obtain ⟨hat, -⟩ := List.cons_eq_cons.mp hr
          obtain ⟨hoffset, hwidth⟩ := Event.attempt.inj hat
          exact ⟨[], r, rounds, rfl, rfl, hoffset, hwidth⟩
        | cons _ before =>
          obtain ⟨-, hrest'⟩ := List.cons_eq_cons.mp hr
          have hmem : Event.attempt offset width ∈ rest := by
            rw [hrest']
            exact List.mem_append_right _ (List.mem_cons_self ..)
          exact absurd (hrest _ hmem) (by simp [Event.isAttempt])

/-! ## One wave -/

/-- The permits taken are those logged, for the jobs asked for or for those before
the one that stopped it. -/
theorem ask_spec (grant : σ → ι → Except ε (Option ε) × σ) : ∀ (jobs : List ι) (s : σ),
    match (ask grant jobs s).answer with
    | .ok none => (ask grant jobs s).taken = jobs ∧
        (ask grant jobs s).log = (ask grant jobs s).taken.map .granted
    | .ok (some e) => ∃ job t, (grant t job).1 = .ok (some e) ∧
        (ask grant jobs s).taken ++ [job] <+: jobs ∧
        (ask grant jobs s).log = (ask grant jobs s).taken.map .granted ++ [.refused job]
    | .error e => ∃ job t, (grant t job).1 = .error e ∧ (ask grant jobs s).taken <+: jobs ∧
        (ask grant jobs s).log = (ask grant jobs s).taken.map .granted := by
  intro jobs
  induction jobs with
  | nil => exact fun s => ⟨rfl, rfl⟩
  | cons job rest ih =>
    intro s
    rcases hgrant : grant s job with ⟨answer, t⟩
    have hanswer : (grant s job).1 = answer := by rw [hgrant]
    -- The first job fails, is refused, or is granted and the rest is asked for.
    rcases answer with e | refusal
    · simp only [ask, hgrant]
      exact ⟨job, s, hanswer, List.nil_prefix, rfl⟩
    · cases refusal with
      | some e =>
        simp only [ask, hgrant]
        exact ⟨job, s, hanswer, List.prefix_append [job] rest, rfl⟩
      | none =>
        have hrest := ih t
        simp only [ask, hgrant]
        cases hasked : (ask grant rest t).answer with
        | error e =>
          simp only [hasked] at hrest
          obtain ⟨other, u, herror, hprefix, hlog⟩ := hrest
          refine ⟨other, u, herror, ?_, by rw [hlog]; rfl⟩
          exact List.cons_prefix_cons.mpr ⟨rfl, hprefix⟩
        | ok refusal =>
          cases refusal with
          | some e =>
            simp only [hasked] at hrest
            obtain ⟨other, u, hrefused, hprefix, hlog⟩ := hrest
            refine ⟨other, u, hrefused, ?_, by rw [hlog]; rfl⟩
            exact List.cons_prefix_cons.mpr ⟨rfl, hprefix⟩
          | none =>
            simp only [hasked] at hrest
            exact ⟨by rw [hrest.1], by rw [hrest.2]; rfl⟩

/-- The rounds of one wave: those that are refused, and the last. -/
structure Narrowing (all : List ι) (limit offset width : ℕ) (rounds : List (Round ι)) : Prop where
  sound : ∀ r ∈ rounds, r.Sound all limit
  head : ∀ r ∈ rounds.head?, r.offset = offset ∧ r.width = width
  chain : rounds.IsChain Round.Next

/-- One more attempt, refused, before those that follow it. -/
theorem Narrowing.cons {all taken : List ι} {job : ι} {limit offset width : ℕ}
    {rounds : List (Round ι)} (h : Narrowing all limit offset width rounds)
    (hr : (⟨offset, width + 1, taken, .refused job⟩ : Round ι).Sound all limit) :
    Narrowing all limit offset (width + 1)
      (⟨offset, width + 1, taken, .refused job⟩ :: rounds) where
  sound := List.forall_mem_cons.mpr ⟨hr, h.sound⟩
  head r hr := by
    obtain rfl := Option.some.inj hr
    exact ⟨rfl, rfl⟩
  chain := List.isChain_cons.mpr ⟨fun r hr => by
    obtain ⟨hoffset, hwidth⟩ := h.head r hr
    refine ⟨hoffset, ?_⟩
    show r.width < width + 1
    omega, h.chain⟩

theorem Narrowing.one {all : List ι} {limit : ℕ} {r : Round ι} (hr : r.Sound all limit) :
    Narrowing all limit r.offset r.width [r] where
  sound r' hr' := by rwa [List.mem_singleton.mp hr']
  head r' hr' := by
    obtain rfl := Option.some.inj hr'
    exact ⟨rfl, rfl⟩
  chain := List.IsChain.singleton r

/-- Why a batch ends with an error before its wave is run: a single job is refused,
or a job cannot be asked for. -/
def Stopped (grant : ℕ → ℕ → σ → ι → Except ε (Option ε) × σ) (refused : ε → ε)
    (rounds : List (Round ι)) (e : ε) : Prop :=
  ∃ last ∈ rounds.getLast?,
    (∃ job e', last.ending = .refused job ∧ last.width = 1 ∧ e = refused e') ∨
    (last.ending = .failed ∧ ∃ width s job, (grant last.offset width s job).1 = .error e)

/-- **One wave**: the attempts go down from `width`, and end with a wave or an error. -/
theorem negotiate_spec (grant : ℕ → ℕ → σ → ι → Except ε (Option ε) × σ) (refused : ε → ε)
    (all : List ι) (limit offset : ℕ) : ∀ width, 0 < width → width ≤ limit →
      offset + width ≤ all.length → ∀ s,
      match (negotiate (grant offset) refused offset width (all.drop offset) s).2 with
      | .ok (jobs, _) => ∃ rounds last, rounds.getLast? = some last ∧ last.ending = .ran ∧
          last.taken = jobs ∧ 0 < last.width ∧ last.offset = offset ∧
          Narrowing all limit offset width rounds ∧
          (negotiate (grant offset) refused offset width (all.drop offset) s).1
            ++ jobs.map .started ++ jobs.map .released = rounds.flatMap Round.events ∧
          ran (rounds.flatMap Round.events) = jobs
      | .error e => ∃ rounds, Narrowing all limit offset width rounds ∧
          Stopped grant refused rounds e ∧
          (negotiate (grant offset) refused offset width (all.drop offset) s).1
            = rounds.flatMap Round.events ∧ ran (rounds.flatMap Round.events) = [] := by
  intro width
  induction width with
  | zero => exact fun h => absurd h (lt_irrefl 0)
  | succ width ih =>
    intro _ hlimit hlength s
    have hasked := ask_spec (grant offset (width + 1)) ((all.drop offset).take (width + 1)) s
    -- Whatever the answer, the round asked for the first jobs that are left.
    have hsound : ∀ taken ending, (match ending with
        | Ending.ran => taken = (all.drop offset).take (width + 1)
        | .refused job => taken ++ [job] <+: (all.drop offset).take (width + 1)
        | .failed => taken <+: (all.drop offset).take (width + 1)) →
        (⟨offset, width + 1, taken, ending⟩ : Round ι).Sound all limit :=
      fun taken ending h => ⟨Nat.succ_pos _, hlimit, hlength, h⟩
    unfold negotiate
    generalize ask (grant offset (width + 1)) ((all.drop offset).take (width + 1)) s = asked
      at hasked
    obtain ⟨log, taken, answer, state⟩ := asked
    rcases answer with e | _ | e <;> dsimp only at hasked ⊢
    · obtain ⟨job, t, herror, hprefix, rfl⟩ := hasked
      refine ⟨[⟨offset, width + 1, taken, .failed⟩], .one (hsound _ _ hprefix), ?_, ?_, ?_⟩
      · exact ⟨_, rfl, Or.inr ⟨rfl, _, _, _, herror⟩⟩
      · rw [List.flatMap_singleton]
        rfl
      · rw [List.flatMap_singleton, Round.ran_events]
    · obtain ⟨htaken, rfl⟩ := hasked
      refine ⟨[⟨offset, width + 1, taken, .ran⟩], _, rfl, rfl, rfl, Nat.succ_pos _, rfl,
        .one (hsound _ _ htaken), ?_, ?_⟩
      · rw [List.flatMap_singleton, List.append_assoc]
        rfl
      · rw [List.flatMap_singleton, Round.ran_events]
    · obtain ⟨job, t, -, hprefix, rfl⟩ := hasked
      have hround := hsound taken (.refused job) hprefix
      have hevents : (⟨offset, width + 1, taken, .refused job⟩ : Round ι).events
          = .attempt offset (width + 1) :: (taken.map .granted ++ [.refused job])
            ++ taken.map .released := by
        simp [Round.events]
      by_cases hwidth : width = 0
      · subst hwidth
        refine ⟨[⟨offset, 1, taken, .refused job⟩], .one hround, ?_, ?_, ?_⟩
        · exact ⟨_, rfl, Or.inl ⟨job, e, rfl, rfl, rfl⟩⟩
        · rw [List.flatMap_singleton, hevents]
          rfl
        · rw [List.flatMap_singleton, Round.ran_events]
      · have hrest := ih (by omega) (by omega) (by omega) state
        simp only [if_neg hwidth]
        cases hresult : (negotiate (grant offset) refused offset width
          (all.drop offset) state).2 with
        | error e' =>
          simp only [hresult] at hrest ⊢
          obtain ⟨rounds, hnarrow, ⟨last, hlast, hwhy⟩, hlog, hran⟩ := hrest
          refine ⟨_ :: rounds, hnarrow.cons hround, ⟨last, ?_, hwhy⟩, ?_, ?_⟩
          · rw [List.getLast?_cons, hlast]
            rfl
          · rw [List.flatMap_cons, hevents, hlog]
          · rw [List.flatMap_cons, ran_append, hran, Round.ran_events]
            rfl
        | ok done =>
          obtain ⟨jobs, t⟩ := done
          simp only [hresult] at hrest ⊢
          obtain ⟨rounds, last, hlast, hran, htaken, hpos, hoffset, hnarrow, hlog, hjobs⟩ := hrest
          refine ⟨_ :: rounds, last, ?_, hran, htaken, hpos, hoffset, hnarrow.cons hround, ?_, ?_⟩
          · rw [List.getLast?_cons, hlast]
            rfl
          · rw [List.flatMap_cons, hevents, ← hlog]
            simp only [List.append_assoc, List.cons_append]
          · rw [List.flatMap_cons, ran_append, hjobs, Round.ran_events]
            rfl

/-! ## The whole batch -/

section Batch

variable {grant : ℕ → ℕ → σ → ι → Except ε (Option ε) × σ} {refused : ε → ε} {limit : ℕ}
  {run : List ι → σ → Except ε σ} {all : List ι}

/-- What the log of a batch looks like from `offset` on. -/
structure Trail (all : List ι) (limit offset : ℕ) (log : List (Event ι)) (rounds : List (Round ι)) :
    Prop where
  log_eq : log = rounds.flatMap Round.events
  sound : ∀ r ∈ rounds, r.Sound all limit
  head : ∀ r ∈ rounds.head?, r.offset = offset
  chain : rounds.IsChain Round.Next

theorem Trail.nil {offset : ℕ} : Trail all limit offset [] [] where
  log_eq := rfl
  sound _ hr := absurd hr List.not_mem_nil
  head _ hr := absurd hr (Option.not_mem_none _)
  chain := List.IsChain.nil

theorem Narrowing.trail {offset width : ℕ} {log : List (Event ι)} {rounds : List (Round ι)}
    (h : Narrowing all limit offset width rounds) (hlog : log = rounds.flatMap Round.events) :
    Trail all limit offset log rounds where
  log_eq := hlog
  sound := h.sound
  head r hr := (h.head r hr).1
  chain := h.chain

/-- A wave and the batch behind it. -/
theorem Narrowing.append {offset width : ℕ} {log more : List (Event ι)} {last : Round ι}
    {rounds behind : List (Round ι)} (h : Narrowing all limit offset width rounds)
    (hlog : log = rounds.flatMap Round.events) (hlast : rounds.getLast? = some last)
    (hran : last.ending = .ran) (hbehind : Trail all limit (last.offset + last.width) more behind) :
    Trail all limit offset (log ++ more) (rounds ++ behind) where
  log_eq := by rw [hlog, hbehind.log_eq, List.flatMap_append]
  sound r hr := (List.mem_append.mp hr).elim (h.sound r) (hbehind.sound r)
  head r hr := by
    cases rounds with
    | nil => exact absurd hlast (by simp)
    | cons first rounds => exact (h.head r hr).1
  chain := List.isChain_append.mpr ⟨h.chain, hbehind.chain, fun a ha b hb => by
    obtain rfl := Option.some.inj (hlast.symm.trans ha)
    have hoffset := hbehind.head b hb
    unfold Round.Next
    rw [hran]
    exact hoffset⟩

/-- Why a batch ends with an error. -/
def Fails (grant : ℕ → ℕ → σ → ι → Except ε (Option ε) × σ) (refused : ε → ε)
    (run : List ι → σ → Except ε σ) (rounds : List (Round ι)) (e : ε) : Prop :=
  Stopped grant refused rounds e ∨
    ∃ last ∈ rounds.getLast?, last.ending = .ran ∧ ∃ s, run last.taken s = .error e

theorem Fails.append {rounds behind : List (Round ι)} {e : ε}
    (h : Fails grant refused run behind e) : Fails grant refused run (rounds ++ behind) e := by
  have hlast : ∀ last ∈ behind.getLast?, last ∈ (rounds ++ behind).getLast? := by
    intro last hlast
    rw [List.getLast?_append, Option.mem_def.mp hlast]
    rfl
  rcases h with ⟨last, hmem, hwhy⟩ | ⟨last, hmem, hwhy⟩
  · exact Or.inl ⟨last, hlast last hmem, hwhy⟩
  · exact Or.inr ⟨last, hlast last hmem, hwhy⟩

/-- **Every job once, in order**: the log falls into rounds, a batch that ends well
has run all its jobs, and one that fails says why in its last round. -/
theorem batch_spec (grant : ℕ → ℕ → σ → ι → Except ε (Option ε) × σ) (refused : ε → ε)
    (run : List ι → σ → Except ε σ) (all : List ι) (hlimit : 0 < limit) :
    ∀ (fuel offset : ℕ) (s : σ), offset ≤ all.length →
    (all.drop offset).length ≤ fuel →
    let result := batch grant refused limit run fuel offset (all.drop offset) s
    ∃ rounds, Trail all limit offset result.1 rounds ∧
      match result.2 with
      | .ok _ => ran result.1 = all.drop offset
      | .error e => ran result.1 <+: all.drop offset ∧ Fails grant refused run rounds e := by
  intro fuel
  induction fuel with
  | zero =>
    -- Without fuel nothing is pending, since the fuel is at least what is pending.
    intro offset s _ hfuel
    have hnil : all.drop offset = [] := List.length_eq_zero_iff.mp (Nat.le_zero.mp hfuel)
    refine ⟨[], .nil, ?_⟩
    show ran [] = all.drop offset
    rw [hnil]
    rfl
  | succ fuel ih =>
    intro offset s hoffset hfuel
    have hdrop : (all.drop offset).length = all.length - offset := List.length_drop
    cases hpending : all.drop offset with
    | nil => exact ⟨[], .nil, rfl⟩
    | cons job rest =>
      have hpos : 0 < (all.drop offset).length := by
        rw [hpending]
        exact Nat.succ_pos _
      -- The next wave: its rounds narrow until one of them is granted or the last is refused.
      have hwave := negotiate_spec grant refused all limit offset
        (min limit (all.drop offset).length) (lt_min hlimit hpos) (min_le_left ..) (by omega) s
      rw [hpending] at hwave
      unfold batch
      cases hresult : (negotiate (grant offset) refused offset (min limit (job :: rest).length)
          (job :: rest) s).2 with
      | error e =>
        simp only [hresult] at hwave ⊢
        obtain ⟨rounds, hnarrow, hstopped, hlog, hran⟩ := hwave
        refine ⟨rounds, hnarrow.trail hlog, ?_, Or.inl hstopped⟩
        rw [hlog, hran]
        exact List.nil_prefix
      | ok done =>
        obtain ⟨jobs, t⟩ := done
        simp only [hresult] at hwave ⊢
        obtain ⟨rounds, last, hlast, hending, htaken, hwidth, hat, hnarrow, hlog, hjobs⟩ := hwave
        have hsound := hnarrow.sound last (List.mem_of_getLast? hlast)
        have hslice : jobs = (all.drop offset).take last.width := by
          obtain ⟨-, -, -, hsound⟩ := hsound
          rw [hending] at hsound
          rw [← htaken, ← hat]
          exact hsound
        have hlength : jobs.length = last.width := by
          obtain ⟨-, -, hle, -⟩ := hsound
          rw [hslice, List.length_take]
          omega
        cases hrun : run jobs t with
        | error e =>
          simp only
          refine ⟨rounds, hnarrow.trail hlog, ?_, Or.inr ⟨last, hlast, hending, t, ?_⟩⟩
          · rw [hlog, hjobs, hslice, hpending]
            exact List.take_prefix _ _
          · rw [htaken]
            exact hrun
        | ok u =>
          simp only
          have hle := hsound.2.2.1
          -- What is run now is the front of what is pending, and the rest is left to the next
          -- waves.
          obtain ⟨behind, htrail, hend⟩ := ih (offset + jobs.length) u (by omega) (by
            rw [List.length_drop]
            omega)
          have hbehind : (job :: rest).drop jobs.length = all.drop (offset + jobs.length) := by
            rw [← hpending, List.drop_drop]
          rw [hbehind]
          have htake : (all.drop offset).take jobs.length = jobs := by
            rw [hlength]
            exact hslice.symm
          have hsplit : all.drop offset = jobs ++ all.drop (offset + jobs.length) := by
            calc all.drop offset
                = (all.drop offset).take jobs.length ++ (all.drop offset).drop jobs.length :=
                  (List.take_append_drop _ _).symm
              _ = jobs ++ all.drop (offset + jobs.length) := by rw [htake, List.drop_drop]
          have hran := congrArg ran hlog
          rw [hjobs] at hran
          generalize batch grant refused limit run fuel (offset + jobs.length)
            (all.drop (offset + jobs.length)) u = more at htrail hend
          refine ⟨rounds ++ behind, hnarrow.append hlog hlast hending (by rwa [hat, ← hlength]), ?_⟩
          rw [hpending] at hsplit
          rw [ran_append, hran]
          cases hmore : more.2 with
          | ok v =>
            simp only [hmore] at hend ⊢
            rw [hend]
            exact hsplit.symm
          | error e =>
            simp only [hmore] at hend ⊢
            refine ⟨?_, hend.2.append⟩
            rw [hsplit]
            exact (List.prefix_append_right_inj jobs).mpr hend.1

/-- No permit is held when a wave is asked for, nor at the end. -/
theorem Trail.settled {offset : ℕ} {log : List (Event ι)} {rounds : List (Round ι)}
    (h : Trail all limit offset log rounds) : Settled log ∧
      ∀ before after o w, log = before ++ .attempt o w :: after → Settled before := by
  refine ⟨?_, fun before after o w hsplit => ?_⟩
  · rw [h.log_eq]
    exact .flatMap fun r _ => r.settled
  · rw [h.log_eq] at hsplit
    obtain ⟨earlier, r, later, -, rfl, -⟩ := split_at_attempt hsplit
    exact .flatMap fun r _ => r.settled

/-- The law of a batch: it goes in rounds, holds no permit between them, runs every
job once and in order when it ends well, and fails for a reason of its last round. -/
structure Exact (grant : ℕ → ℕ → σ → ι → Except ε (Option ε) × σ) (refused : ε → ε) (limit : ℕ)
    (run : List ι → σ → Except ε σ) (all : List ι) (log : List (Event ι)) (outcome : Except ε σ) :
    Prop where
  rounds : ∃ rounds, Trail all limit 0 log rounds ∧
    ∀ e, outcome = .error e → Fails grant refused run rounds e
  settled : Settled log
  settledBefore : ∀ before after offset width, log = before ++ .attempt offset width :: after →
    Settled before
  complete : ∀ s, outcome = .ok s → ran log = all
  begun : ran log <+: all

end Batch

/-! ## What a batch leaves -/

section Invariant

variable {refused : ε → ε} {limit : ℕ}

end Invariant

/-! ## Without the log -/

theorem ask_eq_tryAdmit (grant : ι → Except ε (Option ε)) (jobs : List ι) (s : σ) :
    (ask (fun s job => (grant job, s)) jobs s).answer = tryAdmit grant jobs ∧
      (ask (fun s job => (grant job, s)) jobs s).state = s := by
  induction jobs with
  | nil => exact ⟨rfl, rfl⟩
  | cons job jobs ih =>
    unfold ask tryAdmit
    cases hgrant : grant job with
    | error e => exact ⟨rfl, rfl⟩
    | ok refusal =>
      cases refusal with
      | some e => exact ⟨rfl, rfl⟩
      | none => exact ih

theorem negotiate_eq_admitWave (grant : ℕ → ℕ → ι → Except ε (Option ε)) (refused : ε → ε)
    (offset : ℕ) (pending : List ι) (s : σ) : ∀ width,
    (negotiate (fun width s job => (grant offset width job, s)) refused offset width pending s).2
      = (admitWave (grant offset) refused width pending).map (·, s) := by
  intro width
  induction width with
  | zero => rfl
  | succ width ih =>
    obtain ⟨hanswer, hstate⟩ :=
      ask_eq_tryAdmit (grant offset (width + 1)) (pending.take (width + 1)) s
    have htaken := ask_spec (fun s job => (grant offset (width + 1) job, s))
      (pending.take (width + 1)) s
    unfold negotiate admitWave
    cases hasked : tryAdmit (grant offset (width + 1)) (pending.take (width + 1)) with
    | error e =>
      rw [hasked] at hanswer
      simp only [hanswer]
      rfl
    | ok refusal =>
      rw [hasked] at hanswer
      cases refusal with
      | none =>
        simp only [hanswer] at htaken ⊢
        rw [htaken.1, hstate]
        rfl
      | some e =>
        simp only [hanswer, hstate]
        split
        · rfl
        · exact ih

theorem batch_eq_inWaves (grant : ℕ → ℕ → ι → Except ε (Option ε)) (refused : ε → ε) (limit : ℕ)
    (run : List ι → σ → Except ε σ) : ∀ (fuel offset : ℕ)
    (pending : List ι) (s : σ),
    (batch (fun offset width s job => (grant offset width job, s)) refused limit run fuel offset
      pending s).2 = inWaves grant refused limit run fuel offset pending s := by
  intro fuel
  induction fuel with
  | zero => exact fun _ _ _ => rfl
  | succ fuel ih =>
    intro offset pending s
    cases pending with
    | nil => rfl
    | cons job rest =>
      have hwave := negotiate_eq_admitWave grant refused offset
        (job :: rest) s (min limit (job :: rest).length)
      unfold batch inWaves
      cases hadmitted : admitWave (grant offset) refused (min limit (job :: rest).length)
          (job :: rest) with
      | error e =>
        rw [hadmitted] at hwave
        simp only [hwave, hadmitted, Except.map]
        rfl
      | ok jobs =>
        rw [hadmitted] at hwave
        simp only [hwave, hadmitted, Except.map]
        show _ = run jobs s >>= _
        cases hrun : run jobs s with
        | error e => rfl
        | ok t => exact ih _ _ t

/-- What a batch carries along without looking at it changes nothing. -/
theorem inWaves_carry {τ : Type} {grant : ℕ → ℕ → ι → Except ε (Option ε)} {refused : ε → ε}
    {limit : ℕ} {run : List ι → σ → Except ε σ} (u : τ) : ∀ (fuel offset : ℕ) (pending : List ι)
      (s : σ), inWaves grant refused limit
      (fun jobs (s : σ × τ) => (run jobs s.1).map (·, s.2)) fuel
        offset pending (s, u) = (inWaves grant refused limit run fuel offset pending s).map
          (·, u) := by
  intro fuel
  induction fuel with
  | zero => exact fun _ _ _ => rfl
  | succ fuel ih =>
    intro offset pending s
    cases pending with
    | nil => rfl
    | cons job rest =>
      unfold inWaves
      dsimp only
      cases admitWave (grant offset) refused (min limit (job :: rest).length) (job :: rest) with
      | error e => rfl
      | ok jobs =>
        show Except.map (·, u) (run jobs s) >>= _ = Except.map (·, u) (run jobs s >>= _)
        cases run jobs s with
        | error e => rfl
        | ok t => exact ih _ _ t

end Workers
