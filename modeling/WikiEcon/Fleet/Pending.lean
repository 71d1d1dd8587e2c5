import WikiEcon.Fleet.Leases

/-!
# No task is lost or taken twice

A pending record is kept under its wiki's name, a claim is about one task of that
wiki. So a newer task can come to lie where a worker expects the one it claimed.
`Faithful` says what a step must not do: touch a pending record for a task it does
not hold, make a task disappear, or hand out a task that is completed or was
replaced.

The fleet checks first and acts later, and a step is faithful when what was
checked is still so (`Undisturbed`). Then `Serial` is an invariant: a lease and a
pending record of the same wiki are about the same task, and a completed task that
is still pending is still leased. `pending_faithful` is the result for all runs of
undisturbed steps, `pending_not_faithful` a run with a disturbed one.
-/

namespace WikiEcon.Fleet

open Programs Transition

/-! ## What calls do to leases, pending records and other documents -/

section Perform

variable {host : Host} {q : Queue} (c : Call)

theorem pending_perform (host : Host) (q : Queue) (wiki : String) :
    (q.perform host c).2.pending.lookup wiki = q.pending.lookup wiki ∨
      (∃ task, c = .writePending wiki task ∧
        (q.perform host c).2.pending.lookup wiki = some task) ∨
      (c = .removePending wiki ∧ (q.perform host c).2.pending.lookup wiki = none) := by
  cases c with
  | writePending w task =>
    by_cases hw : wiki = w
    · subst hw
      exact Or.inr (Or.inl ⟨task, rfl, by simp [Queue.perform]⟩)
    · left
      simp [Queue.perform, AList.lookup_insert_ne hw]
  | removePending w =>
    simp only [Queue.perform]
    split
    next =>
      by_cases hw : wiki = w
      · subst hw
        exact Or.inr (Or.inr ⟨rfl, by simp⟩)
      · left
        simp [AList.lookup_erase_ne hw]
    next => exact Or.inl rfl
  | createLease w =>
    left
    simp only [Queue.perform]
    split <;> rfl
  | removeLease w =>
    left
    simp only [Queue.perform]
    split <;> rfl
  | renameLease w now =>
    left
    simp only [Queue.perform]
    split
    next => rfl
    next => split <;> rfl
  | _ => exact Or.inl rfl

/-- Documents are written and never removed. -/
theorem records_perform (host : Host) (q : Queue) (record : Record) :
    (q.perform host c).2.records record = q.records record ∨
      ∃ content, c = .writeRecord record content ∧
        (q.perform host c).2.records record = some content := by
  cases c with
  | writeRecord written content =>
    by_cases hrecord : record = written
    · subst hrecord
      exact Or.inr ⟨content, rfl, by simp [Queue.perform]⟩
    · left
      simp [Queue.perform, Function.update_of_ne hrecord]
  | createLease w =>
    left
    simp only [Queue.perform]
    split <;> rfl
  | removeLease w =>
    left
    simp only [Queue.perform]
    split <;> rfl
  | renameLease w now =>
    left
    simp only [Queue.perform]
    split
    next => rfl
    next => split <;> rfl
  | removePending w =>
    left
    simp only [Queue.perform]
    split <;> rfl
  | _ => exact Or.inl rfl

theorem isSome_records_perform {record : Record} (h : (q.records record).isSome) :
    ((q.perform host c).2.records record).isSome := by
  rcases records_perform c host q record with hsame | ⟨content, -, hnew⟩
  · rw [hsame]
    exact h
  · rw [hnew]
    rfl

theorem isSome_update_self {record : Record} {content : record.Content} :
    (Function.update q.records record (some content) record).isSome := by
  rw [Function.update_self]
  rfl

theorem isSome_records_writeRecord {record : Record} {content : record.Content} :
    ((q.perform host (.writeRecord record content)).2.records record).isSome :=
  isSome_update_self

end Perform

/-! ## What calls teach -/

/-- What a process has listed is what it has read. -/
theorem learn_listed (k : Knowledge) (c : Call) (answer : c.Answer) :
    (k.learn c answer).listed = k.listed ∨ ∃ wiki task, ∃ h : c = .readPending wiki,
      answer = h ▸ Except.ok task ∧ (k.learn c answer).listed = task :: k.listed := by
  cases c with
  | readPending w =>
    cases answer with
    | error e => exact Or.inl rfl
    | ok task => exact Or.inr ⟨w, task, rfl, rfl, rfl⟩
  | isLeaseDir w => cases answer <;> exact Or.inl rfl
  | readOwner w => cases answer <;> exact Or.inl rfl
  | writeOwner w claim => cases answer <;> exact Or.inl rfl
  | createLease w => cases answer <;> exact Or.inl rfl
  | removeLease w => cases answer <;> exact Or.inl rfl
  | renameLease w now => cases answer <;> exact Or.inl rfl
  | isPending w => cases answer <;> exact Or.inl rfl
  | writePending w task => cases answer <;> exact Or.inl rfl
  | removePending w => cases answer <;> exact Or.inl rfl
  | writeRecord record content => cases answer <;> exact Or.inl rfl
  | _ => exact Or.inl rfl

theorem learn_written (k : Knowledge) (c : Call) (answer : c.Answer) :
    (k.learn c answer).written = k.written ∨ ∃ record content,
      c = .writeRecord record content ∧ (k.learn c answer).written = record :: k.written := by
  cases c with
  | writeRecord record content =>
    cases answer with
    | error e => exact Or.inl rfl
    | ok u => exact Or.inr ⟨record, content, rfl, rfl⟩
  | isLeaseDir w => cases answer <;> exact Or.inl rfl
  | readOwner w => cases answer <;> exact Or.inl rfl
  | writeOwner w claim => cases answer <;> exact Or.inl rfl
  | createLease w => cases answer <;> exact Or.inl rfl
  | removeLease w => cases answer <;> exact Or.inl rfl
  | renameLease w now => cases answer <;> exact Or.inl rfl
  | isPending w => cases answer <;> exact Or.inl rfl
  | readPending w => cases answer <;> exact Or.inl rfl
  | writePending w task => cases answer <;> exact Or.inl rfl
  | removePending w => cases answer <;> exact Or.inl rfl
  | _ => exact Or.inl rfl

/-! ## What a step must not do -/

/-- The wiki's pending record is of this task. -/
def Pends (q : Queue) (wiki taskId : String) : Prop :=
  ∃ task ∈ q.pending.lookup wiki, task.taskId = taskId

/-- The task can be found again. -/
def Accounted (q : Queue) (wiki taskId : String) : Prop :=
  Pends q wiki taskId ∨ (q.records (.completed wiki taskId)).isSome ∨
    (∃ attempt, (q.records (.quarantine wiki taskId attempt)).isSome) ∨
    (q.records (.superseded wiki taskId)).isSome

structure Faithful (s : FleetState) (e : Event) (t : FleetState) : Prop where
  /-- What a process does to a pending record under a claim, it does to the claimed
  task. -/
  own : ∀ i p wiki claim, e = .advance i → s.processes[i]? = some p →
    actsUnder p.op p.knowledge wiki = some claim →
    t.store.pending.lookup wiki ≠ s.store.pending.lookup wiki →
      Pends s.store wiki claim.task.taskId
  accounted : ∀ wiki taskId, Accounted s.store wiki taskId → Accounted t.store wiki taskId
  /-- A task that is handed out is the pending one, and not completed. -/
  current : ∀ claim, grantedBy t e = some claim →
    t.store.pending.lookup claim.task.wiki = some claim.task ∧
      t.store.records (.completed claim.task.wiki claim.task.taskId) = none

/-- All runs, from a queue with nothing in it but old documents. -/
def fleet (host : Host) : System FleetState Event where
  init s := s.processes = [] ∧ s.store.leases = ∅ ∧ s.store.pending = ∅
  step s e t := step host s e = some t

/-! ## Undisturbed steps -/

/-- What the process has listed of the wiki is still pending. -/
def ListedStill (q : Queue) (k : Knowledge) (wiki : String) : Prop :=
  ∀ task ∈ k.listed, task.wiki = wiki → q.pending.lookup wiki = some task

/-- What a call rests on is still so. A task is put back under a lease that is
still the claim's, while it is pending and not completed; discovery writes where
there is still no lease and the pending record it saw; a lease is made for a
record that is still the one that was listed; a lease is removed by its owner, and
not from a task that is both pending and completed; one without an owner is not
moved away while somebody is about to write it. -/
def Undisturbed (s : FleetState) (p : FleetProcess) : Call → Prop
  | .writePending wiki task => s.store.records (.completed wiki task.taskId) = none ∧
      (∀ claim ∈ actsUnder p.op p.knowledge wiki,
        OwnedBy s.store wiki claim ∧ (s.store.pending.lookup wiki).isSome) ∧
      (actsUnder p.op p.knowledge wiki = none → s.store.leases.lookup wiki = none ∧
        p.knowledge.pending wiki = some (s.store.pending.lookup wiki))
  | .removePending wiki => ∀ claim ∈ actsUnder p.op p.knowledge wiki, OwnedBy s.store wiki claim
  | .createLease wiki => ListedStill s.store p.knowledge wiki
  | .writeOwner wiki _ => ∀ held ∈ p.op.held, OwnedBy s.store wiki held
  | .removeLease wiki => ∀ claim ∈ actsUnder p.op p.knowledge wiki, OwnedBy s.store wiki claim ∧
      ∀ task ∈ s.store.pending.lookup wiki,
        s.store.records (.completed wiki task.taskId) = none
  | .renameLease wiki _ => s.store.ownerOf wiki = none ∧ ∀ p ∈ s.processes, ¬ Making p wiki
  | .writeRecord (.completed wiki _) _ => ∀ held ∈ p.op.held, OwnedBy s.store wiki held
  | _ => True

instance (q : Queue) (k : Knowledge) (wiki : String) : Decidable (ListedStill q k wiki) :=
  inferInstanceAs (Decidable (∀ task ∈ _, _ → _))

instance (s : FleetState) (p : FleetProcess) : (c : Call) → Decidable (Undisturbed s p c)
  | .writePending .. => inferInstanceAs (Decidable (_ ∧ (∀ claim ∈ _, _ ∧ _) ∧ (_ → _)))
  | .removePending _ => inferInstanceAs (Decidable (∀ claim ∈ _, _))
  | .createLease _ => inferInstanceAs (Decidable (ListedStill ..))
  | .writeOwner .. => inferInstanceAs (Decidable (∀ held ∈ _, _))
  | .removeLease _ => inferInstanceAs (Decidable (∀ claim ∈ _, _ ∧ ∀ task ∈ _, _))
  | .renameLease .. => inferInstanceAs (Decidable (_ = none ∧ ∀ p ∈ _, _))
  | .writeRecord (.completed ..) _ => inferInstanceAs (Decidable (∀ held ∈ _, _))
  | .writeRecord (.notification ..) _ | .writeRecord (.superseded ..) _
  | .writeRecord (.failure ..) _ | .writeRecord (.deferred ..) _ | .writeRecord (.quarantine ..) _
  | .writeRecord (.ambiguous ..) _ | .writeRecord (.readyIndex ..) _ | .nowUnix | .readLeases
  | .isLeaseDir _ | .readOwner _ | .readPendingDir | .isPending _ | .readPending _ | .isRecord _
  | .readRecord _ => isTrue trivial

def UndisturbedStep (s : FleetState) : Event → Prop
  | .advance i => ∀ p ∈ s.processes[i]?, ∀ c ∈ nextCall p, Undisturbed s p c
  | _ => True

instance (s : FleetState) (e : Event) : Decidable (UndisturbedStep s e) :=
  match e with
  | .advance _ => inferInstanceAs (Decidable (∀ p ∈ _, ∀ c ∈ nextCall p, Undisturbed s p c))
  | .start _ | .kill _ | .tick _ | .publishReady .. => isTrue trivial

/-- The runs of undisturbed steps. -/
def undisturbedFleet (host : Host) : System FleetState Event where
  init := (fleet host).init
  step s e t := step host s e = some t ∧ UndisturbedStep s e

/-! ## The invariant -/

structure Serial (host : Host) (s : FleetState) : Prop where
  sound : Sound host s
  named : ∀ wiki task, s.store.pending.lookup wiki = some task → task.wiki = wiki
  written : ∀ p ∈ s.processes, ∀ record ∈ p.knowledge.written,
    (∀ path, record ≠ .readyIndex path) → (s.store.records record).isSome
  /-- A lease and a pending record are about the same task. -/
  leased : ∀ wiki owner task, s.store.ownerOf wiki = some owner →
    s.store.pending.lookup wiki = some task → task.taskId = owner.task.taskId
  /-- A completed task that is still pending is still leased. -/
  finished : ∀ wiki task, s.store.pending.lookup wiki = some task →
    (s.store.records (.completed wiki task.taskId)).isSome → (s.store.ownerOf wiki).isSome
  making : ∀ p ∈ s.processes, ∀ wiki, Making p wiki →
    s.store.leases.lookup wiki = some none ∧ ListedStill s.store p.knowledge wiki
  alone : ∀ (i j : ℕ) p p' wiki, s.processes[i]? = some p → s.processes[j]? = some p' →
    Making p wiki → Making p' wiki → i = j

theorem Discovers.acts {op : Operation} {k : Knowledge} {wiki : String} {task : FleetTask}
    (h : Discovers k wiki task) (hheld : op.held = none) : actsUnder op k wiki = none := by
  unfold actsUnder
  rw [hheld, h.1]

theorem Serial.makers {host : Host} {s : FleetState} (h : Serial host s) : Makers s :=
  ⟨fun p hp wiki hmaking => (h.making p hp wiki hmaking).1, h.alone⟩

section Step

variable {host : Host} {s : FleetState} {i : ℕ} {op : Operation} {k : Knowledge} {c : Call}
  {rest : c.Answer → Steps Outcome}

/-- A claim that owns the lease is about the pending task. -/
theorem Serial.owned (h : Serial host s) {wiki : String} {claim : FleetClaim} {task : FleetTask}
    (howned : OwnedBy s.store wiki claim) (htask : s.store.pending.lookup wiki = some task) :
    task.taskId = claim.task.taskId := by
  obtain ⟨owner, howner, hsame⟩ := howned.owner
  rw [h.leased wiki owner task howner htask, hsame]

/-- How a pending record comes to be written. -/
theorem Serial.writePending (h : Serial host s) {wiki : String} {task : FleetTask}
    (hallowed : Allowed host op k (.writePending wiki task))
    (hstill : Undisturbed s ⟨op, k, .call c rest⟩ (.writePending wiki task)) :
    task.wiki = wiki ∧ s.store.records (.completed wiki task.taskId) = none ∧
      ((∃ claim existing, actsUnder op k wiki = some claim ∧ OwnedBy s.store wiki claim ∧
          s.store.pending.lookup wiki = some existing ∧ existing.taskId = claim.task.taskId ∧
          task.taskId = claim.task.taskId) ∨
        (actsUnder op k wiki = none ∧ s.store.leases.lookup wiki = none ∧
          ∀ existing ∈ s.store.pending.lookup wiki, existing.taskId = task.taskId ∨
            Record.superseded wiki existing.taskId ∈ k.written)) := by
  obtain ⟨hwiki, -, hwho⟩ := hallowed
  obtain ⟨hopen, hunder, hfresh⟩ := hstill
  refine ⟨hwiki, hopen, ?_⟩
  rcases hwho with ⟨claim, hentitled, hclaim, hid⟩ | ⟨hheld, hdiscovers⟩
  · have hacts := hentitled.acts
    rw [hclaim] at hacts
    obtain ⟨howned, hthere⟩ := hunder claim (Option.mem_def.mpr hacts)
    obtain ⟨existing, hexisting⟩ := Option.isSome_iff_exists.mp hthere
    exact Or.inl ⟨claim, existing, hacts, howned, hexisting, h.owned howned hexisting, hid⟩
  · have hacts := hdiscovers.acts hheld
    obtain ⟨hfree, hseen⟩ := hfresh hacts
    refine Or.inr ⟨hacts, hfree, fun existing hexisting => ?_⟩
    rcases hdiscovers.2 with hnone | ⟨found, hfound, hsame⟩
    · rw [hseen, Option.mem_def.mp hexisting] at hnone
      exact absurd hnone (by simp)
    · have hfound' : s.store.pending.lookup wiki = some found := by
        rw [hseen] at hfound
        exact Option.some.inj hfound
      obtain rfl : existing = found := Option.some.inj (hexisting.symm.trans hfound')
      rw [← h.named wiki existing hfound']
      exact hsame

/-- How a pending record comes to be removed. -/
theorem Serial.removePending (h : Serial host s) {wiki : String}
    (hp : (⟨op, k, .call c rest⟩ : FleetProcess) ∈ s.processes)
    (hallowed : Allowed host op k (.removePending wiki))
    (hstill : Undisturbed s ⟨op, k, .call c rest⟩ (.removePending wiki)) :
    ∃ claim, actsUnder op k wiki = some claim ∧ OwnedBy s.store wiki claim ∧
      ((s.store.records (.completed wiki claim.task.taskId)).isSome ∨
        ∃ attempt, (s.store.records (.quarantine wiki claim.task.taskId attempt)).isSome) := by
  obtain ⟨claim, hentitled, hclaim, -, hdone⟩ := hallowed
  have hacts := hentitled.acts
  rw [hclaim] at hacts
  refine ⟨claim, hacts, hstill claim (Option.mem_def.mpr hacts), ?_⟩
  rcases hdone with ⟨-, hrecord⟩ | ⟨-, attempt, hrecord⟩
  · exact Or.inl (h.written _ hp _ hrecord (by simp))
  · exact Or.inr ⟨attempt, h.written _ hp _ hrecord (by simp)⟩

/-- How a lease comes to be removed. -/
theorem removeLease_cases {wiki : String} (hallowed : Allowed host op k (.removeLease wiki))
    (hstill : Undisturbed s ⟨op, k, .call c rest⟩ (.removeLease wiki)) :
    (∃ claim, OwnedBy s.store wiki claim ∧ ∀ task ∈ s.store.pending.lookup wiki,
        s.store.records (.completed wiki task.taskId) = none) ∨ k.lease wiki = some .made := by
  rcases hallowed with ⟨claim, hentitled, hclaim, -⟩ | ⟨-, hmade⟩
  · have hacts := hentitled.acts
    rw [hclaim] at hacts
    exact Or.inl ⟨claim, hstill claim (Option.mem_def.mpr hacts)⟩
  · exact Or.inr hmade

/-- How an owner comes to be written: by its worker, or by the maker of the lease. -/
theorem writeOwner_cases {wiki : String} {claim : FleetClaim}
    (hallowed : Allowed host op k (.writeOwner wiki claim))
    (hstill : Undisturbed s ⟨op, k, .call c rest⟩ (.writeOwner wiki claim)) :
    (∃ held, op.held = some held ∧ OwnedBy s.store wiki held ∧ claim.task = held.task) ∨
      (op.held = none ∧ IsNew host k wiki claim) := by
  unfold Allowed at hallowed
  dsimp only at hallowed
  cases hheld : op.held with
  | some held =>
    rw [hheld] at hallowed
    obtain ⟨-, -, now, -, rfl⟩ := hallowed
    exact Or.inl ⟨held, rfl, hstill held (Option.mem_def.mpr hheld), rfl⟩
  | none =>
    rw [hheld] at hallowed
    exact Or.inr ⟨rfl, hallowed⟩

variable (h : Serial host s) (hi : s.processes[i]? = some ⟨op, k, .call c rest⟩)
  (hstill : Undisturbed s ⟨op, k, .call c rest⟩ c)

include h hi hstill

omit hstill in
theorem Serial.allowed : Allowed host op k c :=
  (h.sound.running _ (List.mem_of_getElem? hi)).follows.1

theorem Serial.named_perform {wiki : String} {task : FleetTask}
    (htask : (s.store.perform host c).2.pending.lookup wiki = some task) : task.wiki = wiki := by
  rcases pending_perform c host s.store wiki with hsame | ⟨written, rfl, hnew⟩ | ⟨-, hnone⟩
  · exact h.named wiki task (hsame.symm.trans htask)
  · rw [hnew] at htask
    rw [← Option.some.inj htask]
    exact (h.writePending (h.allowed hi) hstill).1
  · rw [hnone] at htask
    exact absurd htask (by simp)

/-- The lease and the pending record stay about one task. -/
theorem Serial.leased_perform {wiki : String} {owner : FleetClaim} {task : FleetTask}
    (howner : (s.store.perform host c).2.ownerOf wiki = some owner)
    (htask : (s.store.perform host c).2.pending.lookup wiki = some task) :
    task.taskId = owner.task.taskId := by
  have hallowed := h.allowed hi
  unfold Queue.ownerOf at howner
  rcases leases_perform c host s.store wiki with hlease | ⟨claim, rfl, hnew⟩ | ⟨rfl, -, hmade⟩ |
    ⟨-, hnone⟩
  · rw [hlease] at howner
    rcases pending_perform c host s.store wiki with hsame | ⟨written, rfl, hnew⟩ | ⟨-, hnone⟩
    · rw [hsame] at htask
      exact h.leased wiki owner task howner htask
    · rw [hnew] at htask
      obtain rfl := Option.some.inj htask
      obtain ⟨-, -, ⟨claim, existing, -, howned, -, -, hid⟩ | ⟨-, hfree, -⟩⟩ :=
        h.writePending hallowed hstill
      · obtain ⟨owner', howner', hsame⟩ := howned.owner
        rw [hid, ← hsame, Option.some.inj (howner.symm.trans howner')]
      · rw [hfree] at howner
        exact absurd howner (by simp)
    · rw [hnone] at htask
      exact absurd htask (by simp)
  · rw [hnew] at howner
    obtain rfl : claim = owner := by simpa using howner
    have hpending : s.store.pending.lookup wiki = some task := htask
    rcases writeOwner_cases hallowed hstill with ⟨held, -, howned, hsame⟩ | ⟨-, hnew⟩
    · rw [hsame]
      exact h.owned howned hpending
    · obtain ⟨-, hlisted⟩ := h.making _ (List.mem_of_getElem? hi) wiki (Making.call hnew.made)
      have hthere := hlisted _ hnew.listed hnew.wiki
      rw [Option.some.inj (hpending.symm.trans hthere)]
  · rw [hmade] at howner
    exact absurd howner (by simp)
  · rw [hnone] at howner
    exact absurd howner (by simp)

/-- No lease goes while its task is both pending and completed. -/
theorem Serial.finished_perform {wiki : String} {task : FleetTask}
    (htask : (s.store.perform host c).2.pending.lookup wiki = some task)
    (hdone : ((s.store.perform host c).2.records (.completed wiki task.taskId)).isSome) :
    ((s.store.perform host c).2.ownerOf wiki).isSome := by
  have hallowed := h.allowed hi
  -- the lease before the call, where the call changes neither lease nor pending record
  have hbefore : s.store.pending.lookup wiki = some task →
      (s.store.records (.completed wiki task.taskId)).isSome = true →
      ∃ owner, s.store.leases.lookup wiki = some (some owner) := by
    intro hpending hcompleted
    obtain ⟨owner, howner⟩ := Option.isSome_iff_exists.mp (h.finished wiki task hpending hcompleted)
    unfold Queue.ownerOf at howner
    exact ⟨owner, Option.join_eq_some_iff.mp howner⟩
  unfold Queue.ownerOf
  rcases leases_perform c host s.store wiki with hlease | ⟨claim, rfl, hnew⟩ | ⟨rfl, hfree, -⟩ |
    ⟨hc, -⟩
  · rw [hlease]
    rcases records_perform c host s.store (.completed wiki task.taskId) with
      hrecord | ⟨content, rfl, -⟩
    · rw [hrecord] at hdone
      rcases pending_perform c host s.store wiki with hsame | ⟨written, rfl, hnew⟩ | ⟨-, hnone⟩
      · obtain ⟨owner, howner⟩ := hbefore (hsame.symm.trans htask) hdone
        rw [howner]
        rfl
      · rw [hnew] at htask
        obtain rfl := Option.some.inj htask
        rw [(h.writePending hallowed hstill).2.1] at hdone
        exact absurd hdone (by simp)
      · rw [hnone] at htask
        exact absurd htask (by simp)
    · obtain ⟨-, held, hheld, -, -⟩ := hallowed wiki task.taskId rfl
      obtain ⟨owner, howner⟩ := (hstill held (Option.mem_def.mpr hheld)).leases
      rw [howner]
      rfl
  · rw [hnew]
    rfl
  · have hcompleted : (s.store.records (.completed wiki task.taskId)).isSome = true := by
      rcases records_perform (.createLease wiki) host s.store (.completed wiki task.taskId) with
        hrecord | ⟨_, hc, -⟩
      · rwa [hrecord] at hdone
      · exact absurd hc (by simp)
    have hpending : s.store.pending.lookup wiki = some task := by
      rcases pending_perform (.createLease wiki) host s.store wiki with hsame | ⟨_, hc, -⟩ | ⟨hc, -⟩
      · rwa [hsame] at htask
      · exact absurd hc (by simp)
      · exact absurd hc (by simp)
    obtain ⟨owner, howner⟩ := hbefore hpending hcompleted
    rw [hfree] at howner
    exact absurd howner (by simp)
  · have hcompleted : (s.store.records (.completed wiki task.taskId)).isSome = true := by
      rcases records_perform c host s.store (.completed wiki task.taskId) with
        hrecord | ⟨_, rfl, -⟩
      · rwa [hrecord] at hdone
      · exact absurd hc (by simp)
    have hpending : s.store.pending.lookup wiki = some task := by
      rcases pending_perform c host s.store wiki with hsame | ⟨_, rfl, -⟩ | ⟨rfl, -⟩
      · rwa [hsame] at htask
      · exact absurd hc (by simp)
      · exact absurd hc (by simp)
    obtain ⟨owner, howner⟩ := hbefore hpending hcompleted
    rcases hc with rfl | ⟨now, rfl⟩
    · rcases removeLease_cases hallowed hstill with ⟨claim, -, hopen⟩ | hmade
      · rw [hopen task (Option.mem_def.mpr hpending)] at hcompleted
        exact absurd hcompleted (by simp)
      · obtain ⟨hmaking, -⟩ := h.making _ (List.mem_of_getElem? hi) wiki (Making.call hmade)
        rw [howner] at hmaking
        exact absurd hmaking (by simp)
    · have hnone := hstill.1
      unfold Queue.ownerOf at hnone
      rw [howner] at hnone
      exact absurd hnone (by simp)

/-- No call takes from a lease that another process is making. -/
theorem Serial.spares {wiki : String} (hc : c.changesLease = some wiki) {j : ℕ} {p : FleetProcess}
    (hij : i ≠ j) (hj : s.processes[j]? = some p) : ¬ Making p wiki := by
  intro hmaking
  have hallowed := h.allowed hi
  obtain ⟨hlease, -⟩ := h.making p (List.mem_of_getElem? hj) wiki hmaking
  have hnotmade : k.lease wiki ≠ some .made := fun hmade =>
    hij (h.alone i j _ p wiki hi hj (Making.call hmade) hmaking)
  cases c with
  | writeOwner name claim =>
    obtain rfl := Option.some.inj hc
    rcases writeOwner_cases hallowed hstill with ⟨held, -, howned, -⟩ | ⟨-, hnew⟩
    · exact howned.not_ownerless hlease
    · exact hnotmade hnew.made
  | removeLease name =>
    obtain rfl := Option.some.inj hc
    rcases removeLease_cases hallowed hstill with ⟨claim, howned, -⟩ | hmade
    · exact howned.not_ownerless hlease
    · exact hnotmade hmade
  | renameLease name now =>
    obtain rfl := Option.some.inj hc
    exact hstill.2 p (List.mem_of_getElem? hj) hmaking
  | _ => exact absurd hc (by simp [Call.changesLease])

/-- The record of a wiki whose lease is being made stays. -/
theorem Serial.pending_ownerless {wiki : String} (hlease : s.store.leases.lookup wiki = some none) :
    (s.store.perform host c).2.pending.lookup wiki = s.store.pending.lookup wiki := by
  have hallowed := h.allowed hi
  rcases pending_perform c host s.store wiki with hkept | ⟨written, rfl, -⟩ | ⟨rfl, -⟩
  · exact hkept
  · obtain ⟨-, -, ⟨claim, _, -, howned, -⟩ | ⟨-, hfree, -⟩⟩ := h.writePending hallowed hstill
    · exact absurd hlease howned.not_ownerless
    · rw [hfree] at hlease
      exact absurd hlease (by simp)
  · obtain ⟨claim, -, howned, -⟩ := h.removePending (List.mem_of_getElem? hi) hallowed hstill
    exact absurd hlease howned.not_ownerless

/-- What another process listed of a wiki it makes the lease of is still pending. -/
theorem Serial.listed_other {j : ℕ} {p : FleetProcess} (hj : s.processes[j]? = some p)
    {wiki : String} (hmaking : Making p wiki) :
    ListedStill (s.store.perform host c).2 p.knowledge wiki := by
  obtain ⟨hlease, hlisted⟩ := h.making p (List.mem_of_getElem? hj) wiki hmaking
  intro task htask hwiki
  rw [h.pending_ownerless hi hstill hlease]
  exact hlisted task htask hwiki

/-- So is what the process itself listed. -/
theorem Serial.listed_self {wiki : String}
    (hmade : (k.learn c (s.store.perform host c).1).lease wiki = some .made) :
    ListedStill (s.store.perform host c).2 (k.learn c (s.store.perform host c).1) wiki := by
  rcases learn_made hmade with ⟨rfl, -, -⟩ | ⟨hbefore, -⟩
  · intro task htask hwiki
    rcases learn_listed k (.createLease wiki) (s.store.perform host (.createLease wiki)).1 with
      hlisted | ⟨_, _, hc, -⟩
    · rw [hlisted] at htask
      rcases pending_perform (.createLease wiki) host s.store wiki with hpending | ⟨_, hc, -⟩ |
        ⟨hc, -⟩
      · rw [hpending]
        exact hstill task htask hwiki
      · exact absurd hc (by simp)
      · exact absurd hc (by simp)
    · exact absurd hc (by simp)
  · obtain ⟨hlease, hlisted⟩ := h.making _ (List.mem_of_getElem? hi) wiki (Making.call hbefore)
    intro task htask hwiki
    rw [h.pending_ownerless hi hstill hlease]
    rcases learn_listed k c (s.store.perform host c).1 with hkept | ⟨w, found, rfl, hread, hmore⟩
    · rw [hkept] at htask
      exact hlisted task htask hwiki
    · rw [hmore] at htask
      rcases List.mem_cons.mp htask with rfl | htask
      · have hthere : s.store.pending.lookup w = some task := context_eq_ok.mp hread
        rw [← hwiki, h.named w task hthere]
        exact hthere
      · exact hlisted task htask hwiki

/-- What is accounted for stays so. -/
theorem Serial.accounted_perform {wiki taskId : String}
    (haccounted : Accounted s.store wiki taskId) :
    Accounted (s.store.perform host c).2 wiki taskId := by
  have hallowed := h.allowed hi
  rcases haccounted with ⟨task, htask, rfl⟩ | hdone | ⟨attempt, hdone⟩ | hdone
  · rcases pending_perform c host s.store wiki with hsame | ⟨written, rfl, hnew⟩ | ⟨rfl, -⟩
    · exact Or.inl ⟨task, hsame.trans htask, rfl⟩
    · obtain ⟨-, -, ⟨claim, existing, -, -, hexisting, hsame, hid⟩ | ⟨-, -, hreplaced⟩⟩ :=
        h.writePending hallowed hstill
      · obtain rfl := Option.some.inj (htask.symm.trans hexisting)
        exact Or.inl ⟨written, hnew, by rw [hid, hsame]⟩
      · rcases hreplaced task htask with hid | harchived
        · exact Or.inl ⟨written, hnew, hid.symm⟩
        · refine Or.inr (Or.inr (Or.inr ?_))
          exact isSome_records_perform _ (h.written _ (List.mem_of_getElem? hi) _ harchived
            (by simp))
    · obtain ⟨claim, -, howned, hdone⟩ :=
        h.removePending (List.mem_of_getElem? hi) hallowed hstill
      rw [← h.owned howned htask] at hdone
      rcases hdone with hdone | ⟨attempt, hdone⟩
      · exact Or.inr (Or.inl (isSome_records_perform _ hdone))
      · exact Or.inr (Or.inr (Or.inl ⟨attempt, isSome_records_perform _ hdone⟩))
  · exact Or.inr (Or.inl (isSome_records_perform _ hdone))
  · exact Or.inr (Or.inr (Or.inl ⟨attempt, isSome_records_perform _ hdone⟩))
  · exact Or.inr (Or.inr (Or.inr (isSome_records_perform _ hdone)))

/-- What a process changes under a claim is of the claim's task. -/
theorem Serial.own_perform {wiki : String} {claim : FleetClaim}
    (hacts : actsUnder op k wiki = some claim)
    (hchanged : (s.store.perform host c).2.pending.lookup wiki ≠ s.store.pending.lookup wiki) :
    Pends s.store wiki claim.task.taskId := by
  have hallowed := h.allowed hi
  rcases pending_perform c host s.store wiki with hsame | ⟨written, rfl, hnew⟩ | ⟨rfl, hnone⟩
  · exact absurd hsame hchanged
  · obtain ⟨-, -, ⟨claim', existing, hacts', -, hexisting, hid, -⟩ | ⟨hnot, -⟩⟩ :=
      h.writePending hallowed hstill
    · obtain rfl := Option.some.inj (hacts.symm.trans hacts')
      exact ⟨existing, Option.mem_def.mpr hexisting, hid⟩
    · rw [hacts] at hnot
      exact absurd hnot (by simp)
  · obtain ⟨claim', hacts', howned, -⟩ :=
      h.removePending (List.mem_of_getElem? hi) hallowed hstill
    obtain rfl := Option.some.inj (hacts.symm.trans hacts')
    cases htask : s.store.pending.lookup wiki with
    | none => exact absurd (hnone.trans htask.symm) hchanged
    | some task => exact ⟨task, Option.mem_def.mpr htask, h.owned howned htask⟩

/-- What is handed out is pending and not completed. -/
theorem Serial.current_perform {claim : FleetClaim}
    (hgranted : granted ⟨op, k.learn c (s.store.perform host c).1,
      rest (s.store.perform host c).1⟩ = some claim) :
    (s.store.perform host c).2.pending.lookup claim.task.wiki = some claim.task ∧
      (s.store.perform host c).2.records (.completed claim.task.wiki claim.task.taskId) = none := by
  have hrunning := h.sound.running _ (List.mem_of_getElem? hi)
  obtain ⟨rfl, hheld, -, -, hmade⟩ := granted_spec hrunning hgranted
  have hnew : IsNew host k claim.task.wiki claim := by
    rcases writeOwner_cases (h.allowed hi) hstill with ⟨held, hheld', -⟩ | ⟨-, hnew⟩
    · rw [hheld] at hheld'
      exact absurd hheld' (by simp)
    · exact hnew
  obtain ⟨hlease, hlisted⟩ := h.making _ (List.mem_of_getElem? hi) _ (Making.call hmade)
  have hpending := hlisted _ hnew.listed hnew.wiki
  refine ⟨hpending, ?_⟩
  -- a completed task that is pending would be leased, and this lease had no owner
  cases hdone : s.store.records (.completed claim.task.wiki claim.task.taskId) with
  | none => exact hdone
  | some completed =>
    have howned := h.finished _ _ hpending (by rw [hdone]; rfl)
    unfold Queue.ownerOf at howned
    rw [hlease] at howned
    exact absurd howned (by simp)

theorem Serial.perform : Serial host {
    store := (s.store.perform host c).2
    processes := s.processes.set i
      ⟨op, k.learn c (s.store.perform host c).1, rest (s.store.perform host c).1⟩ } := by
  have hstep : step host s (.advance i) = some _ :=
    Machine.advance_eq_some.mpr ⟨_, _, _, _, hi, rfl⟩
  have hsound := h.sound.step hstep
  have hmakers := h.makers.perform host hi fun wiki hwiki j p hij hj =>
    h.spares hi hstill hwiki hij hj
  refine ⟨hsound, fun wiki task => h.named_perform hi hstill, fun p hp record hrecord hindex => ?_,
    fun wiki owner task => h.leased_perform hi hstill,
    fun wiki task => h.finished_perform hi hstill, fun p hp wiki hmaking => ?_, hmakers.alone⟩
  · rcases List.mem_or_eq_of_mem_set hp with hp | rfl
    · exact isSome_records_perform c (h.written p hp record hrecord hindex)
    · rcases learn_written k c (s.store.perform host c).1 with hsame | ⟨r, content, hc, hmore⟩
      · dsimp only at hrecord
        rw [hsame] at hrecord
        exact isSome_records_perform c
          (h.written _ (List.mem_of_getElem? hi) record hrecord hindex)
      · dsimp only at hrecord
        rw [hmore] at hrecord
        rcases List.mem_cons.mp hrecord with rfl | hrecord
        · subst hc
          simp [Queue.perform]
        · exact isSome_records_perform c
            (h.written _ (List.mem_of_getElem? hi) record hrecord hindex)
  · refine ⟨hmakers.making p hp wiki hmaking, ?_⟩
    obtain ⟨j, hj⟩ := List.mem_iff_getElem?.mp hp
    rcases getElem?_set_cases (List.getElem?_eq_some_iff.mp hi).1 hj with ⟨-, rfl⟩ | ⟨-, hj⟩
    · exact h.listed_self hi hstill hmaking.2
    · exact h.listed_other hi hstill hj hmaking

end Step

/-! ## Runs -/

/-- A step that is no call keeps the invariant. -/
theorem Serial.idle {host : Host} {s t : FleetState} {e : Event} (h : Serial host s)
    (hstep : step host s e = some t) (he : ∀ i, e ≠ .advance i) : Serial host t ∧
      (∀ wiki taskId, Accounted s.store wiki taskId → Accounted t.store wiki taskId) ∧
      t.store.pending = s.store.pending := by
  have hsound := h.sound.step hstep
  have hmakers := h.makers.idle hstep he
  cases e with
  | advance i => exact absurd rfl (he i)
  | start op =>
    have hstart : (if mayStart s op then some ((machine host).start s op) else none) = some t :=
      hstep
    split at hstart
    next =>
      obtain rfl := Option.some.inj hstart
      refine ⟨⟨hsound, h.named, ?_, h.leased, h.finished, ?_, hmakers.alone⟩, fun _ _ h => h, rfl⟩
      · refine Machine.forall_start h.written fun record hrecord => ?_
        exact absurd (show record ∈ [] from hrecord) (by simp)
      · exact Machine.forall_start h.making fun wiki hmaking =>
          absurd hmaking (not_making_spawn host op wiki)
    next => exact absurd hstart (by simp)
  | kill i =>
    -- A killed process keeps what it knew, but makes no lease any more.
    obtain ⟨op, k, c, rest, hi, rfl⟩ := Machine.kill_eq_some.mp hstep
    refine ⟨⟨hsound, h.named, fun p hp => ?_, h.leased, h.finished,
      fun p hp wiki hmaking => ⟨hmakers.making p hp wiki hmaking, ?_⟩, hmakers.alone⟩,
      fun _ _ h => h, rfl⟩
    · rcases List.mem_or_eq_of_mem_set hp with hp | rfl
      · exact h.written p hp
      · exact h.written ⟨op, k, .call c rest⟩ (List.mem_of_getElem? hi)
    · rcases List.mem_or_eq_of_mem_set hp with hp | rfl
      · exact (h.making p hp wiki hmaking).2
      · exact absurd rfl hmaking.1
  | tick seconds =>
    obtain rfl := Option.some.inj hstep
    exact ⟨⟨hsound, h.named, h.written, h.leased, h.finished, h.making, h.alone⟩,
      fun _ _ h => h, rfl⟩
  | publishReady path index =>
    -- An index is a record of its own; what has become of a task is in the others.
    obtain rfl := Option.some.inj hstep
    have hkept := @Queue.records_publishReady s.store path index
    have hcompleted : ∀ wiki taskId, Function.update s.store.records (.readyIndex path) index
        (.completed wiki taskId) = s.store.records (.completed wiki taskId) :=
      fun wiki taskId => hkept (by simp)
    refine ⟨⟨hsound, h.named, fun p hp record hrecord hindex => ?_, h.leased,
      fun wiki task htask hdone => ?_, h.making, h.alone⟩, fun wiki taskId haccounted => ?_, rfl⟩
    · dsimp only
      rw [hkept hindex]
      exact h.written p hp record hrecord hindex
    · dsimp only at hdone
      rw [hcompleted] at hdone
      exact h.finished wiki task htask hdone
    · rcases haccounted with hpends | hdone | ⟨attempt, hdone⟩ | hdone
      · exact Or.inl hpends
      · refine Or.inr (Or.inl ?_)
        dsimp only
        rw [hcompleted]
        exact hdone
      · refine Or.inr (Or.inr (Or.inl ⟨attempt, ?_⟩))
        dsimp only
        rw [hkept (by simp)]
        exact hdone
      · refine Or.inr (Or.inr (Or.inr ?_))
        dsimp only
        rw [hkept (by simp)]
        exact hdone

theorem UndisturbedStep.call {s : FleetState} {i : ℕ} {op : Operation} {k : Knowledge} {c : Call}
    {rest : c.Answer → Steps Outcome} (h : UndisturbedStep s (.advance i))
    (hi : s.processes[i]? = some ⟨op, k, .call c rest⟩) :
    Undisturbed s ⟨op, k, .call c rest⟩ c :=
  h _ (Option.mem_def.mpr hi) c rfl

theorem Serial.step {host : Host} {s t : FleetState} {e : Event} (h : Serial host s)
    (hstep : step host s e = some t) (hstill : UndisturbedStep s e) : Serial host t := by
  by_cases he : ∃ i, e = .advance i
  · obtain ⟨i, rfl⟩ := he
    obtain ⟨op, k, c, rest, hi, rfl⟩ := Machine.advance_eq_some.mp hstep
    exact h.perform hi (hstill.call hi)
  · exact (h.idle hstep fun i hi => he ⟨i, hi⟩).1

theorem serial_inductive (host : Host) : (undisturbedFleet host).Inductive (Serial host) where
  init s hinit := by
    obtain ⟨hprocesses, hleases, hpending⟩ := hinit
    have hnone : ∀ p ∈ s.processes, False := by
      rw [hprocesses]
      simp
    have howner : ∀ wiki, s.store.ownerOf wiki = none := by
      intro wiki
      unfold Queue.ownerOf
      rw [hleases]
      rfl
    have htask : ∀ wiki, s.store.pending.lookup wiki = none := by
      intro wiki
      rw [hpending]
      rfl
    refine ⟨⟨fun wiki claim h => ?_, fun p hp => (hnone p hp).elim⟩, fun wiki task h => ?_,
      fun p hp => (hnone p hp).elim, fun wiki owner task h => ?_, fun wiki task h => ?_,
      fun p hp => (hnone p hp).elim, fun j _ p _ _ hj => ?_⟩
    · exact absurd ((howner wiki).symm.trans h) (by simp)
    · exact absurd ((htask wiki).symm.trans h) (by simp)
    · exact absurd ((howner wiki).symm.trans h) (by simp)
    · exact absurd ((htask wiki).symm.trans h) (by simp)
    · exact (hnone p (List.mem_of_getElem? hj)).elim
  step _ _ _ h hstep := h.step hstep.1 hstep.2

/-- **In runs of undisturbed steps no task is lost, none is touched by a process
that does not hold it, and none is handed out that is completed or replaced.** -/
theorem pending_faithful (host : Host) (s t : FleetState) (e : Event)
    (hreach : (undisturbedFleet host).Reachable s) (hstep : step host s e = some t)
    (hstill : UndisturbedStep s e) : Faithful s e t := by
  have h := (serial_inductive host).reachable hreach
  by_cases he : ∃ i, e = .advance i
  · obtain ⟨i, rfl⟩ := he
    obtain ⟨op, k, c, rest, hi, rfl⟩ := Machine.advance_eq_some.mp hstep
    have hcall := hstill.call hi
    refine ⟨fun j p wiki claim hij hj hacts hchanged => ?_,
      fun wiki taskId => h.accounted_perform hi hcall, fun claim hgranted => ?_⟩
    · obtain rfl := Event.advance.inj hij
      obtain rfl := Option.some.inj (hi.symm.trans hj)
      exact h.own_perform hi hcall hacts hchanged
    · change (List.set _ _ _)[i]? >>= granted = _ at hgranted
      rw [List.getElem?_set_self (List.getElem?_eq_some_iff.mp hi).1] at hgranted
      exact h.current_perform hi hcall hgranted
  · have hnot : ∀ i, e ≠ .advance i := fun i hi => he ⟨i, hi⟩
    obtain ⟨-, haccounted, hpending⟩ := h.idle hstep hnot
    refine ⟨fun i _ _ _ hi => absurd hi (hnot i), haccounted, fun claim hgranted => ?_⟩
    cases e with
    | advance i => exact absurd rfl (hnot i)
    | start op => exact absurd hgranted (by simp [grantedBy])
    | kill i => exact absurd hgranted (by simp [grantedBy])
    | tick seconds => exact absurd hgranted (by simp [grantedBy])
    | publishReady path index => exact absurd hgranted (by simp [grantedBy])

/-! ## Two runs -/

/-- Discovery of the next snapshot finds no lease and archives the pending task; a
worker takes that task; discovery writes the next one over it; the worker completes
the task it took, up to the removal of the pending record. -/
def upToRemoval : List Event :=
  .start (.enqueue "frwiki" "2026-05" .small sampleSignals "controller-1")
    :: List.replicate 6 (.advance 0)
    ++ .start (.enqueue "frwiki" "2026-06" .small sampleSignals "controller-2")
    :: List.replicate 7 (.advance 1)
    ++ .start (.claim .small "toolforge-a" 3600 311) :: List.replicate 7 (.advance 2)
    ++ .advance 1
    :: .publishReady "/public/_ready-index/frwiki.json" (some {
      schemaVersion := some 2
      wiki := some "frwiki"
      newestValidReadySnapshot := some "2026-05" })
    :: .start (.complete sampleClaim "/public") :: List.replicate 5 (.advance 3)

theorem sampleStart_fleet_init : (fleet sampleHost).init sampleStart.state := ⟨rfl, rfl, rfl⟩

theorem pending_faithful_claimed : ∃ s t claim,
    (undisturbedFleet sampleHost).Reachable s ∧ step sampleHost s (.advance 1) = some t ∧
      grantedBy t (.advance 1) = some claim ∧ Faithful s (.advance 1) t := by
  have hruns : (upToMkdir.foldlM (fun s e => if UndisturbedStep s e then step sampleHost s e
      else none) sampleStart.state).any fun s => UndisturbedStep s (.advance 1) ∧
        (step sampleHost s (.advance 1)).any fun t => (grantedBy t (.advance 1)).isSome := by
    decide +kernel
  obtain ⟨s, hs, hprop⟩ := (Option.any_eq_true _ _).mp hruns
  obtain ⟨hstill, hnext⟩ := of_decide_eq_true hprop
  obtain ⟨t, ht, hgranted⟩ := (Option.any_eq_true _ _).mp hnext
  obtain ⟨claim, hclaim⟩ := Option.isSome_iff_exists.mp hgranted
  have hreach : (undisturbedFleet sampleHost).Reachable s := by
    refine ⟨_, _, sampleStart_fleet_init, System.run_of_foldlM (fun s e t h => ?_) hs⟩
    split at h
    next hstill => exact ⟨h, hstill⟩
    next => exact absurd h (by simp)
  exact ⟨s, t, claim, hreach, ht, hclaim, pending_faithful sampleHost s t _ hreach ht hstill⟩

/-- A worker that completes its task removes the record of another. -/
theorem pending_not_faithful : ∃ s e t, (fleet sampleHost).Reachable s ∧
    step sampleHost s e = some t ∧ ¬ Faithful s e t := by
  have hruns : (upToRemoval.foldlM (step sampleHost) sampleStart.state).any fun s =>
      (step sampleHost s (.advance 3)).any fun t =>
        (s.processes[3]?.any fun p => actsUnder p.op p.knowledge "frwiki" = some sampleClaim) ∧
          t.store.pending.lookup "frwiki" = none ∧
          (s.store.pending.lookup "frwiki").any fun task =>
            task.taskId ≠ sampleClaim.task.taskId := by decide +kernel
  obtain ⟨s, hs, hprop⟩ := (Option.any_eq_true _ _).mp hruns
  obtain ⟨t, ht, hprop⟩ := (Option.any_eq_true _ _).mp hprop
  obtain ⟨hacts, hgone, hother⟩ := of_decide_eq_true hprop
  obtain ⟨p, hp, hacts⟩ := (Option.any_eq_true _ _).mp hacts
  obtain ⟨task, htask, hother⟩ := (Option.any_eq_true _ _).mp hother
  refine ⟨s, .advance 3, t, ⟨_, _, sampleStart_fleet_init, System.run_of_foldlM
    (fun _ _ _ h => h) hs⟩, ht, fun h => ?_⟩
  obtain ⟨own, hown, hid⟩ := h.own 3 p "frwiki" sampleClaim rfl hp (of_decide_eq_true hacts) (by
    rw [hgone, htask]
    simp)
  rw [Option.some.inj (hown.symm.trans htask)] at hid
  exact of_decide_eq_true hother hid

end WikiEcon.Fleet
