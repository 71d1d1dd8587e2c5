import WikiEcon.Fleet.Discipline

/-!
# Processes of the fleet side by side

`fleet` is the system in which any number of operations are started at any time,
take turns call by call and may be killed between two calls, while the clock goes
on and ready indexes come and go. An operation on a claim is started for a claim some process was
handed.

What holds of every process of every run: it keeps the rules of its operation
(`Running.follows`), no reading of the clock is ahead of it, and a lease it saw
owned had a valid owner.
-/

namespace WikiEcon.Fleet

open Programs Transition

abbrev FleetProcess := Process Operation Knowledge Failure Call Call.Answer Outcome
abbrev FleetState := Shared Operation Knowledge Failure Call Call.Answer Outcome Queue

def machine (host : Host) : Machine Operation Knowledge Failure Call Call.Answer Outcome Queue where
  program := Operation.program host
  fresh := {}
  learn := Knowledge.learn
  perform := Queue.perform host

inductive Event
  | start (op : Operation)
  | advance (process : ℕ)
  | kill (process : ℕ)
  | tick (seconds : ℕ)
  | publishReady (path : String) (index : Option ReadyIndex)

/-- The call a process makes when it is its turn. -/
def nextCall (p : FleetProcess) : Option Call :=
  match p.rest with
  | .call c _ => some c
  | _ => none

/-- The claim in the receipt a process leaves its worker. -/
def handedOut (p : FleetProcess) : Option FleetClaim :=
  match p.rest with
  | .done (.claimed claim) => claim
  | .done (.beaten claim) => some claim
  | _ => none

/-- A worker's operation needs the receipt of its claim. -/
def mayStart (s : FleetState) (op : Operation) : Bool :=
  op.held.all fun held => s.processes.any fun p => handedOut p = some held

def step (host : Host) (s : FleetState) : Event → Option FleetState
  | .start op => if mayStart s op then some ((machine host).start s op) else none
  | .advance i => (machine host).advance s i
  | .kill i => Machine.kill s i (.other "killed")
  | .tick seconds => some { s with store := { s.store with clock := s.store.clock + seconds } }
  | .publishReady path index => some { s with store := { s.store with
      records := Function.update s.store.records (.readyIndex path) index } }

/-! ## What calls do to owners -/

/-- The `owner.json` of a wiki's lease. -/
def Queue.ownerOf (q : Queue) (wiki : String) : Option FleetClaim := (q.leases.lookup wiki).join

@[simp] theorem clock_perform (host : Host) (q : Queue) (c : Call) :
    (q.perform host c).2.clock = q.clock := by
  cases c <;> simp only [Queue.perform] <;> (try split) <;> (try split) <;> rfl

/-- A call leaves an owner alone, writes it, or takes its lease away. -/
theorem ownerOf_perform (host : Host) (q : Queue) (c : Call) (wiki : String) :
    (q.perform host c).2.ownerOf wiki = q.ownerOf wiki ∨
      (∃ claim, c = .writeOwner wiki claim ∧ (q.perform host c).2.ownerOf wiki = some claim) ∨
      ((c = .removeLease wiki ∨ ∃ now, c = .renameLease wiki now) ∧
        (q.perform host c).2.ownerOf wiki = none) := by
  cases c with
  | writeOwner w claim =>
    by_cases hw : wiki = w
    · subst hw
      refine Or.inr (Or.inl ⟨claim, rfl, ?_⟩)
      simp [Queue.perform, Queue.ownerOf]
    · left
      simp [Queue.perform, Queue.ownerOf, AList.lookup_insert_ne hw]
  | createLease w =>
    left
    simp only [Queue.perform]
    split
    next => rfl
    next hnone =>
      by_cases hw : wiki = w
      · subst hw
        have hlookup : q.leases.lookup wiki = none := Option.not_isSome_iff_eq_none.mp hnone
        simp [Queue.ownerOf, hlookup]
      · simp [Queue.ownerOf, AList.lookup_insert_ne hw]
  | removeLease w =>
    simp only [Queue.perform]
    split
    next =>
      by_cases hw : wiki = w
      · subst hw
        exact Or.inr (Or.inr ⟨Or.inl rfl, by simp [Queue.ownerOf]⟩)
      · left
        simp [Queue.ownerOf, AList.lookup_erase_ne hw]
    next => exact Or.inl rfl
  | renameLease w now =>
    simp only [Queue.perform]
    split
    next => exact Or.inl rfl
    next =>
      split
      next => exact Or.inl rfl
      next =>
        by_cases hw : wiki = w
        · subst hw
          exact Or.inr (Or.inr ⟨Or.inr ⟨now, rfl⟩, by simp [Queue.ownerOf]⟩)
        · left
          simp [Queue.ownerOf, AList.lookup_erase_ne hw]
  | removePending w =>
    left
    simp only [Queue.perform]
    split <;> rfl
  | _ => exact Or.inl rfl

/-- What is read of an owner is what is there. -/
theorem readOwner_eq_ok {host : Host} {q : Queue} {wiki : String} {claim : FleetClaim} :
    (q.perform host (.readOwner wiki)).1 = Except.ok claim ↔ q.ownerOf wiki = some claim :=
  context_eq_ok

/-! ## What processes keep -/

/-- The claim as it was granted. -/
def FleetClaim.lease (claim : FleetClaim) : FleetClaim :=
  { claim with heartbeatAtUnix := claim.claimedAtUnix }

/-- What an owner document is, at all times. -/
structure Owns (host : Host) (wiki : String) (claim : FleetClaim) : Prop where
  valid : (claim.validate host).isOk = true
  wiki : claim.task.wiki = wiki

/-- What holds of a process, whatever the others do. -/
structure Running (host : Host) (clock : ℕ) (p : FleetProcess) : Prop where
  follows : Follows host p.op (Ends p.op) p.knowledge p.rest
  now : ∀ now, p.knowledge.now = some now → now ≤ clock
  claimed : ∀ held, p.op.held = some held → held.claimedAtUnix ≤ clock ∧
    ∀ now, p.knowledge.now = some now → held.claimedAtUnix ≤ now
  sightings : ∀ wiki claim, p.knowledge.lease wiki = some (.owned claim) → Owns host wiki claim

theorem Running.mono {host : Host} {clock clock' : ℕ} {p : FleetProcess}
    (h : Running host clock p) (hclock : clock ≤ clock') : Running host clock' p where
  follows := h.follows
  now now hnow := le_trans (h.now now hnow) hclock
  claimed held hheld := ⟨le_trans (h.claimed held hheld).1 hclock, (h.claimed held hheld).2⟩
  sightings := h.sightings

/-- A claim in a receipt is from the past. -/
theorem Running.handedOut_le {host : Host} {clock : ℕ} {p : FleetProcess}
    (h : Running host clock p) {claim : FleetClaim} (hclaim : handedOut p = some claim) :
    claim.claimedAtUnix ≤ clock := by
  obtain ⟨op, k, rest⟩ := p
  have hfollows := h.follows
  unfold handedOut at hclaim
  dsimp only at hclaim hfollows
  split at hclaim
  next claimed =>
    obtain rfl := hclaim
    exact h.now _ hfollows.2.2
  next beaten =>
    obtain rfl := Option.some.inj hclaim
    obtain ⟨held, hheld, heq⟩ := hfollows
    rw [heq]
    exact (h.claimed held hheld).1
  next => exact absurd hclaim (by simp)

/-- A heartbeat does not make a claim invalid. -/
theorem valid_heartbeat {host : Host} {claim : FleetClaim} {now : ℕ}
    (h : (claim.validate host).isOk = true) (hnow : claim.claimedAtUnix ≤ now) :
    (FleetClaim.validate host { claim with heartbeatAtUnix := now }).isOk = true := by
  cases hvalid : claim.validate host with
  | error e =>
    rw [hvalid] at h
    exact absurd h Bool.false_ne_true
  | ok u =>
    obtain ⟨_, hschema, hvalid⟩ := bind_eq_ok.mp hvalid
    obtain ⟨_, htask, hvalid⟩ := bind_eq_ok.mp hvalid
    obtain ⟨_, hworker, hvalid⟩ := bind_eq_ok.mp hvalid
    obtain ⟨_, hlease, hvalid⟩ := bind_eq_ok.mp hvalid
    obtain ⟨_, htimeout, -⟩ := bind_eq_ok.mp hvalid
    have hbeat : ensure (now ≥ claim.claimedAtUnix) "fleet heartbeat predates claim" = .ok () :=
      ensure_eq_ok.mpr hnow
    rw [FleetClaim.validate]
    dsimp only
    rw [hschema, htask, hworker, hlease, htimeout, hbeat]
    rfl

/-- What a call adds to what the process has seen of leases. -/
theorem learn_owned {k : Knowledge} {c : Call} {answer : c.Answer} {wiki : String}
    {claim : FleetClaim} (h : (k.learn c answer).lease wiki = some (.owned claim)) :
    k.lease wiki = some (.owned claim) ∨
      Knowledge.ownerRead c answer = some (wiki, claim) ∨ c = .writeOwner wiki claim := by
  -- What is seen of a wiki replaces what was known of it, and of no other.
  have hupdate : ∀ {w : String} {sighting : Sighting},
      (k.see w sighting).lease wiki = some (.owned claim) →
      k.lease wiki = some (.owned claim) ∨ (wiki = w ∧ sighting = .owned claim) := by
    intro w sighting hsee
    by_cases hw : wiki = w
    · subst hw
      rw [Knowledge.see_self] at hsee
      exact Or.inr ⟨rfl, Option.some.inj hsee⟩
    · rw [Knowledge.see_of_ne hw] at hsee
      exact Or.inl hsee
  cases c with
  | isLeaseDir w =>
    cases answer with
    | true => exact Or.inl h
    | false => exact (hupdate h).imp_right fun hw => absurd hw.2 (by simp)
  | readOwner w =>
    cases answer with
    | error e => exact (hupdate h).imp_right fun hw => absurd hw.2 (by simp)
    | ok seen =>
      refine (hupdate h).imp_right fun hw => Or.inl ?_
      obtain ⟨rfl, hseen⟩ := hw
      rw [Sighting.owned.inj hseen]
      rfl
  | writeOwner w written =>
    cases answer with
    | error e => exact Or.inl h
    | ok u =>
      refine (hupdate h).imp_right fun hw => Or.inr ?_
      obtain ⟨rfl, hseen⟩ := hw
      rw [Sighting.owned.inj hseen]
  | createLease w =>
    cases answer with
    | true => exact (hupdate h).imp_right fun hw => absurd hw.2 (by simp)
    | false => exact Or.inl h
  | removeLease w =>
    cases answer with
    | error e => exact Or.inl h
    | ok u => exact (hupdate h).imp_right fun hw => absurd hw.2 (by simp)
  | renameLease w now =>
    cases answer with
    | error e => exact Or.inl h
    | ok u => exact (hupdate h).imp_right fun hw => absurd hw.2 (by simp)
  | isPending w => cases answer <;> exact Or.inl h
  | readPending w => cases answer <;> exact Or.inl h
  | writePending w task => cases answer <;> exact Or.inl h
  | removePending w => cases answer <;> exact Or.inl h
  | writeRecord record content => cases answer <;> exact Or.inl h
  | _ => exact Or.inl h

/-- The time a process goes by changes when it reads the clock. -/
theorem learn_now (k : Knowledge) (c : Call) (answer : c.Answer) :
    (k.learn c answer).now = k.now ∨
      ∃ h : c = .nowUnix, (k.learn c answer).now = some (h ▸ answer : Call.Answer .nowUnix) := by
  cases c with
  | nowUnix => exact Or.inr ⟨rfl, rfl⟩
  | isLeaseDir w => cases answer <;> exact Or.inl rfl
  | readOwner w => cases answer <;> exact Or.inl rfl
  | writeOwner w claim => cases answer <;> exact Or.inl rfl
  | createLease w => cases answer <;> exact Or.inl rfl
  | removeLease w => cases answer <;> exact Or.inl rfl
  | renameLease w now => cases answer <;> exact Or.inl rfl
  | isPending w => cases answer <;> exact Or.inl rfl
  | readPending w => cases answer <;> exact Or.inl rfl
  | writePending w task => cases answer <;> exact Or.inl rfl
  | removePending w => cases answer <;> exact Or.inl rfl
  | writeRecord record content => cases answer <;> exact Or.inl rfl
  | _ => exact Or.inl rfl

/-- The owners that are there are valid, and every process keeps its rules. -/
structure Sound (host : Host) (s : FleetState) : Prop where
  owners : ∀ wiki claim, s.store.ownerOf wiki = some claim → Owns host wiki claim
  running : ∀ p ∈ s.processes, Running host s.store.clock p

section Sound

variable {host : Host} {q : Queue} {op : Operation} {k : Knowledge} {c : Call}
  {rest : c.Answer → Steps Outcome}

/-- What an allowed call writes as an owner is valid. -/
theorem Running.writes (h : Running host q.clock ⟨op, k, .call c rest⟩) {wiki : String}
    {claim : FleetClaim} (hc : c = .writeOwner wiki claim) : Owns host wiki claim := by
  subst hc
  have hallowed := h.follows.1
  unfold Allowed at hallowed
  dsimp only at hallowed
  split at hallowed
  next held hheld =>
    obtain ⟨rfl, hvalid, now, hnow, rfl⟩ := hallowed
    exact ⟨valid_heartbeat hvalid ((h.claimed held hheld).2 now hnow), rfl⟩
  next => exact ⟨hallowed.valid, hallowed.wiki⟩

theorem Running.owners_perform (h : Running host q.clock ⟨op, k, .call c rest⟩)
    (howners : ∀ wiki claim, q.ownerOf wiki = some claim → Owns host wiki claim) :
    ∀ wiki claim, (q.perform host c).2.ownerOf wiki = some claim → Owns host wiki claim := by
  intro wiki claim howner
  rcases ownerOf_perform host q c wiki with hsame | ⟨written, hc, hnew⟩ | ⟨-, hnone⟩
  · exact howners wiki claim (hsame.symm.trans howner)
  · rw [hnew] at howner
    rw [← Option.some.inj howner]
    exact h.writes hc
  · rw [hnone] at howner
    exact absurd howner (by simp)

theorem ownerRead_eq_some {answer : c.Answer} {wiki : String} {claim : FleetClaim}
    (h : Knowledge.ownerRead c answer = some (wiki, claim)) :
    ∃ hc : c = .readOwner wiki, answer = hc ▸ Except.ok claim := by
  unfold Knowledge.ownerRead at h
  split at h
  next w seen =>
    obtain ⟨rfl, rfl⟩ := Prod.mk.inj (Option.some.inj h)
    exact ⟨rfl, rfl⟩
  next => exact absurd h (by simp)

theorem Running.perform (h : Running host q.clock ⟨op, k, .call c rest⟩)
    (howners : ∀ wiki claim, q.ownerOf wiki = some claim → Owns host wiki claim) :
    Running host q.clock
      ⟨op, k.learn c (q.perform host c).1, rest (q.perform host c).1⟩ where
  follows := h.follows.2 _
  now now hnow := by
    rcases learn_now k c (q.perform host c).1 with hsame | ⟨rfl, hclock⟩
    · exact h.now now (hsame.symm.trans hnow)
    · rw [hclock] at hnow
      exact le_of_eq (Option.some.inj hnow).symm
  claimed held hheld := by
    refine ⟨(h.claimed held hheld).1, fun now hnow => ?_⟩
    rcases learn_now k c (q.perform host c).1 with hsame | ⟨rfl, hclock⟩
    · exact (h.claimed held hheld).2 now (hsame.symm.trans hnow)
    · rw [hclock] at hnow
      rw [← Option.some.inj hnow]
      exact (h.claimed held hheld).1
  sightings wiki claim hsaw := by
    rcases learn_owned hsaw with hbefore | hread | hwrote
    · exact h.sightings wiki claim hbefore
    · obtain ⟨rfl, hanswer⟩ := ownerRead_eq_some hread
      exact howners wiki claim (readOwner_eq_ok.mp hanswer)
    · exact h.writes hwrote

theorem Sound.step {s t : FleetState} (h : Sound host s) {e : Event}
    (hstep : step host s e = some t) : Sound host t := by
  cases e with
  | start op =>
    have hstart : (if mayStart s op then some ((machine host).start s op) else none) = some t :=
      hstep
    split at hstart
    next hmay =>
      obtain rfl := Option.some.inj hstart
      refine ⟨h.owners, Machine.forall_start h.running ⟨Operation.follows host op, ?_, ?_, ?_⟩⟩
      · intro now hnow
        exact absurd (show none = some now from hnow) (by simp)
      · intro held hheld
        refine ⟨?_, fun now hnow => absurd (show none = some now from hnow) (by simp)⟩
        have hheld' : op.held = some held := hheld
        rw [mayStart, hheld', Option.all_some, List.any_eq_true] at hmay
        -- The claim was handed to a process of this run, at or before the present.
        obtain ⟨p, hp, hreceipt⟩ := hmay
        exact (h.running p hp).handedOut_le (of_decide_eq_true hreceipt)
      · intro wiki claim hsaw
        exact absurd (show none = some (Sighting.owned claim) from hsaw) (by simp)
    next => exact absurd hstart (by simp)
  | advance i =>
    obtain ⟨op, k, c, rest, hi, rfl⟩ := Machine.advance_eq_some.mp hstep
    have hrunning := h.running _ (List.mem_of_getElem? hi)
    refine ⟨hrunning.owners_perform h.owners, fun p hp => ?_⟩
    show Running host (s.store.perform host c).2.clock p
    rw [clock_perform]
    rcases List.mem_or_eq_of_mem_set hp with hp | rfl
    · exact h.running p hp
    · exact hrunning.perform h.owners
  | kill i =>
    obtain ⟨op, k, c, rest, hi, rfl⟩ := Machine.kill_eq_some.mp hstep
    have hrunning := h.running _ (List.mem_of_getElem? hi)
    refine ⟨h.owners, fun p hp => ?_⟩
    rcases List.mem_or_eq_of_mem_set hp with hp | rfl
    · exact h.running p hp
    · exact ⟨trivial, hrunning.now, hrunning.claimed, hrunning.sightings⟩
  | tick seconds =>
    obtain rfl := Option.some.inj hstep
    exact ⟨h.owners, fun p hp => (h.running p hp).mono (Nat.le_add_right ..)⟩
  | publishReady path index =>
    obtain rfl := Option.some.inj hstep
    exact ⟨h.owners, h.running⟩

end Sound

end WikiEcon.Fleet
