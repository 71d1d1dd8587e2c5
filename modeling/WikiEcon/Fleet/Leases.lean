import WikiEcon.Fleet.Interleaving

/-!
# Who holds a lease

A worker is live from the call that hands it a claim until it removes its lease
or lets a heartbeat time out. `Watch` follows the claims of live workers through a
run. A live claim should be alone on its wiki, its owner document should stay, and
its worker should never be told that the lease is another's (`Exclusive`).

A lease is made by a `mkdir`, which succeeds for one process only, so whoever is
between the `mkdir` and its `owner.json` is alone there (`Makers`), as long as the
directory is not taken away meanwhile. That, and nothing asked of `claim_at`
itself, makes the owner it writes the only one (`lease_exclusive`).

Every other operation looks at a lease first and changes it later. What is asked of
it is that its look is still good when it acts (`Current`): a worker acts while its
claim is live or the lease still its own, a recovery removes the lease it read, and
moves away as ownerless none that is being made. The code does not ask that: a
recovery that meets a lease between its `mkdir` and its `owner.json` moves it away
under its worker (`lease_not_exclusive`).
-/

namespace WikiEcon.Fleet

open Programs Transition

/-! ## Live claims -/

structure Watch where
  state : FleetState
  live : List FleetClaim := []

/-- The claim `claim_at` returned. -/
def granted (p : FleetProcess) : Option FleetClaim :=
  match p.rest with
  | .done (.claimed claim) => claim
  | _ => none

/-- The claim a step made a process return. -/
def grantedBy (t : FleetState) : Event → Option FleetClaim
  | .advance i => t.processes[i]? >>= granted
  | _ => none

/-- The heartbeat of the claim has timed out. -/
def late (q : Queue) (claim : FleetClaim) : Bool :=
  (q.ownerOf claim.task.wiki).any fun owner => owner.lease = claim ∧ isExpired owner q.clock

/-- The step is the worker's own removal of its lease. -/
def releases (s : FleetState) (claim : FleetClaim) : Event → Bool
  | .advance i =>
    match s.processes[i]? with
    | some ⟨op, _, .call (.removeLease wiki) _⟩ =>
      wiki = claim.task.wiki ∧ op.held.map FleetClaim.lease = some claim
    | _ => false
  | _ => false

def Watch.step (host : Host) (w : Watch) (e : Event) : Option Watch :=
  (Fleet.step host w.state e).map fun t => {
    state := t
    live := ((w.live.filter fun claim => ¬ releases w.state claim e)
      ++ (grantedBy t e).toList).filter fun claim => ¬ late t.store claim }

/-- What one step of a run must not do to the claims that are live before it. -/
structure Exclusive (w : Watch) (e : Event) (w' : Watch) : Prop where
  /-- Nobody but its worker removes or overwrites the owner. -/
  kept : ∀ claim ∈ w.live, releases w.state claim e = true ∨
    ∃ owner, w'.state.store.ownerOf claim.task.wiki = some owner ∧ owner.lease = claim
  /-- No other claim is handed out for the wiki. -/
  alone : ∀ claim ∈ w.live, ∀ other, grantedBy w'.state e = some other →
    other.task.wiki ≠ claim.task.wiki
  /-- The worker is not told that it does not own its lease. -/
  accepted : ∀ i held message p p', e = .advance i → w.state.processes[i]? = some p →
    w'.state.processes[i]? = some p' → p.op.held = some held →
    p'.rest = .fail (.notOwner message) → held.lease ∉ w.live

/-- The runs of the fleet, watched. The queue begins without leases. -/
def watched (host : Host) : System Watch Event where
  init w := w.state.processes = [] ∧ w.state.store.leases = ∅ ∧ w.live = []
  step w e w' := w.step host e = some w'

/-! ## Acting on what is still so -/

/-- The lease is the claim's. -/
def OwnedBy (q : Queue) (wiki : String) (claim : FleetClaim) : Prop :=
  (q.ownerOf wiki).map FleetClaim.lease = some claim.lease

/-- The process is between the `mkdir` of the lease and its `owner.json`. -/
def Making (p : FleetProcess) (wiki : String) : Prop :=
  nextCall p ≠ none ∧ p.knowledge.lease wiki = some .made

/-- The lease is still the claim's, or there is none. -/
def LeftTo (q : Queue) (wiki : String) (claim : FleetClaim) : Prop :=
  q.leases.lookup wiki = none ∨ OwnedBy q wiki claim

instance (q : Queue) (wiki : String) (claim : FleetClaim) : Decidable (OwnedBy q wiki claim) :=
  inferInstanceAs (Decidable (_ = _))

instance (p : FleetProcess) (wiki : String) : Decidable (Making p wiki) :=
  inferInstanceAs (Decidable (¬ _ = none ∧ _))

instance (q : Queue) (wiki : String) (claim : FleetClaim) : Decidable (LeftTo q wiki claim) :=
  inferInstanceAs (Decidable (_ ∨ _))

/-- What a call that changes a lease has looked at is still so. Whoever acts under a
claim, its own or an expired one it has read, finds it live or the lease left to it;
a lease without an owner is not moved away while somebody is about to write it. A
process that acts under no claim, as `claim_at` does, is asked nothing. -/
def Current (w : Watch) (p : FleetProcess) : Call → Prop
  | .writeOwner wiki _ | .removeLease wiki => ∀ claim ∈ actsUnder p.op p.knowledge wiki,
      claim.lease ∈ w.live ∨ LeftTo w.state.store wiki claim
  | .renameLease wiki _ => w.state.store.ownerOf wiki = none ∧
      ∀ p ∈ w.state.processes, ¬ Making p wiki
  | _ => True

instance (w : Watch) (p : FleetProcess) : (c : Call) → Decidable (Current w p c)
  | .writeOwner .. => inferInstanceAs (Decidable (∀ claim ∈ _, _ ∨ _))
  | .removeLease _ => inferInstanceAs (Decidable (∀ claim ∈ _, _ ∨ _))
  | .renameLease .. => inferInstanceAs (Decidable (_ = none ∧ ∀ p ∈ _, _))
  | .writePending .. | .removePending _ | .createLease _ | .writeRecord .. | .nowUnix | .readLeases
  | .isLeaseDir _ | .readOwner _ | .readPendingDir | .isPending _ | .readPending _ | .isRecord _
  | .readRecord _ => isTrue trivial

def CurrentStep (w : Watch) : Event → Prop
  | .advance i => ∀ p ∈ w.state.processes[i]?, ∀ c ∈ nextCall p, Current w p c
  | _ => True

instance (w : Watch) (e : Event) : Decidable (CurrentStep w e) :=
  match e with
  | .advance _ => inferInstanceAs (Decidable (∀ p ∈ _, ∀ c ∈ nextCall p, Current w p c))
  | .start _ | .kill _ | .tick _ | .publishReady .. => isTrue trivial

/-- The runs in which every process acts on what is still so. -/
def watchedCurrent (host : Host) : System Watch Event where
  init := (watched host).init
  step w e w' := w.step host e = some w' ∧ CurrentStep w e

/-! ## Who makes a lease is alone -/

/-- The wiki whose lease a call writes to, removes or moves. -/
def Call.changesLease : Call → Option String
  | .writeOwner wiki _ => some wiki
  | .removeLease wiki => some wiki
  | .renameLease wiki _ => some wiki
  | _ => none

theorem leases_perform (c : Call) (host : Host) (q : Queue) (wiki : String) :
    (q.perform host c).2.leases.lookup wiki = q.leases.lookup wiki ∨
      (∃ claim, c = .writeOwner wiki claim ∧
        (q.perform host c).2.leases.lookup wiki = some (some claim)) ∨
      (c = .createLease wiki ∧ q.leases.lookup wiki = none ∧
        (q.perform host c).2.leases.lookup wiki = some none) ∨
      ((c = .removeLease wiki ∨ ∃ now, c = .renameLease wiki now) ∧
        (q.perform host c).2.leases.lookup wiki = none) := by
  -- Only four calls touch a lease, each of them the lease of its own wiki.
  cases c with
  | writeOwner w claim =>
    by_cases hw : wiki = w
    · subst hw
      exact Or.inr (Or.inl ⟨claim, rfl, by simp [Queue.perform]⟩)
    · left
      simp [Queue.perform, AList.lookup_insert_ne hw]
  | createLease w =>
    simp only [Queue.perform]
    split
    next => exact Or.inl rfl
    next hnone =>
      by_cases hw : wiki = w
      · subst hw
        refine Or.inr (Or.inr (Or.inl ⟨rfl, Option.not_isSome_iff_eq_none.mp hnone, ?_⟩))
        simp
      · left
        simp [AList.lookup_insert_ne hw]
  | removeLease w =>
    simp only [Queue.perform]
    split
    next =>
      by_cases hw : wiki = w
      · subst hw
        exact Or.inr (Or.inr (Or.inr ⟨Or.inl rfl, by simp⟩))
      · left
        simp [AList.lookup_erase_ne hw]
    next => exact Or.inl rfl
  | renameLease w now =>
    simp only [Queue.perform]
    split
    next => exact Or.inl rfl
    next =>
      split
      next => exact Or.inl rfl
      next =>
        by_cases hw : wiki = w
        · subst hw
          exact Or.inr (Or.inr (Or.inr ⟨Or.inr ⟨now, rfl⟩, by simp⟩))
        · left
          simp [AList.lookup_erase_ne hw]
  | removePending w =>
    left
    simp only [Queue.perform]
    split <;> rfl
  | _ => exact Or.inl rfl

/-- Whoever goes on believing that it made a lease has just made it, or nothing
happened to the lease. -/
theorem learn_made {host : Host} {q : Queue} {k : Knowledge} {c : Call} {wiki : String}
    (h : (k.learn c (q.perform host c).1).lease wiki = some .made) :
    (c = .createLease wiki ∧ q.leases.lookup wiki = none ∧
        (q.perform host c).2.leases.lookup wiki = some none) ∨
      (k.lease wiki = some .made ∧
        (q.perform host c).2.leases.lookup wiki = q.leases.lookup wiki) := by
  -- Another sighting of a wiki overwrites what was known of that wiki only.
  have hsee : ∀ {w : String} {sighting : Sighting}, sighting ≠ .made →
      (k.see w sighting).lease wiki = some .made → wiki ≠ w ∧ k.lease wiki = some .made := by
    intro w sighting hne hsee
    by_cases hw : wiki = w
    · subst hw
      rw [Knowledge.see_self] at hsee
      exact absurd (Option.some.inj hsee) hne
    · rw [Knowledge.see_of_ne hw] at hsee
      exact ⟨hw, hsee⟩
  cases c with
  | isLeaseDir w =>
    simp only [Knowledge.learn, Queue.perform] at h
    cases hdir : (q.leases.lookup w).isSome with
    | true =>
      rw [hdir] at h
      exact Or.inr ⟨h, rfl⟩
    | false =>
      rw [hdir] at h
      exact Or.inr ⟨(hsee (by simp) h).2, rfl⟩
  | readOwner w =>
    simp only [Knowledge.learn, Queue.perform] at h
    cases hread : context (q.leases.lookup w).join noSuchFile with
    | ok claim =>
      rw [hread] at h
      exact Or.inr ⟨(hsee (by simp) h).2, rfl⟩
    | error e =>
      rw [hread] at h
      exact Or.inr ⟨(hsee (by simp) h).2, rfl⟩
  | writeOwner w claim =>
    obtain ⟨hw, hmade⟩ := hsee (by simp) h
    exact Or.inr ⟨hmade, by simp [Queue.perform, AList.lookup_insert_ne hw]⟩
  | createLease w =>
    simp only [Queue.perform] at h ⊢
    split at h
    next hthere =>
      rw [if_pos hthere]
      exact Or.inr ⟨h, rfl⟩
    -- The directory was made by this very call, or was known to be made before.
    next hnone =>
      rw [if_neg hnone]
      by_cases hw : wiki = w
      · subst hw
        exact Or.inl ⟨rfl, Option.not_isSome_iff_eq_none.mp hnone, by simp⟩
      · have hbefore : (k.see w .made).lease wiki = some .made := h
        rw [Knowledge.see_of_ne hw] at hbefore
        exact Or.inr ⟨hbefore, by simp [AList.lookup_insert_ne hw]⟩
  | removeLease w =>
    -- The lease that is removed is known as gone, so `wiki` is another one.
    simp only [Queue.perform] at h ⊢
    split at h
    next hthere =>
      obtain ⟨hw, hmade⟩ := hsee (by simp) h
      rw [if_pos hthere]
      exact Or.inr ⟨hmade, by simp [AList.lookup_erase_ne hw]⟩
    next hnone =>
      rw [if_neg hnone]
      exact Or.inr ⟨h, rfl⟩
  | renameLease w now =>
    -- The same for a lease that is moved away.
    simp only [Queue.perform] at h
    split at h
    next hnone =>
      refine Or.inr ⟨h, ?_⟩
      simp only [Queue.perform, hnone]
    next lease hthere =>
      split at h
      next hfull =>
        refine Or.inr ⟨h, ?_⟩
        simp only [Queue.perform, hthere]
        rw [if_pos hfull]
      next hfree =>
        obtain ⟨hw, hmade⟩ := hsee (by simp) h
        refine Or.inr ⟨hmade, ?_⟩
        simp only [Queue.perform, hthere]
        rw [if_neg hfree]
        exact AList.lookup_erase_ne hw
  | isPending w =>
    simp only [Knowledge.learn, Queue.perform] at h
    cases hfile : (q.pending.lookup w).isSome with
    | true =>
      rw [hfile] at h
      exact Or.inr ⟨h, rfl⟩
    | false =>
      rw [hfile] at h
      exact Or.inr ⟨h, rfl⟩
  | readPending w =>
    simp only [Knowledge.learn, Queue.perform] at h
    cases hread : context (q.pending.lookup w) noSuchFile with
    | ok task =>
      rw [hread] at h
      exact Or.inr ⟨h, rfl⟩
    | error e =>
      rw [hread] at h
      exact Or.inr ⟨h, rfl⟩
  | removePending w =>
    simp only [Queue.perform] at h ⊢
    split at h
    next hthere =>
      rw [if_pos hthere]
      exact Or.inr ⟨h, rfl⟩
    next hnone =>
      rw [if_neg hnone]
      exact Or.inr ⟨h, rfl⟩
  | _ => exact Or.inr ⟨h, rfl⟩

theorem Entitled.acts {op : Operation} {k : Knowledge} {claim : FleetClaim}
    (h : Entitled op k claim) : actsUnder op k claim.task.wiki = some claim := by
  unfold Entitled at h
  unfold actsUnder
  cases hheld : op.held with
  | some held =>
    rw [hheld] at h
    obtain rfl := h
    rfl
  | none =>
    rw [hheld] at h
    rw [h.1]

theorem OwnedBy.owner {q : Queue} {wiki : String} {claim : FleetClaim} (h : OwnedBy q wiki claim) :
    ∃ owner, q.ownerOf wiki = some owner ∧ owner.task = claim.task := by
  obtain ⟨owner, howner, hlease⟩ := Option.map_eq_some_iff.mp h
  have htask : owner.lease.task = claim.lease.task := by rw [hlease]
  exact ⟨owner, howner, htask⟩

theorem OwnedBy.leases {q : Queue} {wiki : String} {claim : FleetClaim} (h : OwnedBy q wiki claim) :
    ∃ owner, q.leases.lookup wiki = some (some owner) := by
  obtain ⟨owner, howner, -⟩ := h.owner
  unfold Queue.ownerOf at howner
  exact ⟨owner, Option.join_eq_some_iff.mp howner⟩

theorem Making.call {op : Operation} {k : Knowledge} {c : Call}
    {rest : c.Answer → Steps Outcome} {wiki : String} (h : k.lease wiki = some .made) :
    Making ⟨op, k, .call c rest⟩ wiki := ⟨by simp [nextCall], h⟩

/-- A lease that has an owner is not being made. -/
theorem OwnedBy.not_ownerless {q : Queue} {wiki : String} {claim : FleetClaim}
    (h : OwnedBy q wiki claim) : q.leases.lookup wiki ≠ some none := by
  obtain ⟨owner, howner⟩ := h.leases
  rw [howner]
  simp

theorem LeftTo.not_ownerless {q : Queue} {wiki : String} {claim : FleetClaim}
    (h : LeftTo q wiki claim) : q.leases.lookup wiki ≠ some none := by
  rcases h with hgone | howned
  · rw [hgone]
    simp
  · exact howned.not_ownerless

theorem LeftTo.lease_eq {q : Queue} {wiki : String} {claim owner : FleetClaim}
    (h : LeftTo q wiki claim) (howner : q.ownerOf wiki = some owner) :
    owner.lease = claim.lease := by
  rcases h with hgone | howned
  · unfold Queue.ownerOf at howner
    rw [hgone] at howner
    exact absurd howner (by simp)
  · unfold OwnedBy at howned
    rw [howner] at howned
    exact Option.some.inj howned

/-- The processes after one of them has moved on. -/
theorem getElem?_set_cases {ps : List FleetProcess} {i j : ℕ} {p p' : FleetProcess}
    (hi : i < ps.length) (hj : (ps.set i p')[j]? = some p) :
    (i = j ∧ p = p') ∨ (i ≠ j ∧ ps[j]? = some p) := by
  by_cases hij : i = j
  · subst hij
    rw [List.getElem?_set_self hi] at hj
    exact Or.inl ⟨rfl, (Option.some.inj hj).symm⟩
  · rw [List.getElem?_set_ne hij] at hj
    exact Or.inr ⟨hij, hj⟩

/-- A process that starts knows of no lease, and has made none. -/
theorem not_making_spawn (host : Host) (op : Operation) (wiki : String) :
    ¬ Making ((machine host).spawn op) wiki := by
  rintro ⟨-, hmade⟩
  exact absurd (show none = some Sighting.made from hmade) (by simp)

/-- Who is between the `mkdir` of a lease and its `owner.json` finds the lease there
and without an owner, and nobody else is. -/
structure Makers (s : FleetState) : Prop where
  making : ∀ p ∈ s.processes, ∀ wiki, Making p wiki → s.store.leases.lookup wiki = some none
  alone : ∀ (i j : ℕ) p p' wiki, s.processes[i]? = some p → s.processes[j]? = some p' →
    Making p wiki → Making p' wiki → i = j

section Makers

variable {host : Host} {s : FleetState} {i : ℕ} {op : Operation} {k : Knowledge} {c : Call}
  {rest : c.Answer → Steps Outcome}

/-- **A lease that is being made is made by one process**: the `mkdir` of a second one
fails, and no call takes the directory away from the first. -/
theorem Makers.perform (host : Host) (h : Makers s)
    (hi : s.processes[i]? = some ⟨op, k, .call c rest⟩)
    (hspares : ∀ wiki, c.changesLease = some wiki → ∀ j p, i ≠ j → s.processes[j]? = some p →
      ¬ Making p wiki) :
    Makers {
      store := (s.store.perform host c).2
      processes := s.processes.set i
        ⟨op, k.learn c (s.store.perform host c).1, rest (s.store.perform host c).1⟩ } := by
  have hilt := (List.getElem?_eq_some_iff.mp hi).1
  refine ⟨fun p hp wiki hmaking => ?_, fun j j' p p' wiki hj hj' hmaking hmaking' => ?_⟩
  · obtain ⟨j, hj⟩ := List.mem_iff_getElem?.mp hp
    rcases getElem?_set_cases hilt hj with ⟨-, rfl⟩ | ⟨hij, hother⟩
    · rcases learn_made hmaking.2 with ⟨-, -, hnew⟩ | ⟨hbefore, hsame⟩
      · exact hnew
      · exact hsame.trans (h.making _ (List.mem_of_getElem? hi) wiki (Making.call hbefore))
    · have hlease := h.making p (List.mem_of_getElem? hother) wiki hmaking
      rcases leases_perform c host s.store wiki with hsame | ⟨claim, rfl, -⟩ | ⟨rfl, hfree, -⟩ |
        ⟨rfl | ⟨now, rfl⟩, -⟩
      · exact hsame.trans hlease
      · exact absurd hmaking (hspares wiki rfl j p hij hother)
      · -- a second `mkdir` would have found no lease
        rw [hfree] at hlease
        exact absurd hlease (by simp)
      · exact absurd hmaking (hspares wiki rfl j p hij hother)
      · exact absurd hmaking (hspares wiki rfl j p hij hother)
  · -- a process that has just made a lease found none there
    have hfresh : ∀ j p, i ≠ j → s.processes[j]? = some p → Making p wiki →
        (k.learn c (s.store.perform host c).1).lease wiki = some .made → False := by
      intro j p hij hj hmaking hmade
      rcases learn_made hmade with ⟨-, hfree, -⟩ | ⟨hbefore, -⟩
      · have hlease := h.making p (List.mem_of_getElem? hj) wiki hmaking
        rw [hfree] at hlease
        exact absurd hlease (by simp)
      · exact hij (h.alone i j _ p wiki hi hj (Making.call hbefore) hmaking)
    rcases getElem?_set_cases hilt hj with ⟨rfl, rfl⟩ | ⟨hij, hj⟩
    · rcases getElem?_set_cases hilt hj' with ⟨rfl, -⟩ | ⟨hij', hj'⟩
      · rfl
      · exact absurd hmaking.2 (hfresh j' p' hij' hj' hmaking')
    · rcases getElem?_set_cases hilt hj' with ⟨rfl, rfl⟩ | ⟨hij', hj'⟩
      · exact absurd hmaking'.2 (hfresh j p hij hj hmaking)
      · exact h.alone j j' p p' wiki hj hj' hmaking hmaking'

/-- A step that is no call makes nobody a maker. -/
theorem Makers.idle {t : FleetState} {e : Event} (h : Makers s) (hstep : step host s e = some t)
    (he : ∀ i, e ≠ .advance i) : Makers t := by
  cases e with
  | advance i => exact absurd rfl (he i)
  | start op =>
    have hstart : (if mayStart s op then some ((machine host).start s op) else none) = some t :=
      hstep
    split at hstart
    next =>
      obtain rfl := Option.some.inj hstart
      -- A process that has just started has made nothing yet.
      have hfresh : ∀ (j : ℕ) (p : FleetProcess) (wiki : String),
          (s.processes ++ [(machine host).spawn op])[j]? = some p → Making p wiki →
          s.processes[j]? = some p := by
        intro j p wiki hj hmaking
        rw [List.getElem?_append] at hj
        split at hj
        next => exact hj
        next =>
          rw [List.mem_singleton.mp (List.mem_of_getElem? hj)] at hmaking
          exact absurd hmaking (not_making_spawn host op wiki)
      refine ⟨Machine.forall_start h.making fun wiki hmaking =>
        absurd hmaking (not_making_spawn host op wiki),
        fun j j' p p' wiki hj hj' hmaking hmaking' => ?_⟩
      exact h.alone j j' p p' wiki (hfresh j p wiki hj hmaking) (hfresh j' p' wiki hj' hmaking')
        hmaking hmaking'
    next => exact absurd hstart (by simp)
  | kill i =>
    obtain ⟨op, k, c, rest, hi, rfl⟩ := Machine.kill_eq_some.mp hstep
    -- The killed process makes no lease any more; the others are the same.
    have hother : ∀ (j : ℕ) (p : FleetProcess) (wiki : String),
        (s.processes.set i ⟨op, k, .fail (.other "killed")⟩)[j]? = some p → Making p wiki →
        s.processes[j]? = some p := by
      intro j p wiki hj hmaking
      rcases getElem?_set_cases (List.getElem?_eq_some_iff.mp hi).1 hj with ⟨-, rfl⟩ | ⟨-, hj⟩
      · exact absurd rfl hmaking.1
      · exact hj
    refine ⟨fun p hp wiki hmaking => ?_, fun j j' p p' wiki hj hj' hmaking hmaking' => ?_⟩
    · obtain ⟨j, hj⟩ := List.mem_iff_getElem?.mp hp
      exact h.making p (List.mem_of_getElem? (hother j p wiki hj hmaking)) wiki hmaking
    · exact h.alone j j' p p' wiki (hother j p wiki hj hmaking) (hother j' p' wiki hj' hmaking')
        hmaking hmaking'
  | tick seconds =>
    obtain rfl := Option.some.inj hstep
    exact ⟨h.making, h.alone⟩
  | publishReady path index =>
    obtain rfl := Option.some.inj hstep
    exact ⟨h.making, h.alone⟩

end Makers

/-! ## Live claims keep their owner -/

theorem isExpired_eq_false {claim : FleetClaim} {now : ℕ} :
    isExpired claim now = false ↔ now - claim.heartbeatAtUnix ≤ claim.leaseTimeoutSecs := by
  simp [isExpired]

theorem isExpired_mono {claim : FleetClaim} {now now' : ℕ} (hnow : now ≤ now')
    (h : isExpired claim now' = false) : isExpired claim now = false := by
  rw [isExpired_eq_false] at *
  omega

theorem lease_eq_self {claim : FleetClaim} (h : claim.heartbeatAtUnix = claim.claimedAtUnix) :
    claim.lease = claim := by
  cases claim
  dsimp only at h
  subst h
  rfl

/-- A claim does not expire before it was to expire when it was granted. -/
theorem isExpired_of_lease {host : Host} {wiki : String} {claim claim' : FleetClaim} {now : ℕ}
    (howns : Owns host wiki claim) (hlease : claim.lease = claim'.lease)
    (hnew : claim'.heartbeatAtUnix = claim'.claimedAtUnix) (h : isExpired claim' now = false) :
    isExpired claim now = false := by
  have htimeout : claim.lease.leaseTimeoutSecs = claim'.lease.leaseTimeoutSecs := by rw [hlease]
  have hclaimed : claim.lease.claimedAtUnix = claim'.lease.claimedAtUnix := by rw [hlease]
  simp only [FleetClaim.lease] at htimeout hclaimed
  have hbeat : claim.heartbeatAtUnix ≥ claim.claimedAtUnix := by
    have hvalid := howns.valid
    cases hok : claim.validate host with
    | error e =>
      rw [hok] at hvalid
      exact absurd hvalid Bool.false_ne_true
    | ok u =>
      obtain ⟨_, -, hok⟩ := bind_eq_ok.mp hok
      obtain ⟨_, -, hok⟩ := bind_eq_ok.mp hok
      obtain ⟨_, -, hok⟩ := bind_eq_ok.mp hok
      obtain ⟨_, -, hok⟩ := bind_eq_ok.mp hok
      obtain ⟨_, -, hok⟩ := bind_eq_ok.mp hok
      exact ensure_eq_ok.mp hok
  rw [isExpired_eq_false] at *
  omega

/-- What holds of the live claims of a run. -/
structure Holding (host : Host) (w : Watch) : Prop where
  sound : Sound host w.state
  makers : Makers w.state
  owner : ∀ claim ∈ w.live, ∃ owner, w.state.store.ownerOf claim.task.wiki = some owner ∧
    owner.lease = claim ∧ isExpired owner w.state.store.clock = false
  /-- Nobody saw a live claim expired. -/
  unexpired : ∀ p ∈ w.state.processes, p.op.held = none → ∀ wiki owner now,
    p.knowledge.lease wiki = some (.owned owner) → owner.lease ∈ w.live →
      p.knowledge.now = some now → isExpired owner now = false

section Step

variable {host : Host} {q : Queue} {op : Operation} {k : Knowledge} {c : Call}
  {rest : c.Answer → Steps Outcome}

/-- A claim a step hands out is in its lease, as it was granted. -/
theorem granted_spec (h : Running host q.clock ⟨op, k, .call c rest⟩) {claim : FleetClaim}
    (hgranted : granted ⟨op, k.learn c (q.perform host c).1, rest (q.perform host c).1⟩
      = some claim) :
    c = .writeOwner claim.task.wiki claim ∧ op.held = none ∧
      (q.perform host c).2.ownerOf claim.task.wiki = some claim ∧ claim.lease = claim ∧
      k.lease claim.task.wiki = some .made := by
  have hends := h.follows.2 (q.perform host c).1
  unfold granted at hgranted
  dsimp only at hgranted hends
  split at hgranted
  next hrest =>
    obtain rfl := hgranted
    rw [hrest] at hends
    obtain ⟨hheld, hwrote, -⟩ := hends
    have hc : c = .writeOwner claim.task.wiki claim := by
      change Knowledge.ownerWritten c _ = _ at hwrote
      unfold Knowledge.ownerWritten at hwrote
      split at hwrote
      next wiki written _ =>
        obtain ⟨rfl, rfl⟩ := Prod.mk.inj (Option.some.inj hwrote)
        rfl
      next => exact absurd hwrote (by simp)
    have hnew : IsNew host k claim.task.wiki claim := by
      have hallowed : Allowed host op k c := h.follows.1
      rw [hc] at hallowed
      unfold Allowed at hallowed
      dsimp only at hallowed
      rw [hheld] at hallowed
      exact hallowed
    refine ⟨hc, hheld, ?_, lease_eq_self hnew.heartbeat, hnew.made⟩
    rw [hc]
    simp [Queue.perform, Queue.ownerOf]
  next => exact absurd hgranted (by simp)

end Step

theorem late_eq_false {q : Queue} {claim owner : FleetClaim}
    (howner : q.ownerOf claim.task.wiki = some owner) (hlease : owner.lease = claim)
    (h : late q claim = false) : isExpired owner q.clock = false := by
  unfold late at h
  rw [howner, Option.any_some] at h
  cases hexpired : isExpired owner q.clock with
  | false => rfl
  | true => exact absurd h (by simp [hlease, hexpired])

/-- The claims that are live after a step. -/
theorem mem_live {host : Host} {w w' : Watch} {e : Event} (hstep : w.step host e = some w')
    {claim : FleetClaim} (h : claim ∈ w'.live) :
    late w'.state.store claim = false ∧
      ((claim ∈ w.live ∧ releases w.state claim e = false) ∨
        grantedBy w'.state e = some claim) := by
  obtain ⟨t, -, rfl⟩ := Option.map_eq_some_iff.mp hstep
  obtain ⟨hmem, hlate⟩ := List.mem_filter.mp h
  refine ⟨by simpa using hlate, ?_⟩
  rcases List.mem_append.mp hmem with hmem | hmem
  · obtain ⟨hlive, hrelease⟩ := List.mem_filter.mp hmem
    exact Or.inl ⟨hlive, by simpa using hrelease⟩
  · exact Or.inr (Option.mem_toList.mp hmem)

section Run

variable {host : Host} {w w' : Watch}

theorem CurrentStep.call {i : ℕ} {op : Operation} {k : Knowledge} {c : Call}
    {rest : c.Answer → Steps Outcome} (h : CurrentStep w (.advance i))
    (hi : w.state.processes[i]? = some ⟨op, k, .call c rest⟩) :
    Current w ⟨op, k, .call c rest⟩ c :=
  h _ (Option.mem_def.mpr hi) c rfl

/-- A live claim has its lease. -/
theorem Holding.leftTo (h : Holding host w) {wiki : String} {claim : FleetClaim}
    (hwiki : claim.task.wiki = wiki)
    (hcurrent : claim.lease ∈ w.live ∨ LeftTo w.state.store wiki claim) :
    LeftTo w.state.store wiki claim := by
  rcases hcurrent with hlive | hleft
  · obtain ⟨owner, howner, hlease, -⟩ := h.owner _ hlive
    have howner' : w.state.store.ownerOf wiki = some owner := by rw [← hwiki]; exact howner
    exact Or.inr (Option.map_eq_some_iff.mpr ⟨owner, howner', hlease⟩)
  · exact hleft

section Call

variable {i : ℕ} {op : Operation} {k : Knowledge} {c : Call} {rest : c.Answer → Steps Outcome}
  (h : Holding host w) (hi : w.state.processes[i]? = some ⟨op, k, .call c rest⟩)
  (hcurrent : Current w ⟨op, k, .call c rest⟩ c)

include h hi hcurrent

/-- How an owner comes to be written: by a worker the lease is left to, or by its maker. -/
theorem Holding.writeOwner_cases {wiki : String} {written : FleetClaim}
    (hc : c = .writeOwner wiki written) :
    (∃ held, op.held = some held ∧ held.task.wiki = wiki ∧ written.lease = held.lease ∧
        LeftTo w.state.store wiki held) ∨ k.lease wiki = some .made := by
  subst hc
  have hallowed := (h.sound.running _ (List.mem_of_getElem? hi)).follows.1
  unfold Allowed at hallowed
  dsimp only at hallowed
  cases hheld : op.held with
  | some held =>
    rw [hheld] at hallowed
    obtain ⟨rfl, -, now, -, rfl⟩ := hallowed
    have hacts : actsUnder op k held.task.wiki = some held := by
      unfold actsUnder
      rw [hheld]
    exact Or.inl ⟨held, rfl, rfl, rfl,
      h.leftTo rfl (hcurrent held (Option.mem_def.mpr hacts))⟩
  | none =>
    rw [hheld] at hallowed
    exact Or.inr hallowed.made

/-- How a lease comes to be removed: by whoever may end the claim it is left to, or by
its maker. -/
theorem Holding.removeLease_cases {wiki : String} (hc : c = .removeLease wiki) :
    (∃ claim, Entitled op k claim ∧ claim.task.wiki = wiki ∧ LeftTo w.state.store wiki claim) ∨
      k.lease wiki = some .made := by
  subst hc
  rcases (h.sound.running _ (List.mem_of_getElem? hi)).follows.1 with
    ⟨claim, hentitled, hclaim, -⟩ | ⟨-, hmade⟩
  · have hacts := hentitled.acts
    rw [hclaim] at hacts
    exact Or.inl ⟨claim, hentitled, hclaim,
      h.leftTo hclaim (hcurrent claim (Option.mem_def.mpr hacts))⟩
  · exact Or.inr hmade

/-- No call takes from a lease that another process is making. -/
theorem Holding.spares {wiki : String} (hc : c.changesLease = some wiki) {j : ℕ}
    {p : FleetProcess} (hij : i ≠ j) (hj : w.state.processes[j]? = some p) : ¬ Making p wiki := by
  intro hmaking
  have hlease := h.makers.making p (List.mem_of_getElem? hj) wiki hmaking
  have hnotmade : k.lease wiki ≠ some .made := fun hmade =>
    hij (h.makers.alone i j _ p wiki hi hj (Making.call hmade) hmaking)
  cases c with
  | writeOwner name written =>
    obtain rfl := Option.some.inj hc
    rcases h.writeOwner_cases hi hcurrent rfl with ⟨held, -, -, -, hleft⟩ | hmade
    · exact hleft.not_ownerless hlease
    · exact hnotmade hmade
  | removeLease name =>
    obtain rfl := Option.some.inj hc
    rcases h.removeLease_cases hi hcurrent rfl with ⟨claim, -, -, hleft⟩ | hmade
    · exact hleft.not_ownerless hlease
    · exact hnotmade hmade
  | renameLease name now =>
    obtain rfl := Option.some.inj hc
    exact hcurrent.2 p (List.mem_of_getElem? hj) hmaking
  | _ => exact absurd hc (by simp [Call.changesLease])

/-- **A current call leaves a live claim its owner**, unless it is the worker's own
removal. -/
theorem Holding.keeps_owner {claim : FleetClaim} (hlive : claim ∈ w.live) :
    (c = .removeLease claim.task.wiki ∧ op.held.map FleetClaim.lease = some claim) ∨
      ∃ owner, (w.state.store.perform host c).2.ownerOf claim.task.wiki = some owner ∧
        owner.lease = claim := by
  obtain ⟨owner, howner, hlease, -⟩ := h.owner claim hlive
  -- a lease that has an owner is not being made
  have hnotmade : k.lease claim.task.wiki ≠ some .made := fun hmade => by
    have hmaking := h.makers.making _ (List.mem_of_getElem? hi) _ (Making.call hmade)
    unfold Queue.ownerOf at howner
    rw [hmaking] at howner
    exact absurd howner (by simp)
  rcases ownerOf_perform host w.state.store c claim.task.wiki with hsame | ⟨written, hc, hnew⟩ |
    ⟨hc | ⟨now, rfl⟩, -⟩
  · exact Or.inr ⟨owner, hsame.trans howner, hlease⟩
  · rcases h.writeOwner_cases hi hcurrent hc with ⟨held, -, -, hwritten, hleft⟩ | hmade
    · exact Or.inr ⟨written, hnew, by rw [hwritten, ← hleft.lease_eq howner, hlease]⟩
    · exact absurd hmade hnotmade
  · rcases h.removeLease_cases hi hcurrent hc with ⟨ending, hentitled, hwiki, hleft⟩ | hmade
    · have hsame : ending.lease = claim := by rw [← hleft.lease_eq howner, hlease]
      unfold Entitled at hentitled
      cases hheld : op.held with
      | some held =>
        rw [hheld] at hentitled
        subst hentitled
        exact Or.inl ⟨hc, by rw [Option.map_some, hsame]⟩
      | none =>
        -- a recovery has seen the claim expired
        rw [hheld] at hentitled
        obtain ⟨hsaw, now, hnow, hexpired⟩ := hentitled
        have hnot := h.unexpired _ (List.mem_of_getElem? hi) hheld _ ending now hsaw
          (by rw [hsame]; exact hlive) hnow
        rw [hnot] at hexpired
        exact absurd hexpired Bool.false_ne_true
    · exact absurd hmade hnotmade
  · have hnone := hcurrent.1
    rw [howner] at hnone
    exact absurd hnone (by simp)

end Call

/-- Where the step is no call, what was live and is not late stays live. -/
theorem Holding.idle (h : Holding host w) {e : Event} (hstep : w.step host e = some w')
    (hleases : w'.state.store.leases = w.state.store.leases)
    (hgranted : grantedBy w'.state e = none) (hsound : Sound host w'.state)
    (hmakers : Makers w'.state)
    (hprocesses : ∀ p ∈ w'.state.processes, (∃ p' ∈ w.state.processes, p.op = p'.op ∧
      p.knowledge = p'.knowledge) ∨ p.knowledge.lease = fun _ => none) : Holding host w' where
  sound := hsound
  makers := hmakers
  owner claim hclaim := by
    obtain ⟨hlate, ⟨hlive, -⟩ | hnew⟩ := mem_live hstep hclaim
    · obtain ⟨owner, howner, hlease, -⟩ := h.owner claim hlive
      have howner' : w'.state.store.ownerOf claim.task.wiki = some owner := by
        unfold Queue.ownerOf at *
        rw [hleases]
        exact howner
      exact ⟨owner, howner', hlease, late_eq_false howner' hlease hlate⟩
    · rw [hgranted] at hnew
      exact absurd hnew (by simp)
  unexpired p hp hheld wiki owner now hsaw hlive hnow := by
    obtain ⟨-, ⟨hlive, -⟩ | hnew⟩ := mem_live hstep hlive
    · rcases hprocesses p hp with ⟨p', hp', hop, hknowledge⟩ | hfresh
      · rw [hop] at hheld
        rw [hknowledge] at hsaw hnow
        exact h.unexpired p' hp' hheld wiki owner now hsaw hlive hnow
      · rw [hfresh] at hsaw
        exact absurd hsaw (by simp)
    · rw [hgranted] at hnew
      exact absurd hnew (by simp)

theorem Holding.advance (h : Holding host w) {i : ℕ} (hstep : w.step host (.advance i) = some w')
    (hcurrent : CurrentStep w (.advance i)) : Holding host w' := by
  obtain ⟨t, ht, hw'⟩ := Option.map_eq_some_iff.mp hstep
  have hsound := h.sound.step ht
  obtain ⟨op, k, c, rest, hi, rfl⟩ := Machine.advance_eq_some.mp ht
  obtain ⟨hilt, hget⟩ := List.getElem?_eq_some_iff.mp hi
  have hp : _ ∈ w.state.processes := List.mem_of_getElem? hi
  have hrunning := h.sound.running _ hp
  have hlives : ∀ claim ∈ w'.live, late (w.state.store.perform host c).2 claim = false ∧
      ((claim ∈ w.live ∧ releases w.state claim (.advance i) = false) ∨
        granted ⟨op, k.learn c (w.state.store.perform host c).1,
          rest (w.state.store.perform host c).1⟩ = some claim) := by
    intro claim hclaim
    have hmem := mem_live hstep hclaim
    rw [← hw'] at hmem
    have hset : (w.state.processes.set i ⟨op, k.learn c (w.state.store.perform host c).1,
        rest (w.state.store.perform host c).1⟩)[i]? = some ⟨op, k.learn c
          (w.state.store.perform host c).1, rest (w.state.store.perform host c).1⟩ :=
      List.getElem?_set_self hilt
    unfold grantedBy at hmem
    change _ ∧ (_ ∨ (List.set _ _ _)[i]? >>= granted = _) at hmem
    simp only [machine, hset] at hmem
    exact hmem
  have howner : ∀ claim ∈ w'.live, ∃ owner,
      (w.state.store.perform host c).2.ownerOf claim.task.wiki = some owner ∧
        owner.lease = claim := by
    intro claim hclaim
    obtain ⟨-, ⟨hlive, hreleases⟩ | hnew⟩ := hlives claim hclaim
    · obtain ⟨owner, howner, hlease, -⟩ := h.owner claim hlive
      rcases h.keeps_owner hi (hcurrent.call hi) hlive with ⟨hc, hheld⟩ | hkept
      · subst hc
        simp only [releases, hi] at hreleases
        exact absurd hreleases (by simp [hheld])
      · exact hkept
    · obtain ⟨-, -, howner, hlease, -⟩ := granted_spec hrunning hnew
      exact ⟨claim, howner, hlease⟩
  have hunexpired : ∀ claim ∈ w'.live, ∀ owner,
      (w.state.store.perform host c).2.ownerOf claim.task.wiki = some owner →
        owner.lease = claim → isExpired owner w.state.store.clock = false := by
    intro claim hclaim owner howner' hlease
    have hnot := late_eq_false howner' hlease (hlives claim hclaim).1
    rwa [clock_perform] at hnot
  -- a sighting of a claim granted just now is no later than the grant
  have hnew : ∀ p : FleetProcess, Running host w.state.store.clock p → ∀ wiki owner now,
      p.knowledge.lease wiki = some (.owned owner) → owner.lease ∈ w'.live →
      granted ⟨op, k.learn c (w.state.store.perform host c).1,
        rest (w.state.store.perform host c).1⟩ = some owner.lease →
      p.knowledge.now = some now → isExpired owner now = false := by
    intro p hrun wiki owner now hsaw hlive hgranted hnow
    obtain ⟨-, -, howner', hlease, -⟩ := granted_spec hrunning hgranted
    have hclock := hunexpired owner.lease hlive owner.lease howner' hlease
    refine isExpired_mono (hrun.now now hnow) ?_
    exact isExpired_of_lease (hrun.sightings wiki owner hsaw) hlease.symm rfl hclock
  have hmakers := h.makers.perform host hi fun wiki hwiki j p hij hj =>
    h.spares hi (hcurrent.call hi) hwiki hij hj
  rw [← hw']
  refine ⟨hsound, hmakers, fun claim hclaim => ?_,
    fun p hp' hheld wiki owner now hsaw hlive hnow => ?_⟩
  · rw [hw'] at hclaim
    obtain ⟨owner, howner', hlease⟩ := howner claim hclaim
    refine ⟨owner, howner', hlease, ?_⟩
    show isExpired owner (w.state.store.perform host c).2.clock = false
    rw [clock_perform]
    exact hunexpired claim hclaim owner howner' hlease
  · rw [hw'] at hlive
    rcases List.mem_or_eq_of_mem_set hp' with hp' | rfl
    · obtain ⟨-, ⟨hlive', -⟩ | hgranted⟩ := hlives _ hlive
      · exact h.unexpired p hp' hheld wiki owner now hsaw hlive' hnow
      · exact hnew p (h.sound.running p hp') wiki owner now hsaw hlive hgranted hnow
    · have hrun := hrunning.perform h.sound.owners
      obtain ⟨-, ⟨hlive', -⟩ | hgranted⟩ := hlives _ hlive
      · rcases learn_owned hsaw with hbefore | hread | hwrote
        · rcases learn_now k c (w.state.store.perform host c).1 with hsame | ⟨rfl, -⟩
          · exact h.unexpired _ hp hheld wiki owner now hbefore hlive' (hsame.symm.trans hnow)
          · have hnone := hrunning.follows.1 hheld wiki
            exact absurd (hnone.symm.trans hbefore) (by simp)
        · obtain ⟨rfl, hanswer⟩ := ownerRead_eq_some hread
          have hanswer' : (w.state.store.perform host (.readOwner wiki)).1 = Except.ok owner :=
            hanswer
          have hthere := readOwner_eq_ok.mp hanswer'
          obtain ⟨owner', howner', -, hnot⟩ := h.owner _ hlive'
          have hwiki : owner.lease.task.wiki = wiki := (h.sound.owners _ _ hthere).wiki
          rw [hwiki, hthere] at howner'
          rw [Option.some.inj howner']
          exact isExpired_mono (hrun.now now hnow) hnot
        · subst hwrote
          have hallowed : Allowed host op k (.writeOwner wiki owner) := hrunning.follows.1
          unfold Allowed at hallowed
          dsimp only at hallowed hheld
          rw [hheld] at hallowed
          rcases learn_now k (.writeOwner wiki owner)
              (w.state.store.perform host (.writeOwner wiki owner)).1 with hsame | ⟨hc, -⟩
          · have hclaimed := hallowed.now.symm.trans (hsame.symm.trans hnow)
            rw [isExpired_eq_false, hallowed.heartbeat, Option.some.inj hclaimed]
            omega
          · exact absurd hc (by simp)
      · exact hnew _ hrun wiki owner now hsaw hlive hgranted hnow

theorem Holding.step (h : Holding host w) {e : Event} (hstep : w.step host e = some w')
    (hcurrent : CurrentStep w e) : Holding host w' := by
  -- Only a step of a process may touch a lease; the others keep the store.
  cases e with
  | advance i => exact h.advance hstep hcurrent
  | start op =>
    obtain ⟨t, ht, hw'⟩ := Option.map_eq_some_iff.mp hstep
    have hsound := h.sound.step ht
    have hstart : (if mayStart w.state op then some ((machine host).start w.state op) else none)
        = some t := ht
    split at hstart
    next =>
      obtain rfl := Option.some.inj hstart
      have hstate : w'.state = (machine host).start w.state op := by rw [← hw']
      rw [← hstate] at hsound
      have hmakers := h.makers.idle ht (by simp)
      rw [← hstate] at hmakers
      refine h.idle hstep (by rw [hstate]; rfl) rfl hsound hmakers fun p hp => ?_
      rw [hstate] at hp
      rcases List.mem_append.mp hp with hp | hp
      · exact Or.inl ⟨p, hp, rfl, rfl⟩
      · rw [List.mem_singleton.mp hp]
        exact Or.inr rfl
    next => exact absurd hstart (by simp)
  | kill i =>
    obtain ⟨t, ht, hw'⟩ := Option.map_eq_some_iff.mp hstep
    have hsound := h.sound.step ht
    obtain ⟨op, k, c, rest, hi, rfl⟩ := Machine.kill_eq_some.mp ht
    obtain rfl := hw'
    refine h.idle hstep rfl rfl hsound (h.makers.idle ht (by simp)) fun p hp => Or.inl ?_
    rcases List.mem_or_eq_of_mem_set hp with hp | rfl
    · exact ⟨p, hp, rfl, rfl⟩
    · exact ⟨_, List.mem_of_getElem? hi, rfl, rfl⟩
  | tick _ | publishReady _ _ =>
    obtain ⟨t, ht, hw'⟩ := Option.map_eq_some_iff.mp hstep
    have hsound := h.sound.step ht
    obtain rfl := Option.some.inj ht
    obtain rfl := hw'
    exact h.idle hstep rfl rfl hsound (h.makers.idle ht (by simp)) fun p hp =>
      Or.inl ⟨p, hp, rfl, rfl⟩

theorem holding_inductive (host : Host) : (watchedCurrent host).Inductive (Holding host) where
  init w hinit := by
    obtain ⟨hprocesses, hleases, hlive⟩ := hinit
    refine ⟨⟨fun wiki claim howner => ?_, fun p hp => ?_⟩,
      ⟨fun p hp => ?_, fun i _ p _ _ hp => ?_⟩, fun claim hclaim => ?_, fun p hp => ?_⟩
    · unfold Queue.ownerOf at howner
      rw [hleases] at howner
      exact absurd howner (by simp)
    · rw [hprocesses] at hp
      exact absurd hp (by simp)
    · rw [hprocesses] at hp
      exact absurd hp (by simp)
    · rw [hprocesses] at hp
      exact absurd hp (by simp)
    · rw [hlive] at hclaim
      exact absurd hclaim (by simp)
    · rw [hprocesses] at hp
      exact absurd hp (by simp)
  step _ _ _ h hstep := h.step hstep.1 hstep.2

/-- A step that is no call leaves the leases alone. -/
theorem leases_step {s t : FleetState} {e : Event} (h : step host s e = some t)
    (he : ∀ i, e ≠ .advance i) : t.store.leases = s.store.leases := by
  cases e with
  | advance i => exact absurd rfl (he i)
  | start op =>
    have hstart : (if mayStart s op then some ((machine host).start s op) else none) = some t := h
    split at hstart
    next => rw [← Option.some.inj hstart]; rfl
    next => exact absurd hstart (by simp)
  | kill i =>
    obtain ⟨op, k, c, rest, hi, rfl⟩ := Machine.kill_eq_some.mp h
    rfl
  | tick seconds => rw [← Option.some.inj h]
  | publishReady path index => rw [← Option.some.inj h]

theorem Holding.kept (h : Holding host w) {e : Event} (hstep : w.step host e = some w')
    (hcurrent : CurrentStep w e) {claim : FleetClaim} (hlive : claim ∈ w.live) :
    releases w.state claim e = true ∨
      ∃ owner, w'.state.store.ownerOf claim.task.wiki = some owner ∧ owner.lease = claim := by
  obtain ⟨t, ht, rfl⟩ := Option.map_eq_some_iff.mp hstep
  obtain ⟨owner, howner, hlease, -⟩ := h.owner claim hlive
  by_cases he : ∃ i, e = .advance i
  · obtain ⟨i, rfl⟩ := he
    obtain ⟨op, k, c, rest, hi, rfl⟩ := Machine.advance_eq_some.mp ht
    refine (h.keeps_owner hi (hcurrent.call hi) hlive).imp_left fun hc => ?_
    obtain ⟨rfl, hheld⟩ := hc
    simp only [releases, hi]
    simp [hheld]
  · refine Or.inr ⟨owner, ?_, hlease⟩
    have hleases := leases_step ht fun i hi => he ⟨i, hi⟩
    unfold Queue.ownerOf at *
    rw [hleases]
    exact howner

/-- **In runs in which every process acts on what is still so, a live claim is alone
on its wiki, keeps its owner document, and is not refused.** -/
theorem lease_exclusive (host : Host) (w w' : Watch) (e : Event)
    (hreach : (watchedCurrent host).Reachable w) (hstep : w.step host e = some w')
    (hcurrent : CurrentStep w e) : Exclusive w e w' := by
  have h := (holding_inductive host).reachable hreach
  refine ⟨fun claim hlive => h.kept hstep hcurrent hlive, ?_, ?_⟩
  · intro claim hlive other hgranted hwiki
    obtain ⟨owner, howner, -, -⟩ := h.owner claim hlive
    obtain ⟨t, ht, rfl⟩ := Option.map_eq_some_iff.mp hstep
    cases e with
    | advance i =>
      obtain ⟨op, k, c, rest, hi, rfl⟩ := Machine.advance_eq_some.mp ht
      have hrunning := h.sound.running _ (List.mem_of_getElem? hi)
      have hset := List.getElem?_set_self (a := ⟨op, k.learn c (w.state.store.perform host c).1,
        rest (w.state.store.perform host c).1⟩) (List.getElem?_eq_some_iff.mp hi).1
      have hgranted' : granted ⟨op, k.learn c (w.state.store.perform host c).1,
          rest (w.state.store.perform host c).1⟩ = some other := by
        change (List.set _ _ _)[i]? >>= granted = _ at hgranted
        simp only [machine, hset] at hgranted
        exact hgranted
      obtain ⟨rfl, -, -, -, hmade⟩ := granted_spec hrunning hgranted'
      -- its `mkdir` made the lease, which has no owner since
      have hmaking := h.makers.making _ (List.mem_of_getElem? hi) _ (Making.call hmade)
      unfold Queue.ownerOf at howner
      rw [← hwiki, hmaking] at howner
      exact absurd howner (by simp)
    | start op => exact absurd hgranted (by simp [grantedBy])
    | kill j => exact absurd hgranted (by simp [grantedBy])
    | tick seconds => exact absurd hgranted (by simp [grantedBy])
    | publishReady path index => exact absurd hgranted (by simp [grantedBy])
  · intro i held message p p' he hi hi' hheld hrest hlive
    subst he
    obtain ⟨owner, howner, hlease, -⟩ := h.owner _ hlive
    obtain ⟨t, ht, rfl⟩ := Option.map_eq_some_iff.mp hstep
    obtain ⟨op, k, c, rest, hget, rfl⟩ := Machine.advance_eq_some.mp ht
    have hrunning := h.sound.running _ (List.mem_of_getElem? hget)
    obtain rfl := Option.some.inj (hi.symm.trans hget)
    change (List.set _ _ _)[i]? = some p' at hi'
    rw [List.getElem?_set_self (List.getElem?_eq_some_iff.mp hget).1] at hi'
    obtain rfl := Option.some.inj hi'
    have hends := hrunning.follows.2 (w.state.store.perform host c).1
    change rest (w.state.store.perform host c).1 = _ at hrest
    dsimp only at hends hheld
    rw [hrest] at hends
    obtain ⟨held', live, hheld', hread, hother⟩ := hends
    obtain rfl := Option.some.inj (hheld.symm.trans hheld')
    obtain ⟨rfl, hanswer⟩ := ownerRead_eq_some hread
    have hanswer' : (w.state.store.perform host (.readOwner held.task.wiki)).1
        = Except.ok live := hanswer
    have hthere := readOwner_eq_ok.mp hanswer'
    have hsame : owner = live := Option.some.inj (howner.symm.trans hthere)
    rw [hsame] at hlease
    have hid : live.lease.leaseId = held.lease.leaseId := by rw [hlease]
    have hworker : live.lease.workerId = held.lease.workerId := by rw [hlease]
    have htask : live.lease.task = held.lease.task := by rw [hlease]
    exact hother ⟨hid, hworker, congrArg FleetTask.taskId htask⟩

end Run

/-! ## Two runs -/

/-- The digests of two tasks and of three leases. -/
def digests : List (String × String) := [
  ("\x7b\"algorithm\":\"fleet-queue-v2\",\"wiki\":\"frwiki\",\"snapshot\":\"2026-05\"\x7d",
    "b12f63b95b08154811de3001bb844586e0fedac36e511ab2669c781c388b7eae"),
  ("\x7b\"algorithm\":\"fleet-queue-v2\",\"wiki\":\"frwiki\",\"snapshot\":\"2026-06\"\x7d",
    "59d92d85636ddaaaab87b35e4114ad3ab99831c22e6d7eb85170d619ea1f125d"),
  ("b12f63b95b08154811de3001bb844586e0fedac36e511ab2669c781c388b7eae\x00toolforge-a\x00311"
      ++ "\x001780000000",
    "4aafa82df8558c18354c3e3ce7478bb79d7d670c83e5a6cc69917d0529cf698e"),
  ("b12f63b95b08154811de3001bb844586e0fedac36e511ab2669c781c388b7eae\x00toolforge-a\x00311"
      ++ "\x001780004201",
    "cc994eac264044fa03eed749f0819d93d57a11515b50911d40731f11b8d2a3b3"),
  ("b12f63b95b08154811de3001bb844586e0fedac36e511ab2669c781c388b7eae\x00toolforge-a\x00311"
      ++ "\x001780009002",
    "3dcdf3a7f1e428acc73ff28f70890cce44e9e8f3e0eb9a690fc4af5d5287baaa")]

def isDigest (text : String) : Bool :=
  text.toList.length = 64 && text.toList.all fun c =>
    c.isDigit || ['a', 'b', 'c', 'd', 'e', 'f'].contains c

theorem isDigest_hex {text : String} (h : isDigest text = true) : text.toList.length = 64 ∧
    ∀ c ∈ text.toList, c.isDigit ∨ c ∈ ['a', 'b', 'c', 'd', 'e', 'f'] := by
  obtain ⟨hlength, hall⟩ := Bool.and_eq_true_iff.mp h
  refine ⟨of_decide_eq_true hlength, fun c hc => ?_⟩
  exact (Bool.or_eq_true_iff.mp (List.all_eq_true.mp hall c hc)).imp_right List.contains_iff_mem.mp

def sampleHost : Host where
  sha256 text := ((digests.lookup text).filter isDigest).getD
    (String.ofList (List.replicate 64 '0'))
  sha256_hex text := by
    refine isDigest_hex ?_
    cases h : (digests.lookup text).filter isDigest with
    | none => decide +kernel
    | some digest => exact (Option.filter_eq_some_iff.mp h).2
  listing names := names
  listing_perm names := .refl names

def sampleSignals : SchedulingSignals := {
  sourceLayout := .monthly
  sourceCount := 1
  compressedSourceBytes := none
  priorRows := none
  fragmentCount := none
  historicalMemoryPeakBytes := none
  historicalScratchPeakBytes := none
  observedThroughputRowsPerSecond := none }

def sampleTask : FleetTask := {
  schemaVersion := 1
  queueAlgorithmVersion := "fleet-queue-v2"
  taskId := "b12f63b95b08154811de3001bb844586e0fedac36e511ab2669c781c388b7eae"
  wiki := "frwiki"
  snapshot := "2026-05"
  resourceClass := .small
  signals := sampleSignals
  attempt := 0
  notBeforeUnix := 1780000000
  discoveredAtUnix := 1780000000
  controllerRunId := "controller-1" }

/-- The claim of the task that the second process of `upToMkdir` makes. -/
def sampleClaim : FleetClaim := {
  schemaVersion := 1
  task := sampleTask
  workerId := "toolforge-a"
  leaseId := "4aafa82df8558c18354c3e3ce7478bb79d7d670c83e5a6cc69917d0529cf698e"
  claimedAtUnix := 1780000000
  heartbeatAtUnix := 1780000000
  leaseTimeoutSecs := 3600 }

/-- An empty queue. -/
def sampleStart : Watch := { state := ⟨{ clock := 1780000000 }, []⟩ }

/-- Discovery enqueues a task and a worker takes it, up to the `mkdir` of its
lease. -/
def upToMkdir : List Event :=
  .start (.enqueue "frwiki" "2026-05" .small sampleSignals "controller-1")
    :: List.replicate 6 (.advance 0)
    ++ .start (.claim .small "toolforge-a" 3600 311) :: List.replicate 6 (.advance 1)

/-- A recovery reads the owner between the `mkdir` and the worker's write. -/
def upToOwner : List Event :=
  upToMkdir ++ .start (.recoverStale 3) :: List.replicate 4 (.advance 2) ++ [.advance 1]

theorem sampleStart_init : (watched sampleHost).init sampleStart := ⟨rfl, rfl, rfl⟩

/-- The worker has its claim; another one looks into the lease, finds it taken and goes
home; the first is about to write its heartbeat. -/
def upToHeartbeat : List Event :=
  upToMkdir ++ .advance 1 :: .tick 60
    :: .start (.claim .small "toolforge-b" 3600 312) :: List.replicate 8 (.advance 2)
    ++ .start (.heartbeat sampleClaim) :: List.replicate 2 (.advance 3)

theorem lease_exclusive_heartbeat : ∃ w w', (watchedCurrent sampleHost).Reachable w ∧
    w.step sampleHost (.advance 3) = some w' ∧ sampleClaim ∈ w.live ∧
      w'.state.store.ownerOf "frwiki" = some { sampleClaim with heartbeatAtUnix := 1780000060 } ∧
      Exclusive w (.advance 3) w' := by
  have hruns : (upToHeartbeat.foldlM (fun (w : Watch) e =>
      if CurrentStep w e then w.step sampleHost e else none) sampleStart).any fun w =>
        (w.step sampleHost (.advance 3)).any fun w' => CurrentStep w (.advance 3) ∧
          sampleClaim ∈ w.live ∧ w'.state.store.ownerOf "frwiki"
            = some { sampleClaim with heartbeatAtUnix := 1780000060 } := by decide +kernel
  obtain ⟨w, hw, hprop⟩ := (Option.any_eq_true _ _).mp hruns
  obtain ⟨w', hw', hprop⟩ := (Option.any_eq_true _ _).mp hprop
  obtain ⟨hcurrent, hlive, howner⟩ := of_decide_eq_true hprop
  have hreach : (watchedCurrent sampleHost).Reachable w := by
    refine ⟨sampleStart, _, sampleStart_init, System.run_of_foldlM (fun s e t h => ?_) hw⟩
    split at h
    next hstill => exact ⟨h, hstill⟩
    next => exact absurd h (by simp)
  exact ⟨w, w', hreach, hw', hlive, howner,
    lease_exclusive sampleHost w w' _ hreach hw' hcurrent⟩

/-- A recovery that looked into the lease before its owner was written moves it
away from under the worker. -/
theorem lease_not_exclusive : ∃ w e w', (watched sampleHost).Reachable w ∧
    w.step sampleHost e = some w' ∧ ¬ Exclusive w e w' := by
  have hruns : (upToOwner.foldlM (Watch.step sampleHost) sampleStart).any fun w =>
        (w.step sampleHost (.advance 2)).any fun w' =>
          w.live.any fun claim => ¬ releases w.state claim (.advance 2) ∧
            w'.state.store.ownerOf claim.task.wiki = none := by decide +kernel
  obtain ⟨w, hw, hprop⟩ := (Option.any_eq_true _ _).mp hruns
  obtain ⟨w', hw', hprop⟩ := (Option.any_eq_true _ _).mp hprop
  obtain ⟨claim, hlive, hprop⟩ := List.any_eq_true.mp hprop
  obtain ⟨hrelease, hnone⟩ := of_decide_eq_true hprop
  have hreach : (watched sampleHost).Reachable w :=
    ⟨sampleStart, _, sampleStart_init, System.run_of_foldlM (fun _ _ _ h => h) hw⟩
  refine ⟨w, .advance 2, w', hreach, hw', fun h => ?_⟩
  rcases h.kept claim hlive with hreleases | ⟨owner, howner, -⟩
  · exact hrelease hreleases
  · rw [hnone] at howner
    exact absurd howner (by simp)

end WikiEcon.Fleet
