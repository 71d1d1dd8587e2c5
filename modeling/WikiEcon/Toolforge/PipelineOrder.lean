import WikiEcon.Toolforge.Pipeline

/-!
# The order of the stages

What holds of the coordinator's document after any sequence of commands. `Sound` is
the invariant of the document; `Change` is all one command can do to the entry of
one stage, and `History` is what the commands so far have to do with it.
-/

namespace WikiEcon.Toolforge.Pipeline

open Fallible Transition

/-! ## The stages that run -/

theorem nodup_distinct (stages : List Stage) : (distinct stages).Nodup := by
  induction stages with
  | nil => exact List.nodup_nil
  | cons first rest ih =>
    unfold distinct
    refine List.nodup_cons.mpr ⟨fun h => ?_, ih.filter _⟩
    exact absurd rfl (of_decide_eq_true (List.mem_filter.mp h).2)

theorem distinct_of_nodup {stages : List Stage} (h : stages.Nodup) : distinct stages = stages := by
  induction stages with
  | nil => rfl
  | cons first rest ih =>
    obtain ⟨hfirst, hrest⟩ := List.nodup_cons.mp h
    unfold distinct
    rw [ih hrest, List.filter_eq_self.mpr]
    exact fun stage hstage => decide_eq_true fun heq => hfirst (heq ▸ hstage)

@[simp] theorem activeStages_setActiveStages (state : PipelineState) (stages : List Stage) :
    activeStages (setActiveStages state stages) = distinct stages :=
  distinct_of_nodup (nodup_distinct stages)

@[simp] theorem stages_setActiveStages (state : PipelineState) (stages : List Stage) :
    (setActiveStages state stages).stages = state.stages := rfl

@[simp] theorem snapshot_setActiveStages (state : PipelineState) (stages : List Stage) :
    (setActiveStages state stages).snapshot = state.snapshot := rfl

@[simp] theorem stages_setStage_self (state : PipelineState) (stage : Stage) (entry : Entry) :
    (setStage state stage entry).stages stage = entry := Function.update_self ..

theorem stages_setStage_of_ne {stage other : Stage} (h : other ≠ stage) (state : PipelineState)
    (entry : Entry) : (setStage state stage entry).stages other = state.stages other :=
  Function.update_of_ne h ..

theorem activeStages_nodup (state : PipelineState) : (activeStages state).Nodup := by
  unfold activeStages
  split
  · exact nodup_distinct _
  · exact state.currentStage.toList_nodup

def isCompute (stage : Stage) : Bool := parallelComputeStages.contains stage

/-! ## The invariant -/

/-- What holds of the document between commands. -/
structure Sound (capacity : CapacityPolicy) (state : PipelineState) : Prop where
  normal : setActiveStages state (activeStages state) = state
  /-- The active stages are the running ones. -/
  active : ∀ stage, stage ∈ activeStages state ↔ (state.stages stage).status = .running
  /-- Ingest and publish run alone. -/
  alone : ∀ stage ∈ activeStages state, isCompute stage = false → activeStages state = [stage]
  bounded : (∃ stage ∈ activeStages state, isCompute stage = true) →
    ∃ limit, parallelStageCapacity capacity = .ok limit ∧ (activeStages state).length ≤ limit
  ingested : (state.stages .ingest).status ≠ .succeeded →
    ∀ stage, stage ≠ .ingest → (state.stages stage).status = .pending
  published : (state.stages .publish).status = .running →
    ∀ stage, isCompute stage = true → (state.stages stage).status = .succeeded

/-- What a change to one entry that keeps it running, or not running, keeps. -/
theorem Sound.bounded_of_subset {capacity : CapacityPolicy} {state : PipelineState}
    (h : Sound capacity state) {active : List Stage} (hsub : active.Sublist (activeStages state)) :
    (∃ stage ∈ active, isCompute stage = true) →
      ∃ limit, parallelStageCapacity capacity = .ok limit ∧ active.length ≤ limit := by
  rintro ⟨stage, hstage, hcompute⟩
  obtain ⟨limit, hlimit, hle⟩ := h.bounded ⟨stage, hsub.subset hstage, hcompute⟩
  exact ⟨limit, hlimit, hsub.length_le.trans hle⟩

/-! ## Recovery -/

/-- What recovery does: some active stages fail, and nothing else changes. -/
structure Revoked (state state' : PipelineState) : Prop where
  normal : setActiveStages state' (activeStages state') = state'
  snapshot : state'.snapshot = state.snapshot
  sublist : (activeStages state').Sublist (activeStages state)
  kept : ∀ stage, stage ∈ activeStages state' → state'.stages stage = state.stages stage
  idle : ∀ stage, stage ∉ activeStages state → state'.stages stage = state.stages stage
  failed : ∀ stage ∈ activeStages state, stage ∉ activeStages state' →
    (state'.stages stage).status = .failed

theorem Revoked.refl {state : PipelineState}
    (h : setActiveStages state (activeStages state) = state) : Revoked state state where
  normal := h
  snapshot := rfl
  sublist := List.Sublist.refl _
  kept _ _ := rfl
  idle _ _ := rfl
  failed _ hin hout := absurd hin hout

/-- The entries after the leases of the stale stages among these are revoked. -/
def revokedStages (args : Args) (staleAfterSecs : ℚ) (active : List Stage)
    (entries : Stage → Entry) : Stage → Entry := fun stage =>
  if stage ∈ active ∧ isStale args staleAfterSecs stage (entries stage) = true then
    revoked args staleAfterSecs stage (entries stage)
  else entries stage

theorem foldl_recoverStage (args : Args) (staleAfterSecs : ℚ) : ∀ (active : List Stage)
    (state : PipelineState) (remaining : List Stage), active.Nodup →
      active.foldl (recoverStage args staleAfterSecs) (state, remaining)
        = ({ state with stages := revokedStages args staleAfterSecs active state.stages },
          remaining ++ active.filter fun stage =>
            !isStale args staleAfterSecs stage (state.stages stage)) := by
  intro active
  induction active with
  | nil =>
    intro state remaining _
    have hnone : revokedStages args staleAfterSecs [] state.stages = state.stages :=
      funext fun stage => if_neg (by simp)
    rw [hnone, List.filter_nil, List.append_nil]
    rfl
  | cons first rest ih =>
    intro state remaining hnodup
    obtain ⟨hfirst, hrest⟩ := List.nodup_cons.mp hnodup
    have hother : ∀ stage ∈ rest, stage ≠ first := fun stage hstage heq => hfirst (heq ▸ hstage)
    rw [List.foldl_cons]
    by_cases hstale : isStale args staleAfterSecs first (state.stages first) = true
    · have hstep : recoverStage args staleAfterSecs (state, remaining) first
          = (setStage state first (revoked args staleAfterSecs first (state.stages first)),
            remaining) := if_pos hstale
      rw [hstep, ih _ _ hrest]
      refine Prod.ext ?_ ?_
      · refine congrArg (fun entries => { state with stages := entries }) (funext fun stage => ?_)
        by_cases heq : stage = first
        · subst heq
          simp [revokedStages, hfirst, hstale, setStage]
        · simp [revokedStages, heq, setStage]
      · show remaining ++ _ = remaining ++ _
        rw [List.filter_cons_of_neg (by simp [hstale])]
        refine congrArg _ (List.filter_congr fun stage hstage => ?_)
        rw [stages_setStage_of_ne (hother stage hstage)]
    · have hstep : recoverStage args staleAfterSecs (state, remaining) first
          = (state, remaining ++ [first]) := if_neg hstale
      rw [hstep, ih _ _ hrest]
      refine Prod.ext ?_ ?_
      · refine congrArg (fun entries => { state with stages := entries }) (funext fun stage => ?_)
        by_cases heq : stage = first
        · subst heq
          simp [revokedStages, hfirst, hstale]
        · simp [revokedStages, heq]
      · show remaining ++ [first] ++ _ = remaining ++ _
        rw [List.filter_cons_of_pos (by simp [hstale]), List.append_assoc]
        rfl

theorem Revoked.of_stages {state : PipelineState} {entries : Stage → Entry} {kept : List Stage}
    (status : Status) (now : ℤ) (hsub : kept.Sublist (activeStages state))
    (hkept : ∀ stage ∈ kept, entries stage = state.stages stage)
    (hidle : ∀ stage, stage ∉ activeStages state → entries stage = state.stages stage)
    (hfailed : ∀ stage ∈ activeStages state, stage ∉ kept → (entries stage).status = .failed) :
    Revoked state { setActiveStages { state with stages := entries } kept with
      state := status, updatedAt := now } := by
  have hnodup : distinct kept = kept :=
    distinct_of_nodup ((activeStages_nodup state).sublist hsub)
  have hactive : activeStages { setActiveStages { state with stages := entries } kept with
      state := status, updatedAt := now } = kept := by
    show distinct (distinct kept) = kept
    rw [hnodup, hnodup]
  constructor
  · rw [hactive]
    simp only [setActiveStages, hnodup]
  · rfl
  · rw [hactive]
    exact hsub
  · rw [hactive]
    exact hkept
  · exact hidle
  · rw [hactive]
    exact hfailed

theorem recoverStaleStages_revoked {args : Args} {state state' : PipelineState}
    (h : recoverStaleStages args state = some state') : Revoked state state' := by
  unfold recoverStaleStages at h
  split at h
  · exact absurd h (by simp)
  next staleAfterSecs _ =>
    split at h
    · exact absurd h (by simp)
    · dsimp only at h
      split at h
      · rw [foldl_recoverStage args staleAfterSecs _ state [] (activeStages_nodup state)] at h
        obtain rfl := Option.some.inj h
        refine .of_stages _ _ List.filter_sublist (fun stage hstage => ?_)
          (fun stage hidle => if_neg fun hin => hidle hin.1) fun stage hin hout => ?_
        · have hfresh := (List.mem_filter.mp hstage).2
          exact if_neg fun hstale => by simp [hstale.2] at hfresh
        · have hstale : isStale args staleAfterSecs stage (state.stages stage) = true := by
            by_contra hfresh
            exact hout (List.mem_filter.mpr ⟨hin, by simp [hfresh]⟩)
          show (revokedStages args staleAfterSecs _ _ stage).status = .failed
          rw [revokedStages, if_pos ⟨hin, hstale⟩]
          rfl
      · exact absurd h (by simp)

/-- The document `begin` goes on with. -/
def recoveredState (args : Args) (state : PipelineState) : PipelineState :=
  (recoverStaleStages args state).getD state

theorem revoked_recoveredState (args : Args) {state : PipelineState}
    (h : setActiveStages state (activeStages state) = state) :
    Revoked state (recoveredState args state) := by
  unfold recoveredState
  cases hrecovered : recoverStaleStages args state with
  | none => exact .refl h
  | some state' => exact recoverStaleStages_revoked hrecovered

theorem Sound.revoked {capacity : CapacityPolicy} {state state' : PipelineState}
    (h : Sound capacity state) (hrevoked : Revoked state state') : Sound capacity state' := by
  -- A stage keeps its status, or stops running and has failed.
  have hstatus : ∀ stage, (state'.stages stage).status = (state.stages stage).status ∨
      (state.stages stage).status = .running ∧ (state'.stages stage).status = .failed := by
    intro stage
    by_cases hin : stage ∈ activeStages state
    · by_cases hstill : stage ∈ activeStages state'
      · exact Or.inl (by rw [hrevoked.kept stage hstill])
      · exact Or.inr ⟨(h.active stage).mp hin, hrevoked.failed stage hin hstill⟩
    · exact Or.inl (by rw [hrevoked.idle stage hin])
  constructor
  · exact hrevoked.normal
  · intro stage
    constructor
    · intro hstage
      rw [hrevoked.kept stage hstage]
      exact (h.active stage).mp (hrevoked.sublist.subset hstage)
    · intro hrunning
      by_contra hout
      rcases hstatus stage with hsame | ⟨-, hfailed⟩
      · have hin := (h.active stage).mpr (hsame ▸ hrunning)
        rw [hrevoked.failed stage hin hout] at hrunning
        exact absurd hrunning (by decide)
      · rw [hfailed] at hrunning
        exact absurd hrunning (by decide)
  · intro stage hstage hcompute
    have hone := h.alone stage (hrevoked.sublist.subset hstage) hcompute
    have hsub := hrevoked.sublist
    rw [hone] at hsub
    rcases List.sublist_singleton.mp hsub with hnil | hsame
    · rw [hnil] at hstage
      exact absurd hstage List.not_mem_nil
    · exact hsame
  · exact h.bounded_of_subset hrevoked.sublist
  · intro hingest stage hne
    by_cases hbefore : (state.stages .ingest).status = .succeeded
    · rcases hstatus .ingest with hsame | ⟨hrunning, -⟩
      · exact absurd (hsame.trans hbefore) hingest
      · rw [hbefore] at hrunning
        exact absurd hrunning (by decide)
    · have hpending := h.ingested hbefore stage hne
      rcases hstatus stage with hsame | ⟨hrunning, -⟩
      · exact hsame.trans hpending
      · rw [hpending] at hrunning
        exact absurd hrunning (by decide)
  · intro hpublish stage hcompute
    rcases hstatus .publish with hsame | ⟨-, hfailed⟩
    · have hsucceeded := h.published (hsame ▸ hpublish) stage hcompute
      rcases hstatus stage with hsame | ⟨hrunning, -⟩
      · exact hsame.trans hsucceeded
      · rw [hsucceeded] at hrunning
        exact absurd hrunning (by decide)
    · rw [hfailed] at hpublish
      exact absurd hpublish (by decide)

/-! ## What the commands do -/

theorem failIf_eq_ok {condition : Bool} {message : String} {u : Unit} :
    failIf condition message = .ok u ↔ condition = false := by
  unfold failIf
  cases condition <;> simp

theorem required_eq_ok {value : Option String} {name text : String}
    (h : required value name = .ok text) : value = some text := by
  unfold required at h
  split at h
  · exact absurd h (by simp)
  · split at h
    · exact absurd h (by simp)
    · rw [Except.ok.inj h]

theorem validStage_eq_ok {name : String} {stage : Stage} (h : validStage name = .ok stage) :
    name = stage.name := by
  have hfind := List.find?_some (context_eq_ok.mp h)
  exact (of_decide_eq_true hfind).symm

/-- Reading a normal document gives the document. -/
theorem readState_eq_ok {file found : Option PipelineState}
    (hnormal : ∀ state ∈ file, setActiveStages state (activeStages state) = state)
    (h : readState file = .ok found) : found = file := by
  unfold readState at h
  cases file with
  | none => exact (Except.ok.inj h).symm
  | some state =>
    obtain ⟨_, -, h⟩ := bind_eq_ok.mp h
    obtain ⟨_, -, h⟩ := bind_eq_ok.mp h
    rw [← Except.ok.inj h, hnormal state rfl]

/-- The guards of a stage that is not ingest. -/
structure MayBegin (capacity : CapacityPolicy) (stage : Stage) (state : PipelineState) : Prop where
  idle : stage ∉ activeStages state
  prerequisites : ∀ prerequisite ∈ prerequisites stage,
    (state.stages prerequisite).status = .succeeded
  alone : isCompute stage = false → activeStages state = []
  beside : isCompute stage = true → (∀ other ∈ activeStages state, isCompute other = true) ∧
    ∃ limit, parallelStageCapacity capacity = .ok limit ∧ (activeStages state).length < limit

theorem forM_eq_ok {α : Type} {f : α → Except String Unit} {l : List α} {u : Unit}
    (h : l.forM f = .ok u) : ∀ a ∈ l, f a = .ok () := by
  induction l with
  | nil => exact fun a ha => absurd ha List.not_mem_nil
  | cons b l ih =>
    obtain ⟨_, hb, hl⟩ := bind_eq_ok.mp (show (f b >>= fun _ => l.forM f) = .ok u from h)
    exact List.forall_mem_cons.mpr ⟨hb, ih hl⟩

theorem beginLater_eq_ok {capacity : CapacityPolicy} {stage : Stage} {snapshot : Option String}
    {state : PipelineState} {u : Unit} (h : beginLater capacity stage snapshot state = .ok u) :
    MayBegin capacity stage state := by
  unfold beginLater at h
  obtain ⟨_, -, h⟩ := bind_eq_ok.mp h
  obtain ⟨_, hidle, h⟩ := bind_eq_ok.mp h
  obtain ⟨_, hprerequisites, h⟩ := bind_eq_ok.mp h
  obtain ⟨_, -, h⟩ := bind_eq_ok.mp h
  have hidle : stage ∉ activeStages state := by
    have hfalse := failIf_eq_ok.mp hidle
    simpa using hfalse
  have hprerequisites : ∀ prerequisite ∈ prerequisites stage,
      (state.stages prerequisite).status = .succeeded := fun prerequisite hmem => by
    have hfalse := failIf_eq_ok.mp (forM_eq_ok hprerequisites prerequisite hmem)
    simpa using hfalse
  split at h
  next hcompute =>
    obtain ⟨_, hothers, h⟩ := bind_eq_ok.mp h
    obtain ⟨_, -, h⟩ := bind_eq_ok.mp h
    obtain ⟨limit, hlimit, h⟩ := bind_eq_ok.mp h
    refine ⟨hidle, hprerequisites, fun hnot => absurd (hnot.symm.trans hcompute) (by decide),
      fun _ => ⟨fun other hother => ?_, limit, hlimit, ?_⟩⟩
    · have hfalse := failIf_eq_ok.mp hothers
      rw [List.any_eq_false] at hfalse
      simpa [isCompute] using hfalse other hother
    · have hfalse := of_decide_eq_false (failIf_eq_ok.mp h)
      omega
  next hcompute =>
    refine ⟨hidle, hprerequisites, fun _ => ?_, fun hyes => absurd hyes hcompute⟩
    have hfalse := failIf_eq_ok.mp h
    simpa using hfalse

/-- A document an ingest may start from: a new one, or one that is reset. -/
structure Fresh (args : Args) (state : PipelineState) : Prop where
  snapshot : supplied args.snapshot = some state.snapshot
  blank : state.stages = blankStages
  active : activeStages state = [] ∨ activeStages state = [.ingest]

/-- What an accepted `begin` starts from. -/
inductive Starts (capacity : CapacityPolicy) (args : Args) :
    Option PipelineState → Stage → PipelineState → Prop
  | fresh {file : Option PipelineState} {state : PipelineState} (h : Fresh args state) :
      Starts capacity args file .ingest state
  | later {before state : PipelineState} {stage : Stage} (hstage : stage ≠ .ingest)
      (hsnapshot : state.snapshot = before.snapshot)
      (hactive : activeStages state = activeStages (recoveredState args before))
      (hstages : state.stages = (recoveredState args before).stages)
      (hmay : MayBegin capacity stage (recoveredState args before)) :
      Starts capacity args (some before) stage state

/-- The stage and the run id of a command that is not refused. -/
structure Names (args : Args) (stage : Stage) (runId : String) : Prop where
  stage : args.stage = some stage.name
  runId : args.runId = some runId

theorem exec_recover (args : Args) (before : PipelineState) :
    (recover args before).exec (some before)
      = (.ok (recoveredState args before), some (recoveredState args before)) := by
  unfold recover recoveredState
  cases recoverStaleStages args before with
  | none => rfl
  | some recovered => rfl

/-- How `begin` can end: refused, refused after recovery, or with a stage running. -/
theorem begin_cases {capacity : CapacityPolicy} {args : Args} {file file' : Option PipelineState}
    {answer : Except String Answer}
    (hnormal : ∀ state ∈ file, setActiveStages state (activeStages state) = state)
    (h : (begin capacity args).exec file = (answer, file')) :
    (∃ e, answer = .error e ∧ (file' = file ∨
        ∃ state, file = some state ∧ file' = some (recoveredState args state))) ∨
      ∃ stage runId state a, answer = .ok a ∧ Names args stage runId ∧
        Starts capacity args file stage state ∧
        file' = some (started args stage runId state) := by
  unfold begin at h
  -- Everything up to the document refuses without having written.
  rcases lift_bind_cases h with ⟨e, rfl, rfl, -⟩ | ⟨name, hname, h⟩
  · exact Or.inl ⟨e, rfl, Or.inl rfl⟩
  rcases lift_bind_cases h with ⟨e, rfl, rfl, -⟩ | ⟨runId, hrunId, h⟩
  · exact Or.inl ⟨e, rfl, Or.inl rfl⟩
  rcases lift_bind_cases h with ⟨e, rfl, rfl, -⟩ | ⟨stage, hstage, h⟩
  · exact Or.inl ⟨e, rfl, Or.inl rfl⟩
  rcases lift_bind_cases h with ⟨e, rfl, rfl, -⟩ | ⟨wikis, hwikis, h⟩
  · exact Or.inl ⟨e, rfl, Or.inl rfl⟩
  rcases lift_bind_cases h with ⟨e, rfl, rfl, -⟩ | ⟨_, hsnapshot, h⟩
  · exact Or.inl ⟨e, rfl, Or.inl rfl⟩
  rw [exec_read_bind] at h
  rcases lift_bind_cases h with ⟨e, rfl, rfl, -⟩ | ⟨found, hfound, h⟩
  · exact Or.inl ⟨e, rfl, Or.inl rfl⟩
  have hnames : Names args stage runId :=
    ⟨(required_eq_ok hname).trans (congrArg some (validStage_eq_ok hstage)), required_eq_ok hrunId⟩
  obtain rfl := readState_eq_ok hnormal hfound
  cases found with
  | none =>
    -- Without a document only an ingest may begin.
    dsimp only at h
    rcases lift_bind_cases h with ⟨e, rfl, rfl, -⟩ | ⟨state, hstart, h⟩
    · exact Or.inl ⟨e, rfl, Or.inl rfl⟩
    obtain ⟨_, hingest, hstart⟩ := bind_eq_ok.mp hstart
    obtain ⟨snapshot, hsupplied, hstart⟩ := bind_eq_ok.mp hstart
    obtain rfl := Except.ok.inj hstart
    obtain ⟨rfl, rfl⟩ := Prod.mk.inj h
    obtain rfl : stage = .ingest := by simpa using failIf_eq_ok.mp hingest
    exact Or.inr ⟨.ingest, runId, _, _, rfl, hnames,
      .fresh ⟨context_eq_ok.mp hsupplied, rfl, Or.inr rfl⟩, rfl⟩
  | some before =>
    dsimp only at h
    rcases bind_cases h with ⟨e, rfl, hstart⟩ | ⟨state, t, hstart, h⟩
    -- A refusal after the recovery of stale stages leaves what was recovered.
    · rcases lift_bind_cases hstart with ⟨e', -, rfl, -⟩ | ⟨_, -, hstart⟩
      · exact Or.inl ⟨e, rfl, Or.inl rfl⟩
      rw [exec_bind, exec_recover] at hstart
      rcases lift_bind_cases hstart with ⟨e', -, rfl, -⟩ | ⟨_, -, hstart⟩
      · exact Or.inl ⟨e, rfl, Or.inr ⟨before, rfl, rfl⟩⟩
      · exact absurd (Prod.mk.inj hstart).1 (by simp)
    · rcases lift_bind_cases hstart with ⟨e', he, -, -⟩ | ⟨_, -, hstart⟩
      · exact absurd he (by simp)
      rw [exec_bind, exec_recover] at hstart
      rcases lift_bind_cases hstart with ⟨e', he, -, -⟩ | ⟨guarded, hguarded, hstart⟩
      · exact absurd he (by simp)
      obtain ⟨hstate, rfl⟩ := Prod.mk.inj hstart
      obtain rfl := Except.ok.inj hstate
      obtain ⟨rfl, rfl⟩ := Prod.mk.inj h
      refine Or.inr ⟨stage, runId, _, _, rfl, hnames, ?_, rfl⟩
      split at hguarded
      next hingest =>
        subst hingest
        obtain ⟨_, hidle, hguarded⟩ := bind_eq_ok.mp hguarded
        obtain ⟨snapshot, hsupplied, hguarded⟩ := bind_eq_ok.mp hguarded
        obtain rfl := Except.ok.inj hguarded
        have hempty : activeStages (recoveredState args before) = [] := by
          simpa using failIf_eq_ok.mp hidle
        exact .fresh ⟨context_eq_ok.mp hsupplied, rfl, Or.inl hempty⟩
      next hlater =>
        obtain ⟨_, hmay, hguarded⟩ := bind_eq_ok.mp hguarded
        obtain rfl := Except.ok.inj hguarded
        have hrevoked := revoked_recoveredState args (hnormal before rfl)
        exact .later hlater hrevoked.snapshot rfl rfl (beginLater_eq_ok hmay)

/-- What a command does to a stage its run owns. -/
inductive Ends (args : Args) (stage : Stage) (runId : String) (state : PipelineState) :
    CommandName → PipelineState → Prop
  | heartbeat : Ends args stage runId state .heartbeat
      { setStage state stage { state.stages stage with
          heartbeatAt := some (args.clock .entered) } with
        updatedAt := args.clock .updated }
  | complete (whenDrained : PipelineState → Status) : Ends args stage runId state .complete
      (ended args state stage { state.stages stage with
        status := .succeeded
        completedAt := some (args.clock .entered) } whenDrained)
  | fail (message : String) (whenDrained : PipelineState → Status) :
    Ends args stage runId state .fail
      (ended args state stage { state.stages stage with
        status := .failed
        failedAt := some (args.clock .entered)
        error := some message } whenDrained)

theorem owns_eq_true {state : PipelineState} {stage : Stage} {runId : String}
    (h : owns state stage runId = true) : stage ∈ activeStages state ∧
      (state.stages stage).status = .running ∧ (state.stages stage).runId = some runId := by
  unfold owns at h
  simpa [and_assoc] using h

theorem heartbeat_cases {args : Args} {file file' : Option PipelineState}
    {answer : Except String Answer}
    (hnormal : ∀ state ∈ file, setActiveStages state (activeStages state) = state)
    (h : (heartbeat args).exec file = (answer, file')) :
    file' = file ∨ ∃ stage runId state state' a, file = some state ∧ file' = some state' ∧
      answer = .ok a ∧ Names args stage runId ∧ owns state stage runId = true ∧
      Ends args stage runId state .heartbeat state' := by
  unfold heartbeat at h
  rcases lift_bind_cases h with ⟨e, rfl, rfl, -⟩ | ⟨name, hname, h⟩
  · exact Or.inl rfl
  rcases lift_bind_cases h with ⟨e, rfl, rfl, -⟩ | ⟨runId, hrunId, h⟩
  · exact Or.inl rfl
  rcases lift_bind_cases h with ⟨e, rfl, rfl, -⟩ | ⟨stage, hstage, h⟩
  · exact Or.inl rfl
  rw [exec_read_bind] at h
  rcases lift_bind_cases h with ⟨e, rfl, rfl, -⟩ | ⟨found, hfound, h⟩
  · exact Or.inl rfl
  obtain rfl := readState_eq_ok hnormal hfound
  cases found with
  | none =>
    dsimp only at h
    split at h
    · exact Or.inl (Prod.mk.inj h).2.symm
    · exact Or.inl (Prod.mk.inj h).2.symm
  | some state =>
    dsimp only at h
    rcases lift_bind_cases h with ⟨e, rfl, rfl, -⟩ | ⟨_, -, h⟩
    · exact Or.inl rfl
    split at h
    · exact Or.inl (Prod.mk.inj h).2.symm
    split at h
    next howns =>
      obtain ⟨rfl, rfl⟩ := Prod.mk.inj h
      exact Or.inr ⟨stage, runId, state, _, _, rfl, rfl, rfl,
        ⟨(required_eq_ok hname).trans (congrArg some (validStage_eq_ok hstage)),
          required_eq_ok hrunId⟩, howns, .heartbeat⟩
    next =>
      split at h
      · exact Or.inl (Prod.mk.inj h).2.symm
      · exact Or.inl (Prod.mk.inj h).2.symm

theorem ownedStage_cases {args : Args} {verb : String} {file file' : Option PipelineState}
    {result : Except String (Stage × PipelineState)}
    (hnormal : ∀ state ∈ file, setActiveStages state (activeStages state) = state)
    (h : (ownedStage args verb).exec file = (result, file')) : file' = file ∧
      ∀ stage state, result = .ok (stage, state) → file = some state ∧
        ∃ runId, Names args stage runId ∧ owns state stage runId = true := by
  unfold ownedStage at h
  rcases lift_bind_cases h with ⟨e, rfl, rfl, -⟩ | ⟨name, hname, h⟩
  · exact ⟨rfl, fun _ _ hok => absurd hok (by simp)⟩
  rcases lift_bind_cases h with ⟨e, rfl, rfl, -⟩ | ⟨runId, hrunId, h⟩
  · exact ⟨rfl, fun _ _ hok => absurd hok (by simp)⟩
  rcases lift_bind_cases h with ⟨e, rfl, rfl, -⟩ | ⟨stage, hstage, h⟩
  · exact ⟨rfl, fun _ _ hok => absurd hok (by simp)⟩
  rw [exec_read_bind] at h
  rcases lift_bind_cases h with ⟨e, rfl, rfl, -⟩ | ⟨found, hfound, h⟩
  · exact ⟨rfl, fun _ _ hok => absurd hok (by simp)⟩
  obtain rfl := readState_eq_ok hnormal hfound
  rcases lift_bind_cases h with ⟨e, rfl, rfl, -⟩ | ⟨state, hstate, h⟩
  · exact ⟨rfl, fun _ _ hok => absurd hok (by simp)⟩
  obtain rfl := context_eq_ok.mp hstate
  rcases lift_bind_cases h with ⟨e, rfl, rfl, -⟩ | ⟨_, howns, h⟩
  · exact ⟨rfl, fun _ _ hok => absurd hok (by simp)⟩
  obtain ⟨rfl, rfl⟩ := Prod.mk.inj h
  refine ⟨rfl, fun stage' state' hok => ?_⟩
  obtain ⟨rfl, rfl⟩ := Prod.mk.inj (Except.ok.inj hok)
  exact ⟨rfl, runId, ⟨(required_eq_ok hname).trans (congrArg some (validStage_eq_ok hstage)),
    required_eq_ok hrunId⟩, by simpa using failIf_eq_ok.mp howns⟩

/-- How a command other than `begin` can end. -/
theorem other_cases {capacity : CapacityPolicy} {command : CommandName} {args : Args}
    {file file' : Option PipelineState} {answer : Except String Answer} (hother : command ≠ .begin)
    (hnormal : ∀ state ∈ file, setActiveStages state (activeStages state) = state)
    (h : (main capacity command args).exec file = (answer, file')) :
    file' = file ∨ ∃ stage runId state state' a, file = some state ∧ file' = some state' ∧
      answer = .ok a ∧ Names args stage runId ∧ owns state stage runId = true ∧
      Ends args stage runId state command state' := by
  cases command with
  | begin => exact absurd rfl hother
  | heartbeat => exact heartbeat_cases hnormal h
  | complete =>
    rcases bind_cases h with ⟨e, -, howned⟩ | ⟨⟨stage, state⟩, t, howned, hrest⟩
    · exact Or.inl (ownedStage_cases hnormal howned).1
    · obtain ⟨rfl, howned⟩ := ownedStage_cases hnormal howned
      obtain ⟨rfl, runId, hnames, howns⟩ := howned stage state rfl
      obtain ⟨rfl, rfl⟩ := Prod.mk.inj (show (Except.ok _, some _) = (answer, file') from hrest)
      exact Or.inr ⟨stage, runId, state, _, _, rfl, rfl, rfl, hnames, howns, .complete _⟩
  | fail =>
    rcases bind_cases h with ⟨e, -, howned⟩ | ⟨⟨stage, state⟩, t, howned, hrest⟩
    · exact Or.inl (ownedStage_cases hnormal howned).1
    · obtain ⟨rfl, howned⟩ := ownedStage_cases hnormal howned
      obtain ⟨rfl, runId, hnames, howns⟩ := howned stage state rfl
      obtain ⟨rfl, rfl⟩ := Prod.mk.inj (show (Except.ok _, some _) = (answer, file') from hrest)
      exact Or.inr ⟨stage, runId, state, _, _, rfl, rfl, rfl, hnames, howns, .fail _ _⟩

/-! ## The invariant is kept -/

theorem isCompute_iff {stage : Stage} :
    isCompute stage = true ↔ stage ≠ .ingest ∧ stage ≠ .publish := by
  cases stage <;> simp [isCompute, parallelComputeStages]

/-- A document whose active stages have just been set is normal. -/
theorem normal_of_set {state : PipelineState} {stages : List Stage}
    (hactive : state.activeStages = some (distinct stages))
    (hcurrent : state.currentStage = (distinct stages).head?) :
    setActiveStages state (activeStages state) = state := by
  have hnodup : distinct (distinct stages) = distinct stages :=
    distinct_of_nodup (nodup_distinct stages)
  have hdistinct : activeStages state = distinct stages := by
    unfold activeStages
    rw [hactive]
    exact hnodup
  rw [hdistinct]
  obtain ⟨_, _, _, _, _, _, _, _, _, _⟩ := state
  simp only at hactive hcurrent
  simp only [setActiveStages, hnodup, hactive, hcurrent]

section Kept

variable {capacity : CapacityPolicy} {args : Args} {state : PipelineState} {stage : Stage}
  {runId : String}

theorem activeStages_started :
    activeStages (started args stage runId state) = distinct (activeStages state ++ [stage]) :=
  activeStages_setActiveStages state _

theorem stages_started_self :
    ((started args stage runId state).stages stage).status = .running ∧
      ((started args stage runId state).stages stage).runId = some runId := by
  have hentry : (started args stage runId state).stages stage = _ := Function.update_self ..
  rw [hentry]
  exact ⟨rfl, rfl⟩

theorem stages_started_of_ne {other : Stage} (h : other ≠ stage) :
    (started args stage runId state).stages other = state.stages other :=
  Function.update_of_ne h ..

theorem Fresh.sound (h : Fresh args state) : Sound capacity (started args .ingest runId state) := by
  have hactive : activeStages (started args .ingest runId state) = [.ingest] := by
    rw [activeStages_started]
    rcases h.active with hnone | hone
    · rw [hnone]
      rfl
    · rw [hone]
      rfl
  have hpending : ∀ other, other ≠ .ingest →
      ((started args .ingest runId state).stages other).status = .pending := by
    intro other hne
    rw [stages_started_of_ne hne, h.blank]
    rfl
  constructor
  · exact normal_of_set rfl rfl
  · intro other
    rw [hactive, List.mem_singleton]
    constructor
    · rintro rfl
      exact stages_started_self.1
    · intro hrunning
      by_contra hne
      rw [hpending other hne] at hrunning
      exact absurd hrunning (by decide)
  · intro other hother _
    rw [hactive] at hother ⊢
    rw [List.mem_singleton.mp hother]
  · rintro ⟨other, hother, hcompute⟩
    rw [hactive] at hother
    rw [List.mem_singleton.mp hother] at hcompute
    exact absurd hcompute (by decide)
  · exact fun _ => hpending
  · intro hpublish
    rw [hpending .publish (by decide)] at hpublish
    exact absurd hpublish (by decide)

/-- A stage that may begin begins after ingest. -/
theorem MayBegin.ingested (h : MayBegin capacity stage state) (hsound : Sound capacity state)
    (hstage : stage ≠ .ingest) : (state.stages .ingest).status = .succeeded := by
  by_contra hnot
  have hpending := hsound.ingested hnot
  have hprerequisites := h.prerequisites
  cases stage with
  | ingest => exact hstage rfl
  | publish =>
    have hdone := hprerequisites .metrics (by decide)
    rw [hpending .metrics (by decide)] at hdone
    exact absurd hdone (by decide)
  | metrics => exact hnot (hprerequisites .ingest (by decide))
  | lifecycle => exact hnot (hprerequisites .ingest (by decide))
  | pageWeek => exact hnot (hprerequisites .ingest (by decide))
  | patrol => exact hnot (hprerequisites .ingest (by decide))

theorem MayBegin.sound {found : PipelineState} (h : MayBegin capacity stage found)
    (hsound : Sound capacity found) (hstage : stage ≠ .ingest)
    (hactive : activeStages state = activeStages found) (hstages : state.stages = found.stages) :
    Sound capacity (started args stage runId state) := by
  have hnow : activeStages (started args stage runId state) = activeStages found ++ [stage] := by
    rw [activeStages_started, hactive]
    refine distinct_of_nodup (List.nodup_append.mpr ⟨activeStages_nodup found,
      List.nodup_singleton stage, fun a ha b hb heq => ?_⟩)
    rw [List.mem_singleton.mp hb] at heq
    exact h.idle (heq ▸ ha)
  have hother : ∀ other, other ≠ stage →
      (started args stage runId state).stages other = found.stages other := by
    intro other hne
    rw [stages_started_of_ne hne, hstages]
  constructor
  · exact normal_of_set rfl rfl
  · intro other
    rw [hnow, List.mem_append, List.mem_singleton]
    by_cases heq : other = stage
    · subst heq
      exact ⟨fun _ => stages_started_self.1, fun _ => Or.inr rfl⟩
    · rw [hother other heq, ← hsound.active other, or_iff_left heq]
  -- A stage that is no compute stage runs alone: it was allowed only without any other.
  · intro other hin hcompute
    rw [hnow] at hin ⊢
    by_cases hkind : isCompute stage = true
    · rcases List.mem_append.mp hin with hin | hin
      · exact absurd ((h.beside hkind).1 other hin) (by simp [hcompute])
      · rw [List.mem_singleton.mp hin, hkind] at hcompute
        exact absurd hcompute (by decide)
    · rw [h.alone (Bool.not_eq_true _ ▸ hkind)] at hin ⊢
      rw [List.mem_singleton.mp hin]
      rfl
  -- The limit of the compute stages was checked with this one not yet among them.
  · rintro ⟨other, hin, hcompute⟩
    rw [hnow] at hin ⊢
    by_cases hkind : isCompute stage = true
    · obtain ⟨-, limit, hlimit, hlt⟩ := h.beside hkind
      exact ⟨limit, hlimit, by rw [List.length_append, List.length_singleton]; omega⟩
    · rw [h.alone (Bool.not_eq_true _ ▸ hkind)] at hin
      rw [List.mem_singleton.mp hin] at hcompute
      exact absurd hcompute hkind
  · intro hingest
    rw [hother .ingest hstage.symm] at hingest
    exact absurd (h.ingested hsound hstage) hingest
  · intro hpublish other hcompute
    by_cases heq : stage = .publish
    · subst heq
      have hne : other ≠ .publish := (isCompute_iff.mp hcompute).2
      rw [hother other hne]
      refine h.prerequisites other ?_
      exact List.contains_iff_mem.mp hcompute
    · -- publish runs alone, so nothing could have begun beside it
      rw [hother .publish (Ne.symm heq)] at hpublish
      have hin := (hsound.active .publish).mpr hpublish
      have hkind : isCompute stage = true := isCompute_iff.mpr ⟨hstage, heq⟩
      exact absurd ((h.beside hkind).1 .publish hin) (by decide)

theorem Starts.sound {file : Option PipelineState} (h : Starts capacity args file stage state)
    (hsound : ∀ before ∈ file, Sound capacity before) :
    Sound capacity (started args stage runId state) := by
  cases h with
  | fresh hfresh => exact hfresh.sound
  | later hstage _ hactive hstages hmay =>
    have hbefore := hsound _ rfl
    exact hmay.sound (hbefore.revoked (revoked_recoveredState _ hbefore.normal)) hstage
      hactive hstages

theorem stages_ended_self {entry : Entry} {whenDrained : PipelineState → Status} :
    (ended args state stage entry whenDrained).stages stage = entry := Function.update_self ..

theorem stages_ended_of_ne {entry : Entry} {whenDrained : PipelineState → Status} {other : Stage}
    (h : other ≠ stage) :
    (ended args state stage entry whenDrained).stages other = state.stages other :=
  Function.update_of_ne h ..

theorem Sound.ended {entry : Entry} {whenDrained : PipelineState → Status}
    (h : Sound capacity state) (hin : stage ∈ activeStages state)
    (hstatus : entry.status ≠ .running) :
    Sound capacity (ended args state stage entry whenDrained) := by
  have hactive : activeStages (Pipeline.ended args state stage entry whenDrained)
      = (activeStages state).filter (· ≠ stage) := by
    have hset : activeStages (Pipeline.ended args state stage entry whenDrained)
        = distinct ((activeStages state).filter (· ≠ stage)) :=
      activeStages_setActiveStages (setStage state stage entry) _
    rw [hset]
    exact distinct_of_nodup ((activeStages_nodup state).filter _)
  -- The other stages go on as they did, so what bounds them bounds them still.
  have hsub : ((activeStages state).filter (· ≠ stage)).Sublist (activeStages state) :=
    List.filter_sublist
  constructor
  · exact normal_of_set rfl rfl
  · intro other
    rw [hactive, List.mem_filter, decide_eq_true_eq]
    by_cases heq : other = stage
    · subst heq
      rw [stages_ended_self]
      exact ⟨fun hboth => absurd rfl hboth.2, fun hrunning => absurd hrunning hstatus⟩
    · rw [stages_ended_of_ne heq, ← h.active other]
      exact ⟨fun hboth => hboth.1, fun hin => ⟨hin, heq⟩⟩
  · intro other hother hcompute
    rw [hactive] at hother ⊢
    have hone := h.alone other (hsub.subset hother) hcompute
    rw [hone] at hsub hother ⊢
    rcases List.sublist_singleton.mp hsub with hnil | hsame
    · rw [hnil] at hother
      exact absurd hother List.not_mem_nil
    · exact hsame
  · rw [hactive]
    exact h.bounded_of_subset hsub
  · intro hingest other hne
    have hrunning := (h.active stage).mp hin
    by_cases heq : stage = .ingest
    · subst heq
      rw [stages_ended_of_ne hne]
      exact h.ingested (by rw [hrunning]; decide) other hne
    · -- a stage that runs while ingest has not succeeded
      rw [stages_ended_of_ne (Ne.symm heq)] at hingest
      rw [h.ingested hingest stage heq] at hrunning
      exact absurd hrunning (by decide)
  · intro hpublish
    by_cases heq : stage = .publish
    · subst heq
      rw [stages_ended_self] at hpublish
      exact absurd hpublish hstatus
    · rw [stages_ended_of_ne (Ne.symm heq)] at hpublish
      have hone := h.alone .publish ((h.active .publish).mpr hpublish) (by decide)
      rw [hone] at hin
      exact absurd (List.mem_singleton.mp hin) heq

theorem Ends.sound {command : CommandName} {state' : PipelineState}
    (h : Ends args stage runId state command state') (howns : owns state stage runId = true)
    (hsound : Sound capacity state) : Sound capacity state' := by
  obtain ⟨hin, hrunning, -⟩ := owns_eq_true howns
  cases h with
  | complete whenDrained => exact hsound.ended hin (by simp)
  | fail message whenDrained => exact hsound.ended hin (by simp)
  | heartbeat =>
    have hstatus : ∀ other, ((setStage state stage { state.stages stage with
        heartbeatAt := some (args.clock .entered) }).stages other).status
          = (state.stages other).status := by
      intro other
      by_cases heq : other = stage
      · subst heq
        rw [stages_setStage_self]
      · rw [stages_setStage_of_ne heq]
    constructor
    · have hnormal := hsound.normal
      have hactive := congrArg PipelineState.activeStages hnormal
      have hcurrent := congrArg PipelineState.currentStage hnormal
      exact @normal_of_set _ (activeStages state) hactive.symm hcurrent.symm
    · exact fun other => (hsound.active other).trans (by rw [← hstatus other])
    · exact hsound.alone
    · exact hsound.bounded
    · intro hingest other hne
      exact (hstatus other).trans
        (hsound.ingested (fun h => hingest ((hstatus .ingest).trans h)) other hne)
    · intro hpublish other hcompute
      exact (hstatus other).trans
        (hsound.published ((hstatus .publish).symm.trans hpublish) other hcompute)

end Kept

/-! ## Runs -/

/-- One command, with what the file held before and after. -/
structure Turn where
  before : Option PipelineState
  command : CommandName
  args : Args
  answer : Except String Answer
  after : Option PipelineState

/-- Commands on one state file, in any order, each atomic. -/
def pipeline (capacity : CapacityPolicy) : System (Option PipelineState) Turn where
  init file := file = none
  step file turn file' := turn.before = file ∧ turn.after = file' ∧
    (main capacity turn.command turn.args).exec file = (turn.answer, file')

def Turn.Accepted (turn : Turn) (command : CommandName) (stage : Stage) (runId : String) : Prop :=
  turn.command = command ∧ Names turn.args stage runId ∧ ∃ a, turn.answer = .ok a

/-- What the file says of a stage. -/
def entryOf (file : Option PipelineState) (stage : Stage) : Entry :=
  match file with
  | none => {}
  | some state => state.stages stage

def RunningAs (file : Option PipelineState) (stage : Stage) (runId : String) : Prop :=
  (entryOf file stage).status = .running ∧ (entryOf file stage).runId = some runId

/-- All a command can do to one entry. -/
inductive Change (turn : Turn) (stage : Stage) (before after : Entry) : Prop
  | same (hstatus : after.status = before.status) (hrunId : after.runId = before.runId)
  | began (runId : String) (h : turn.Accepted .begin stage runId)
    (hstatus : after.status = .running)
      (hrunId : after.runId = some runId)
  | completed (runId : String) (h : turn.Accepted .complete stage runId)
      (hbefore : before.status = .running) (hrunId : before.runId = some runId)
      (hstatus : after.status = .succeeded)
  | reset (hstatus : after.status = .failed ∨ after.status = .pending)

/-- What one command does to the whole document. -/
structure Step (capacity : CapacityPolicy) (turn : Turn) (before after : Option PipelineState) :
    Prop where
  sound : ∀ state ∈ after, Sound capacity state
  change : ∀ stage, Change turn stage (entryOf before stage) (entryOf after stage)
  /-- The snapshot changes with an ingest only. -/
  snapshot : after.map PipelineState.snapshot = before.map PipelineState.snapshot ∨
    ∃ runId, turn.Accepted .begin .ingest runId ∧ RunningAs after .ingest runId
  ingest : ∀ runId, turn.Accepted .begin .ingest runId →
    supplied turn.args.snapshot = after.map PipelineState.snapshot
  /-- A publication begins when every compute stage has succeeded. -/
  publish : ∀ runId, turn.Accepted .begin .publish runId →
    ∀ stage, isCompute stage = true → (entryOf before stage).status = .succeeded

theorem Stage.name_injective : Function.Injective Stage.name := by
  intro a b h
  cases a <;> cases b <;> simp_all [Stage.name]

theorem Names.eq {args : Args} {stage other : Stage} {runId otherId : String}
    (h : Names args stage runId) (hother : Names args other otherId) :
    stage = other ∧ runId = otherId :=
  ⟨Stage.name_injective (Option.some.inj (h.stage.symm.trans hother.stage)),
    Option.some.inj (h.runId.symm.trans hother.runId)⟩

/-- A revoked lease is all that recovery changes. -/
theorem Revoked.change {state state' : PipelineState} (h : Revoked state state') (turn : Turn)
    (stage : Stage) : Change turn stage (state.stages stage) (state'.stages stage) := by
  by_cases hin : stage ∈ activeStages state
  · by_cases hstill : stage ∈ activeStages state'
    · rw [h.kept stage hstill]
      exact .same rfl rfl
    · exact .reset (Or.inl (h.failed stage hin hstill))
  · rw [h.idle stage hin]
    exact .same rfl rfl

/-- What has succeeded after recovery had succeeded before. -/
theorem Revoked.succeeded {state state' : PipelineState} (h : Revoked state state') {stage : Stage}
    (hstatus : (state'.stages stage).status = .succeeded) :
    (state.stages stage).status = .succeeded := by
  by_cases hin : stage ∈ activeStages state
  · by_cases hstill : stage ∈ activeStages state'
    · rw [← h.kept stage hstill]
      exact hstatus
    · rw [h.failed stage hin hstill] at hstatus
      exact absurd hstatus (by decide)
  · rw [← h.idle stage hin]
    exact hstatus

section OneStep

variable {capacity : CapacityPolicy} {turn : Turn} {file file' : Option PipelineState}

/-- A command that only recovers, or does nothing. -/
theorem Step.refused (hsound : ∀ state ∈ file, Sound capacity state)
    (hrefused : ¬ ∃ a, turn.answer = .ok a)
    (hfile : file' = file ∨
      ∃ state, file = some state ∧ file' = some (recoveredState turn.args state)) :
    Step capacity turn file file' := by
  have hnever : ∀ {command stage runId}, ¬ turn.Accepted command stage runId :=
    fun h => hrefused h.2.2
  rcases hfile with rfl | ⟨state, rfl, rfl⟩
  · exact ⟨hsound, fun _ => .same rfl rfl, Or.inl rfl, fun _ h => absurd h hnever,
      fun _ h => absurd h hnever⟩
  · have hrevoked := revoked_recoveredState turn.args (hsound state rfl).normal
    refine ⟨?_, hrevoked.change turn, Or.inl (congrArg some hrevoked.snapshot),
      fun _ h => absurd h hnever, fun _ h => absurd h hnever⟩
    intro after hafter
    obtain rfl := Option.some.inj hafter
    exact (hsound state rfl).revoked hrevoked

theorem Step.unchanged (hsound : ∀ state ∈ file, Sound capacity state)
    (hcommand : turn.command ≠ .begin) : Step capacity turn file file :=
  ⟨hsound, fun _ => .same rfl rfl, Or.inl rfl, fun _ h => absurd h.1 hcommand,
    fun _ h => absurd h.1 hcommand⟩

theorem Step.started {stage : Stage} {runId : String} {state : PipelineState}
    (hsound : ∀ before ∈ file, Sound capacity before)
    (haccepted : turn.Accepted .begin stage runId)
    (hstarts : Starts capacity turn.args file stage state) :
    Step capacity turn file (some (started turn.args stage runId state)) := by
  have hsoundAfter : Sound capacity (Pipeline.started turn.args stage runId state) :=
    hstarts.sound hsound
  have hself : Change turn stage (entryOf file stage)
      ((Pipeline.started turn.args stage runId state).stages stage) :=
    .began runId haccepted stages_started_self.1 stages_started_self.2
  have hother : ∀ {other otherId}, turn.Accepted .begin other otherId → other = stage :=
    fun h => (h.2.1.eq haccepted.2.1).1
  cases hstarts with
  | fresh hfresh =>
    refine ⟨fun _ h => Option.some.inj h ▸ hsoundAfter, fun other => ?_,
      Or.inr ⟨runId, haccepted, stages_started_self⟩, fun _ _ => hfresh.snapshot,
      fun _ h => absurd (hother h) (by decide)⟩
    by_cases heq : other = .ingest
    · exact heq ▸ hself
    · refine .reset (Or.inr ?_)
      show ((Pipeline.started turn.args .ingest runId state).stages other).status = .pending
      rw [stages_started_of_ne heq, hfresh.blank]
      rfl
  | later hstage hsnapshot hactive hstages hmay =>
    rename_i before
    have hrevoked := revoked_recoveredState turn.args (hsound before rfl).normal
    refine ⟨fun _ h => Option.some.inj h ▸ hsoundAfter, fun other => ?_,
      Or.inl (congrArg some hsnapshot), fun _ h => absurd (hother h).symm hstage,
      fun _ h compute hcompute => ?_⟩
    · by_cases heq : other = stage
      · exact heq ▸ hself
      · show Change turn other _ ((Pipeline.started turn.args stage runId state).stages other)
        rw [stages_started_of_ne heq, hstages]
        exact hrevoked.change turn other
    · obtain rfl := hother h
      exact hrevoked.succeeded (hmay.prerequisites compute (List.contains_iff_mem.mp hcompute))

theorem Ends.snapshot {args : Args} {stage : Stage} {runId : String} {command : CommandName}
    {state state' : PipelineState} (h : Ends args stage runId state command state') :
    state'.snapshot = state.snapshot := by
  cases h <;> rfl

theorem Step.ends {stage : Stage} {runId : String} {state state' : PipelineState}
    (hsound : Sound capacity state) (hcommand : turn.command ≠ .begin)
    (haccepted : turn.Accepted turn.command stage runId) (howns : owns state stage runId = true)
    (hends : Ends turn.args stage runId state turn.command state') :
    Step capacity turn (some state) (some state') := by
  have hsoundAfter := hends.sound howns hsound
  obtain ⟨-, hrunning, hrunId⟩ := owns_eq_true howns
  refine ⟨fun _ h => Option.some.inj h ▸ hsoundAfter, fun other => ?_, Or.inl ?_,
    fun _ h => absurd h.1 hcommand, fun _ h => absurd h.1 hcommand⟩
  · show Change turn other (state.stages other) (state'.stages other)
    generalize hname : turn.command = command at hends haccepted
    cases hends with
    | heartbeat =>
      by_cases heq : other = stage
      · subst heq
        refine .same ?_ ?_ <;> simp [setStage]
      · exact .same (by simp [setStage, heq]) (by simp [setStage, heq])
    | complete whenDrained =>
      by_cases heq : other = stage
      · subst heq
        refine .completed runId haccepted hrunning hrunId ?_
        rw [stages_ended_self]
      · rw [stages_ended_of_ne heq]
        exact .same rfl rfl
    | fail message whenDrained =>
      by_cases heq : other = stage
      · subst heq
        refine .reset (Or.inl ?_)
        rw [stages_ended_self]
      · rw [stages_ended_of_ne heq]
        exact .same rfl rfl
  · exact congrArg some hends.snapshot

/-- What any command does, refused or not. -/
theorem pipeline_step (hsound : ∀ state ∈ file, Sound capacity state)
    (hstep : (pipeline capacity).step file turn file') : Step capacity turn file file' := by
  obtain ⟨-, -, hexec⟩ := hstep
  have hnormal : ∀ state ∈ file, setActiveStages state (activeStages state) = state :=
    fun state hstate => (hsound state hstate).normal
  by_cases hbegin : turn.command = .begin
  · rw [hbegin] at hexec
    rcases begin_cases hnormal hexec with ⟨e, hanswer, hfile⟩ |
      ⟨stage, runId, state, a, hanswer, hnames, hstarts, rfl⟩
    · refine .refused hsound ?_ hfile
      rintro ⟨a, ha⟩
      exact absurd (hanswer.symm.trans ha) (by simp)
    · exact .started hsound ⟨hbegin, hnames, a, hanswer⟩ hstarts
  · rcases other_cases hbegin hnormal hexec with rfl |
      ⟨stage, runId, state, state', a, rfl, rfl, hanswer, hnames, howns, hends⟩
    · exact .unchanged hsound hbegin
    · exact .ends (hsound state rfl) hbegin ⟨rfl, hnames, a, hanswer⟩ howns hends

end OneStep

/-! ## Histories -/

/-- The stage was begun by this run and has been running as its own ever since. -/
def RunningSince (turns before : List Turn) (began : Turn) (stage : Stage) (runId : String) :
    Prop :=
  ∃ during, turns = before ++ began :: during ∧ began.Accepted .begin stage runId ∧
    ∀ turn ∈ began :: during, RunningAs turn.after stage runId

/-- The stage was begun by this run, was running as its own until the run completed
it, and has been succeeded ever since. -/
def CompletedSince (turns before : List Turn) (began : Turn) (stage : Stage) (runId : String) :
    Prop :=
  ∃ during ended since, turns = before ++ began :: (during ++ ended :: since) ∧
    began.Accepted .begin stage runId ∧
      (∀ turn ∈ began :: during, RunningAs turn.after stage runId) ∧
    ended.Accepted .complete stage runId ∧
    ∀ turn ∈ ended :: since, (entryOf turn.after stage).status = .succeeded

/-- What the command that began a stage relied on: ingest was given the snapshot, and
publish came after the completion of every compute stage. -/
structure Origin (before : List Turn) (began : Turn) (stage : Stage) (file : Option PipelineState) :
    Prop where
  ingest : stage = .ingest → supplied began.args.snapshot = file.map PipelineState.snapshot
  publish : stage = .publish → ∀ compute, isCompute compute = true →
    ∃ runId earlier first, CompletedSince before earlier first compute runId

/-- Where the entries of the document come from. -/
structure History (turns : List Turn) (file : Option PipelineState) : Prop where
  running : ∀ stage, (entryOf file stage).status = .running →
    ∃ runId before began, (entryOf file stage).runId = some runId ∧
      RunningSince turns before began stage runId ∧ Origin before began stage file
  succeeded : ∀ stage, (entryOf file stage).status = .succeeded →
    ∃ runId before began, CompletedSince turns before began stage runId ∧
      Origin before began stage file

theorem RunningSince.snoc {turns before : List Turn} {began turn : Turn} {stage : Stage}
    {runId : String} (h : RunningSince turns before began stage runId)
    (hturn : RunningAs turn.after stage runId) :
    RunningSince (turns ++ [turn]) before began stage runId := by
  obtain ⟨during, rfl, haccepted, hduring⟩ := h
  refine ⟨during ++ [turn], by simp, haccepted, ?_⟩
  rw [← List.cons_append]
  exact List.forall_mem_append.mpr ⟨hduring, List.forall_mem_singleton.mpr hturn⟩

theorem RunningSince.completed {turns before : List Turn} {began turn : Turn} {stage : Stage}
    {runId : String} (h : RunningSince turns before began stage runId)
    (haccepted : turn.Accepted .complete stage runId)
    (hturn : (entryOf turn.after stage).status = .succeeded) :
    CompletedSince (turns ++ [turn]) before began stage runId := by
  obtain ⟨during, rfl, hbegan, hduring⟩ := h
  exact ⟨during, turn, [], by simp, hbegan, hduring, haccepted,
    List.forall_mem_singleton.mpr hturn⟩

theorem CompletedSince.snoc {turns before : List Turn} {began turn : Turn} {stage : Stage}
    {runId : String} (h : CompletedSince turns before began stage runId)
    (hturn : (entryOf turn.after stage).status = .succeeded) :
    CompletedSince (turns ++ [turn]) before began stage runId := by
  obtain ⟨during, ended, since, rfl, hbegan, hduring, hended, hsince⟩ := h
  refine ⟨during, ended, since ++ [turn], by simp, hbegan, hduring, hended, ?_⟩
  rw [← List.cons_append]
  exact List.forall_mem_append.mpr ⟨hsince, List.forall_mem_singleton.mpr hturn⟩

section Histories

variable {capacity : CapacityPolicy} {turn : Turn} {turns : List Turn}
  {file file' : Option PipelineState}

/-- The origin of a stage is kept until the next ingest. -/
theorem Origin.step {before : List Turn} {began : Turn} {stage : Stage}
    (h : Origin before began stage file)
    (hsnapshot : file'.map PipelineState.snapshot = file.map PipelineState.snapshot) :
    Origin before began stage file' :=
  ⟨fun hingest => (h.ingest hingest).trans hsnapshot.symm, h.publish⟩

/-- A stage begun just now. -/
theorem History.began (h : History turns file) (hstep : Step capacity turn file file')
    (hafter : turn.after = file') {stage : Stage} {runId : String}
    (haccepted : turn.Accepted .begin stage runId) (hrunning : RunningAs file' stage runId) :
    ∃ runId before began, (entryOf file' stage).runId = some runId ∧
      RunningSince (turns ++ [turn]) before began stage runId ∧
        Origin before began stage file' := by
  refine ⟨runId, turns, turn, hrunning.2, ⟨[], rfl, haccepted, ?_⟩, fun hingest => ?_,
    fun hpublish compute hcompute => ?_⟩
  · exact List.forall_mem_singleton.mpr (hafter ▸ hrunning)
  · subst hingest
    exact hstep.ingest runId haccepted
  · subst hpublish
    obtain ⟨computeId, earlier, first, hcompleted, -⟩ :=
      h.succeeded compute (hstep.publish runId haccepted compute hcompute)
    exact ⟨computeId, earlier, first, hcompleted⟩

theorem History.step (h : History turns file) (hstep : Step capacity turn file file')
    (hafter : turn.after = file') : History (turns ++ [turn]) file' := by
  -- unless an ingest has just begun, the snapshot is the same
  have hcases : ∀ stage, (∃ runId, turn.Accepted .begin stage runId ∧ RunningAs file' stage runId) ∨
      ∀ {before began}, Origin before began stage file → Origin before began stage file' := by
    intro stage
    rcases hstep.snapshot with hsame | ⟨runId, haccepted, hrunning⟩
    · exact Or.inr fun horigin => horigin.step hsame
    · by_cases hingest : stage = .ingest
      · subst hingest
        exact Or.inl ⟨runId, haccepted, hrunning⟩
      · exact Or.inr fun horigin => ⟨fun heq => absurd heq hingest, horigin.publish⟩
  constructor
  · intro stage hrunning
    rcases hcases stage with ⟨runId, haccepted, hnow⟩ | horigin
    · exact h.began hstep hafter haccepted hnow
    cases hstep.change stage with
    | same hstatus hrunId =>
      obtain ⟨runId, before, began, hid, hsince, hfrom⟩ := h.running stage (hstatus ▸ hrunning)
      refine ⟨runId, before, began, hrunId.trans hid, hsince.snoc ?_, horigin hfrom⟩
      exact hafter ▸ ⟨hrunning, hrunId.trans hid⟩
    | began runId haccepted hstatus hrunId =>
      exact h.began hstep hafter haccepted ⟨hstatus, hrunId⟩
    | completed runId haccepted hbefore hrunId hstatus =>
      rw [hstatus] at hrunning
      exact absurd hrunning (by decide)
    | reset hstatus =>
      rcases hstatus with hstatus | hstatus <;>
      · rw [hstatus] at hrunning
        exact absurd hrunning (by decide)
  · intro stage hsucceeded
    rcases hcases stage with ⟨runId, -, hnow⟩ | horigin
    · rw [hnow.1] at hsucceeded
      exact absurd hsucceeded (by decide)
    have hturn : (entryOf turn.after stage).status = .succeeded := hafter ▸ hsucceeded
    cases hstep.change stage with
    | same hstatus hrunId =>
      obtain ⟨runId, before, began, hsince, hfrom⟩ := h.succeeded stage (hstatus ▸ hsucceeded)
      exact ⟨runId, before, began, hsince.snoc hturn, horigin hfrom⟩
    | began runId haccepted hstatus hrunId =>
      rw [hstatus] at hsucceeded
      exact absurd hsucceeded (by decide)
    | completed runId haccepted hbefore hrunId hstatus =>
      obtain ⟨otherId, before, began, hid, hsince, hfrom⟩ := h.running stage hbefore
      obtain rfl : otherId = runId := Option.some.inj (hid.symm.trans hrunId)
      exact ⟨otherId, before, began, hsince.completed haccepted hturn, horigin hfrom⟩
    | reset hstatus =>
      rcases hstatus with hstatus | hstatus <;>
      · rw [hstatus] at hsucceeded
        exact absurd hsucceeded (by decide)

end Histories

/-- Every document a run of commands leaves is sound and has its history. -/
theorem run_history {capacity : CapacityPolicy} {turns : List Turn} {file : Option PipelineState}
    (hrun : (pipeline capacity).Run none turns file) :
    (∀ state ∈ file, Sound capacity state) ∧ History turns file := by
  induction hrun with
  | nil =>
    refine ⟨fun _ h => absurd h (by simp), ⟨fun stage h => absurd h ?_, fun stage h => absurd h ?_⟩⟩
    · show Status.pending ≠ .running
      decide
    · show Status.pending ≠ .succeeded
      decide
  | snoc hrun hlast ih =>
    obtain ⟨hsound, hhistory⟩ := ih
    have hstep := pipeline_step hsound hlast
    exact ⟨hstep.sound, hhistory.step hstep hlast.2.1⟩

/-- What the coordinator promises of the document the commands left. -/
structure Lawful (capacity : CapacityPolicy) (turns : List Turn) (state : PipelineState) :
    Prop where
  active : ∃ active, state.activeStages = some active ∧ active.Nodup ∧
    ∀ stage, stage ∈ active ↔ (state.stages stage).status = .running
  /-- Ingest and publish overlap no other stage. -/
  alone : ∀ stage other, isCompute stage = false → (state.stages stage).status = .running →
    (state.stages other).status = .running → other = stage
  bounded : ∀ running : List Stage, running.Nodup →
    (∀ stage ∈ running, isCompute stage = true ∧ (state.stages stage).status = .running) →
    running ≠ [] → ∃ limit, parallelStageCapacity capacity = .ok limit ∧ running.length ≤ limit
  /-- Success is only by `complete`, from the run that began the stage and kept it. -/
  succeeded : ∀ stage, (state.stages stage).status = .succeeded →
    ∃ runId before began, CompletedSince turns before began stage runId
  ingested : ∀ stage, isCompute stage = true →
    (state.stages stage).status = .running ∨ (state.stages stage).status = .succeeded →
    (state.stages .ingest).status = .succeeded ∧
      ∃ runId before began, CompletedSince turns before began .ingest runId ∧
        supplied began.args.snapshot = some state.snapshot
  publishing : (state.stages .publish).status = .running →
    (∀ stage, isCompute stage = true → (state.stages stage).status = .succeeded) ∧
      ∃ runId before began, RunningSince turns before began .publish runId ∧
        ∀ stage, isCompute stage = true →
          ∃ runId earlier first, CompletedSince before earlier first stage runId
  /-- The compute stages had all been completed before the publication began; they may
  have been begun again since it ended. -/
  published : (state.stages .publish).status = .succeeded →
    ∃ runId before began, CompletedSince turns before began .publish runId ∧
      ∀ stage, isCompute stage = true →
        ∃ runId earlier first, CompletedSince before earlier first stage runId

/-- **The stages run in order, and nothing is published before all is computed**,
whatever commands are given, in whatever order, by whatever runs. -/
theorem pipeline_lawful {capacity : CapacityPolicy} {turns : List Turn} {state : PipelineState}
    (hrun : (pipeline capacity).Run none turns (some state)) : Lawful capacity turns state := by
  obtain ⟨hsound, hhistory⟩ := run_history hrun
  have hs := hsound state rfl
  constructor
  · refine ⟨activeStages state, ?_, activeStages_nodup state, hs.active⟩
    have hfield := congrArg PipelineState.activeStages hs.normal
    rw [← hfield]
    exact congrArg some (distinct_of_nodup (activeStages_nodup state))
  · intro stage other hcompute hrunning hother
    have hone := hs.alone stage ((hs.active stage).mpr hrunning) hcompute
    have hin := (hs.active other).mpr hother
    rw [hone] at hin
    exact List.mem_singleton.mp hin
  · intro running hnodup hrunning hne
    obtain ⟨first, hfirst⟩ := List.exists_mem_of_ne_nil running hne
    have hsub : running ⊆ activeStages state :=
      fun stage hstage => (hs.active stage).mpr (hrunning stage hstage).2
    obtain ⟨limit, hlimit, hle⟩ := hs.bounded ⟨first, hsub hfirst, (hrunning first hfirst).1⟩
    exact ⟨limit, hlimit, (List.subperm_of_subset hnodup hsub).length_le.trans hle⟩
  · intro stage hstatus
    obtain ⟨runId, before, began, hcompleted, -⟩ := hhistory.succeeded stage hstatus
    exact ⟨runId, before, began, hcompleted⟩
  · intro stage hcompute hstatus
    have hingest : (state.stages .ingest).status = .succeeded := by
      by_contra hnot
      have hpending := hs.ingested hnot stage (isCompute_iff.mp hcompute).1
      rw [hpending] at hstatus
      exact absurd hstatus (by decide)
    obtain ⟨runId, before, began, hcompleted, horigin⟩ := hhistory.succeeded .ingest hingest
    exact ⟨hingest, runId, before, began, hcompleted, horigin.ingest rfl⟩
  · intro hstatus
    obtain ⟨runId, before, began, -, hsince, horigin⟩ := hhistory.running .publish hstatus
    exact ⟨hs.published hstatus, runId, before, began, hsince, horigin.publish rfl⟩
  · intro hstatus
    obtain ⟨runId, before, began, hcompleted, horigin⟩ := hhistory.succeeded .publish hstatus
    exact ⟨runId, before, began, hcompleted, horigin.publish rfl⟩

/-! ## A run -/

/-- What the file holds after these commands, given in order. -/
def fileAfter (capacity : CapacityPolicy) (file : Option PipelineState) :
    List (CommandName × Args) → Option PipelineState
  | [] => file
  | command :: rest =>
    fileAfter capacity ((main capacity command.1 command.2).exec file).2 rest

def turnsOf (capacity : CapacityPolicy) (file : Option PipelineState) :
    List (CommandName × Args) → List Turn
  | [] => []
  | command :: rest =>
    let result := (main capacity command.1 command.2).exec file
    { before := file, command := command.1, args := command.2, answer := result.1
      after := result.2 } :: turnsOf capacity result.2 rest

theorem run_turnsOf {capacity : CapacityPolicy} {start file : Option PipelineState}
    {turns : List Turn} (commands : List (CommandName × Args))
    (hrun : (pipeline capacity).Run start turns file) :
    (pipeline capacity).Run start (turns ++ turnsOf capacity file commands)
      (fileAfter capacity file commands) := by
  induction commands generalizing file turns with
  | nil =>
    show (pipeline capacity).Run start (turns ++ []) file
    rw [List.append_nil]
    exact hrun
  | cons command rest ih =>
    show (pipeline capacity).Run start (turns ++ (_ :: turnsOf capacity _ rest)) _
    rw [List.append_cons]
    exact ih (.snoc hrun ⟨rfl, rfl, rfl⟩)

/-- The capacity policy of the deployment. -/
def toolforgeCapacity : CapacityPolicy where
  workerReserveResourceClasses := some ["admin_dispatcher", "publisher"]
  resourceRequests name :=
    if name = "admin_dispatcher" then some 536870912
    else if name = "publisher" then some 6442450944
    else if name = "pipeline" then some 6442450944
    else none
  resourceCpuRequestsMillicores name :=
    if name = "admin_dispatcher" then some 250
    else if name = "publisher" then some 4000
    else if name = "pipeline" then some 4000
    else none
  namespaceMemoryLimitBytes := some 25769803776
  residentServiceMemoryBytes := some 536870912
  namespaceCpuLimitMillicores := some 16000
  residentServiceCpuMillicores := some 1000

def sampleArgs (stage : Stage) : Args where
  stage := some stage.name
  runId := some "run-1"
  wikisJson := some (.array [some "enwiki", some "dewiki"])
  snapshot := some "2025-01"
  clock _ := 0

/-- One stage from its beginning to its completion. -/
def stageCommands (stage : Stage) : List (CommandName × Args) :=
  [(.begin, sampleArgs stage), (.complete, sampleArgs stage)]

/-- All the stages once, and then the metrics again. -/
def recomputeCommands : List (CommandName × Args) :=
  allStages.flatMap stageCommands ++ [(.begin, sampleArgs .metrics)]

theorem recomputed : ∃ state, (pipeline toolforgeCapacity).Run none
    (turnsOf toolforgeCapacity none recomputeCommands) (some state) ∧
      (state.stages .publish).status = .succeeded ∧ (state.stages .metrics).status = .running := by
  have hstart : (pipeline toolforgeCapacity).Run none [] none := .nil none
  have hrun := run_turnsOf recomputeCommands hstart
  have hfile : ((fileAfter toolforgeCapacity none recomputeCommands).map fun state =>
      ((state.stages .publish).status, (state.stages .metrics).status))
        = some (.succeeded, .running) := by
    decide +kernel
  obtain ⟨state, hstate, hstatus⟩ := Option.map_eq_some_iff.mp hfile
  rw [hstate] at hrun
  exact ⟨state, hrun, (Prod.mk.inj hstatus).1, (Prod.mk.inj hstatus).2⟩

theorem pipeline_lawful_recomputed : ∃ state,
    (state.stages .publish).status = .succeeded ∧
      Lawful toolforgeCapacity (turnsOf toolforgeCapacity none recomputeCommands) state := by
  obtain ⟨state, hrun, hpublish, -⟩ := recomputed
  exact ⟨state, hpublish, pipeline_lawful hrun⟩

/-- A compute stage may be begun again after publish: a publication that succeeded does
not mean that every compute stage still is succeeded. -/
theorem published_while_recomputing : ¬ ∀ turns state,
    (pipeline toolforgeCapacity).Run none turns (some state) →
    (state.stages .publish).status = .running ∨ (state.stages .publish).status = .succeeded →
    ∀ stage, isCompute stage = true → (state.stages stage).status = .succeeded := by
  intro h
  obtain ⟨state, hrun, hpublish, hmetrics⟩ := recomputed
  have hall := h _ _ hrun (Or.inr hpublish) .metrics (by decide)
  rw [hmetrics] at hall
  exact absurd hall (by decide)

end WikiEcon.Toolforge.Pipeline
