import WikiEcon.Patrol.RightsTimeline

/-!
# Rights carried from month to month

The users are carried over the months of the timeline, written down every December
and restored by later runs, which may stop anywhere. `CacheSound` is the invariant of
the checkpoints and `HeldThrough` that of the users; the result is that whatever the
calls were, the intervals of a month are those of the whole log.
-/

namespace WikiEcon.Patrol

open Compute Fallible Transition

theorem monthText_injective : Function.Injective monthText := by
  intro a b h
  have htext : ∀ m : YearMonth, monthText m = zeroPad 4 m.year ++ "-" ++ "" ++
    zeroPad 2 m.month := by
    intro m
    unfold monthText formatYearMonth
    rw [key_tdiv, key_tmod, String.append_empty]
  rw [htext, htext] at h
  obtain ⟨hyear, hmonth⟩ := zeroPad_dash_inj (by simp) h
  obtain ⟨_, _, _, _, _⟩ := a
  obtain ⟨_, _, _, _, _⟩ := b
  simp_all

/-! ## Checkpoints -/

theorem strictlySorted_of_pairwise {l : List String} (h : l.Pairwise (· < ·)) :
    strictlySorted l = true := by
  induction l with
  | nil => rfl
  | cons a rest ih =>
    obtain ⟨hfirst, hrest⟩ := List.pairwise_cons.mp h
    cases rest with
    | nil => rfl
    | cons b rest =>
      exact Bool.and_eq_true_iff.mpr ⟨decide_eq_true (hfirst b List.mem_cons_self), ih hrest⟩

theorem RightsCheckpoint.validate_new (sha256 : List UInt8 → String) (m : YearMonth)
    (rightsPrefix groups : String) (active : Finset String) :
    (RightsCheckpoint.new sha256 m rightsPrefix groups active).validate sha256 m rightsPrefix groups
      = .ok () := by
  have hsorted : strictlySorted (active.sort (· ≤ ·)) = true :=
    strictlySorted_of_pairwise (Finset.sortedLT_sort active).pairwise
  refine bind_eq_ok.mpr ⟨(), ensure_eq_ok.mpr ⟨rfl, rfl, rfl, rfl, hsorted⟩, ensure_eq_ok.mpr rfl⟩

section Walks

variable {g : Generation} {rows : List RightsRow}

/-- The checkpoint found for a month is one of the log's own. -/
def CacheSound (g : Generation) (rows : List RightsRow)
    (cache : String → Option RightsCheckpoint) : Prop :=
  ∀ m ∈ g.timelineMonths, ∀ checkpoint, cache (g.checkpointDigest m) = some checkpoint →
    ∃ own ∈ g.timelineMonths, g.checkpointDigest own = g.checkpointDigest m ∧
      ∃ active, HeldBefore g rows (monthEnd own) active ∧
        checkpoint = .new g.sha256 own (g.rightsPrefix own) g.groupsDigest active

/-- The users after the last month that was read. -/
def HeldThrough (g : Generation) (rows : List RightsRow) (last : Option YearMonth)
    (active : Finset String) : Prop :=
  match last with
  | none => active = ∅
  | some m => HeldBefore g rows (monthEnd m) active

/-- No two months of the timeline share a checkpoint file. -/
def CollisionFree (g : Generation) : Prop :=
  ∀ a ∈ g.timelineMonths, ∀ b ∈ g.timelineMonths,
    g.checkpointDigest a = g.checkpointDigest b → a = b

/-- No month is the last one a four-digit year can name. -/
def Bounded (g : Generation) : Prop :=
  ∀ m ∈ g.timelineMonths, ¬ (m.year = 9999 ∧ m.month = 12)

/-- An accepted checkpoint holds the users of its month. -/
theorem CacheSound.accepted {cache : String → Option RightsCheckpoint}
    (h : CacheSound g rows cache) {m : YearMonth} (hm : m ∈ g.timelineMonths)
    {checkpoint : RightsCheckpoint} (hcheckpoint : cache (g.checkpointDigest m) = some checkpoint)
    {u : Unit} (hvalid : checkpoint.validate g.sha256 m (g.rightsPrefix m) g.groupsDigest = .ok u) :
    HeldBefore g rows (monthEnd m) checkpoint.activeUsers.toFinset := by
  obtain ⟨own, -, -, active, hheld, rfl⟩ := h m hm checkpoint hcheckpoint
  obtain ⟨_, hidentity, -⟩ := bind_eq_ok.mp hvalid
  obtain rfl := monthText_injective (ensure_eq_ok.mp hidentity).2.1
  show HeldBefore g rows (monthEnd own) (active.sort (· ≤ ·)).toFinset
  rw [Finset.sort_toFinset]
  exact hheld

theorem CacheSound.store {cache : String → Option RightsCheckpoint}
    (h : CacheSound g rows cache) {m : YearMonth} (hm : m ∈ g.timelineMonths)
    {active : Finset String} (hactive : HeldBefore g rows (monthEnd m) active) :
    CacheSound g rows (Function.update cache (g.checkpointDigest m)
      (some (.new g.sha256 m (g.rightsPrefix m) g.groupsDigest active))) := by
  intro other hother checkpoint hcheckpoint
  by_cases heq : g.checkpointDigest other = g.checkpointDigest m
  · rw [heq, Function.update_self] at hcheckpoint
    exact ⟨m, hm, heq.symm, active, hactive, (Option.some.inj hcheckpoint).symm⟩
  · rw [Function.update_of_ne heq] at hcheckpoint
    exact h other hother checkpoint hcheckpoint

theorem HeldBefore.unique {bound : ℤ} {a b : Finset String} (ha : HeldBefore g rows bound a)
    (hb : HeldBefore g rows bound b) : a = b :=
  Finset.ext fun username => (ha username).trans (hb username).symm

/-- A December is written down, or found as it was written. -/
theorem writeOrValidateCheckpoint_spec {m : YearMonth} (hm : m ∈ g.timelineMonths)
    {walk walk' : Walk}
    {result : Except String Unit}
    (h : (writeOrValidateCheckpoint g m).exec walk = (result, walk'))
    (hcache : CacheSound g rows walk.cache)
    (hactive : HeldBefore g rows (monthEnd m) walk.activeUsers) :
    CacheSound g rows walk'.cache ∧ walk'.activeUsers = walk.activeUsers ∧
      walk'.rightsStateMonth = walk.rightsStateMonth ∧ (CollisionFree g → result = .ok ()) := by
  unfold writeOrValidateCheckpoint at h
  rw [exec_read_bind] at h
  unfold Walk.holds at h
  cases hfound : walk.cache (g.checkpointDigest m) with
  | some checkpoint =>
    rw [hfound] at h
    have hsame : walk' = walk ∧ (CollisionFree g → result = .ok ()) := by
      have hgood : CollisionFree g →
          checkpoint.validate g.sha256 m (g.rightsPrefix m) g.groupsDigest = .ok () ∧
            checkpoint.activeUsers = walk.activeUsers.sort (· ≤ ·) := by
        intro hfree
        obtain ⟨own, hown, hdigest, active, hheld, rfl⟩ := hcache m hm checkpoint hfound
        obtain rfl := hfree own hown m hm hdigest
        obtain rfl := hheld.unique hactive
        exact ⟨RightsCheckpoint.validate_new .., rfl⟩
      rcases lift_bind_cases h with ⟨e, rfl, rfl, he⟩ | ⟨_, -, hrest⟩
      · exact ⟨rfl, fun hfree => absurd ((hgood hfree).1.symm.trans he) (by simp)⟩
      · obtain ⟨rfl, rfl⟩ := Prod.mk.inj hrest
        exact ⟨rfl, fun hfree => ensure_eq_ok.mpr (hgood hfree).2⟩
    obtain ⟨rfl, hok⟩ := hsame
    exact ⟨hcache, rfl, rfl, hok⟩
  | none =>
    rw [hfound] at h
    obtain ⟨rfl, rfl⟩ := Prod.mk.inj h
    exact ⟨hcache.store hm hactive, rfl, rfl, fun _ => rfl⟩

/-! ## From month to month -/

/-- Each event of the log is in the file of some month. -/
theorem month_of_event (hpart : Partitioned g rows) {username : String} {event : MonthEvent}
    (hevent : event ∈ logEvents g.chrono g.autopatrolGroups rows username) :
    ∃ m, (g.rightsArtifacts m).isSome = true ∧ monthStart m ≤ event.timestamp ∧
      event.timestamp < monthEnd m := by
  obtain ⟨read, hread, rfl⟩ := List.mem_map.mp hevent
  obtain ⟨row, hrow, hread⟩ := List.mem_filterMap.mp (List.mem_filter.mp hread).1
  obtain ⟨m, hm⟩ := hpart.covers row hrow
  refine ⟨m, ?_, ?_⟩
  · have hmem : row ∈ g.rowsOf m := (hpart.month m).mem_iff.mpr (List.mem_filter.mpr ⟨hrow, hm⟩)
    unfold Generation.rowsOf at hmem
    cases hartifact : g.rightsArtifacts m with
    | none =>
      rw [hartifact] at hmem
      exact absurd hmem List.not_mem_nil
    | some artifact => rfl
  · rw [rowIn_eq hpart hrow hread m] at hm
    simpa [inRange] using hm

/-- Between two months of the timeline nothing happens. -/
theorem HeldThrough.next (hpart : Partitioned g rows) {earlier later : List YearMonth}
    {m : YearMonth}
    (htimeline : g.timelineMonths = earlier ++ m :: later) {active : Finset String}
    (h : HeldThrough g rows earlier.getLast? active) : HeldBefore g rows (monthStart m) active := by
  have hsorted := hpart.sorted
  rw [htimeline, List.pairwise_append, List.pairwise_cons] at hsorted
  obtain ⟨hearlier, ⟨hlater, -⟩, hbefore⟩ := hsorted
  -- an event before this month is in a month already read
  have hread : ∀ username, ∀ event ∈ switchEvents g.chrono g.autopatrolGroups rows username,
      event.timestamp < monthStart m → ∃ k ∈ earlier, event.timestamp < monthEnd k := by
    intro username event hevent hlt
    obtain ⟨k, hartifact, hstart, hend⟩ := month_of_event hpart (List.mem_filter.mp hevent).1
    have hkm : k < m := by
      by_contra hnot
      rcases lt_or_eq_of_le (not_lt.mp hnot) with hmk | rfl
      · exact absurd ((monthEnd_le_monthStart hmk).trans hstart)
          (not_le.mpr (hlt.trans (monthStart_lt_monthEnd m)))
      · exact absurd hstart (not_le.mpr hlt)
    have hk := hpart.timeline k hartifact m (htimeline ▸ by simp) hkm.le
    rw [htimeline, List.mem_append, List.mem_cons] at hk
    refine ⟨k, hk.resolve_right ?_, hend⟩
    rintro (rfl | hk)
    · exact lt_irrefl _ hkm
    · exact lt_asymm hkm (hlater k hk)
  cases hlast : earlier.getLast? with
  | none =>
    rw [hlast] at h
    obtain rfl := List.getLast?_eq_none_iff.mp hlast
    intro username
    have hnone : (switchEvents g.chrono g.autopatrolGroups rows username).filter
        (fun event => event.timestamp < monthStart m) = [] := by
      refine List.filter_eq_nil_iff.mpr fun event hevent hlt => ?_
      obtain ⟨k, hk, -⟩ := hread username event hevent (of_decide_eq_true hlt)
      exact absurd hk List.not_mem_nil
    unfold grantedBefore
    rw [hnone, show active = ∅ from h]
    simp [Spans.stateAfter]
  | some last =>
    rw [hlast] at h
    have hmem : last ∈ earlier := List.mem_of_getLast? hlast
    have hmax : ∀ k ∈ earlier, k ≤ last := by
      intro k hk
      obtain ⟨front, rfl⟩ := List.getLast?_eq_some_iff.mp hlast
      rcases List.mem_append.mp hk with hk | hk
      · exact ((List.pairwise_append.mp hearlier).2.2 k hk last (List.mem_singleton.mpr rfl)).le
      · exact (List.mem_singleton.mp hk).le
    intro username
    refine (h username).trans ?_
    unfold grantedBefore
    have hfilter : (switchEvents g.chrono g.autopatrolGroups rows username).filter
        (fun event => event.timestamp < monthEnd last)
          = (switchEvents g.chrono g.autopatrolGroups rows username).filter
            fun event => event.timestamp < monthStart m := by
      refine List.filter_congr fun event hevent =>
        decide_eq_decide.mpr ⟨fun hlt => ?_, fun hlt => ?_⟩
      · exact hlt.trans_le (monthEnd_le_monthStart (hbefore last hmem m List.mem_cons_self))
      · obtain ⟨k, hk, hend⟩ := hread username event hevent hlt
        exact hend.trans_le (Civil.monthStart_le (by
          rcases lt_or_eq_of_le (hmax k hk) with hlt | rfl
          · have := monthNumber_lt.mpr hlt
            omega
          · exact le_refl _))
    rw [hfilter]

/-- A month is read, its December written down. -/
theorem advanceMonth_spec (hlog : RightsLog g.chrono g.autopatrolGroups rows)
    (hpart : Partitioned g rows) {m : YearMonth} (hm : m ∈ g.timelineMonths) {walk walk' : Walk}
    (hcache : CacheSound g rows walk.cache)
    (hactive : HeldBefore g rows (monthStart m) walk.activeUsers)
    {result : Except String AutopatrolIntervals}
    (h : (advanceMonth g m).exec walk = (result, walk')) :
    CacheSound g rows walk'.cache ∧
      (∀ intervals, result = .ok intervals → walk'.rightsStateMonth = some m ∧
        HeldBefore g rows (monthEnd m) walk'.activeUsers ∧
        Agrees g rows m (monthStart m, monthEnd m) intervals walk'.activeUsers) ∧
      (CollisionFree g → Bounded g → ∃ intervals, result = .ok intervals) := by
  unfold advanceMonth at h
  rw [exec_read_bind] at h
  rcases lift_bind_cases h with ⟨e, rfl, rfl, he⟩ | ⟨advanced, hadvanced, h⟩
  · refine ⟨hcache, fun _ hok => absurd hok (by simp), fun _ hbounded => ?_⟩
    rcases advanceRightsMonth_cases hlog hpart m walk'.activeUsers with ⟨hyear, hmonth, -⟩ |
      ⟨intervals, active, hok, -⟩
    · exact absurd ⟨hyear, hmonth⟩ (hbounded m hm)
    · exact absurd (hok.symm.trans he) (by simp)
  obtain ⟨intervals, active⟩ := advanced
  obtain ⟨hheld, hagrees⟩ := advanceRightsMonth_agrees hlog hpart hactive hadvanced
  rw [exec_update_bind] at h
  by_cases hdecember : m.isDecember = true
  · rw [if_pos hdecember] at h
    rcases bind_cases h with ⟨e, rfl, hwrite⟩ | ⟨_, left, hwrite, h⟩
    · obtain ⟨hcache', -, -, hok⟩ := writeOrValidateCheckpoint_spec hm hwrite hcache hheld
      exact ⟨hcache', fun _ hok => absurd hok (by simp), fun hfree => absurd (hok hfree) (by simp)⟩
    · obtain ⟨hcache', husers, -, -⟩ := writeOrValidateCheckpoint_spec hm hwrite hcache hheld
      obtain ⟨rfl, rfl⟩ := Prod.mk.inj h
      refine ⟨hcache', fun found hok => ?_, fun _ _ => ⟨_, rfl⟩⟩
      obtain rfl := Except.ok.inj hok
      show some m = some m ∧ HeldBefore g rows (monthEnd m) left.activeUsers ∧
        Agrees g rows m (monthStart m, monthEnd m) intervals left.activeUsers
      rw [husers]
      exact ⟨rfl, hheld, hagrees⟩
  · rw [if_neg hdecember] at h
    obtain ⟨rfl, rfl⟩ := Prod.mk.inj h
    refine ⟨hcache, fun found hok => ?_, fun _ _ => ⟨_, rfl⟩⟩
    obtain rfl := Except.ok.inj hok
    show some m = some m ∧ HeldBefore g rows (monthEnd m) active ∧
      Agrees g rows m (monthStart m, monthEnd m) intervals active
    exact ⟨rfl, hheld, hagrees⟩

/-- What is carried: sound checkpoints, and the users after the last month read. -/
structure SoundWalk (g : Generation) (rows : List RightsRow) (walk : Walk) : Prop where
  cache : CacheSound g rows walk.cache
  month : ∀ m ∈ walk.rightsStateMonth, m ∈ g.timelineMonths
  users : HeldThrough g rows walk.rightsStateMonth walk.activeUsers

/-- The months of the timeline are read one after another. -/
theorem advanceMonths_spec (hlog : RightsLog g.chrono g.autopatrolGroups rows)
    (hpart : Partitioned g rows) (target : YearMonth) :
    ∀ (months : List YearMonth) {earlier later : List YearMonth} {found : AutopatrolIntervals}
      {walk walk' : Walk} {result : Except String AutopatrolIntervals},
      (advanceMonths g target months found).exec walk = (result, walk') →
      g.timelineMonths = earlier ++ (months ++ later) → walk.rightsStateMonth = earlier.getLast? →
      CacheSound g rows walk.cache → HeldThrough g rows earlier.getLast? walk.activeUsers →
      CacheSound g rows walk'.cache ∧
        (∀ intervals, result = .ok intervals →
          walk'.rightsStateMonth = (earlier ++ months).getLast? ∧
          HeldThrough g rows (earlier ++ months).getLast? walk'.activeUsers ∧
          (months.getLast? = some target →
            Agrees g rows target (monthStart target, monthEnd target) intervals
              walk'.activeUsers)) ∧
        (CollisionFree g → Bounded g → ∃ intervals, result = .ok intervals) := by
  intro months
  induction months with
  | nil =>
    intro earlier later found walk walk' result h _ hmonth hcache hheld
    obtain ⟨rfl, rfl⟩ := Prod.mk.inj h
    rw [List.append_nil]
    exact ⟨hcache, fun _ _ => ⟨hmonth, hheld, fun hlast => absurd hlast (by simp)⟩,
      fun _ _ => ⟨_, rfl⟩⟩
  | cons m rest ih =>
    intro earlier later found walk walk' result h htimeline hmonth hcache hheld
    have hm : m ∈ g.timelineMonths := htimeline ▸ by simp
    have hstart := hheld.next hpart htimeline
    have hlast : ∀ more : List YearMonth, (earlier ++ m :: more).getLast?
        = ((earlier ++ [m]) ++ more).getLast? := fun more => by
      rw [List.append_assoc, List.singleton_append]
    -- One month is advanced or ends the walk; the cache is sound either way.
    rcases bind_cases h with ⟨e, rfl, hmonthRead⟩ | ⟨intervals, left, hmonthRead, hrest⟩
    · obtain ⟨hcache', -, hok⟩ := advanceMonth_spec hlog hpart hm hcache hstart hmonthRead
      refine ⟨hcache', fun _ hok => absurd hok (by simp), fun hfree hbounded => ?_⟩
      obtain ⟨_, hok⟩ := hok hfree hbounded
      exact absurd hok (by simp)
    · obtain ⟨hcache', hread, -⟩ := advanceMonth_spec hlog hpart hm hcache hstart hmonthRead
      obtain ⟨hleft, hheld', hagrees⟩ := hread intervals rfl
      have hnow : (earlier ++ [m]).getLast? = some m := by simp
      have htimeline' : g.timelineMonths = (earlier ++ [m]) ++ (rest ++ later) := by
        rw [htimeline, List.append_assoc]
        rfl
      obtain ⟨hcache'', hresult, hok⟩ := ih hrest htimeline' (hleft.trans hnow.symm) hcache'
        (by rw [hnow]; exact hheld')
      refine ⟨hcache'', fun final hfinal => ?_, hok⟩
      obtain ⟨hmonth', hheld'', hagrees'⟩ := hresult final hfinal
      rw [hlast]
      refine ⟨hmonth', hheld'', fun htarget => ?_⟩
      -- The intervals asked for are those of the last month, which is the target.
      cases rest with
      | nil =>
        obtain rfl : m = target := by simpa using htarget
        obtain ⟨hfound, rfl⟩ := Prod.mk.inj
          (show (Except.ok (if m = m then intervals else found), left) = (result, walk') from hrest)
        rw [if_pos rfl] at hfound
        obtain rfl := Except.ok.inj (hfound.trans hfinal)
        exact hagrees
      | cons next rest => exact hagrees' (by simpa using htarget)

/-- The months from the one after the last that was read up to the target. -/
theorem months_split (hpart : Partitioned g rows) {walk : Walk} (hwalk : SoundWalk g rows walk)
    {target : YearMonth} (htarget : target ∈ g.timelineMonths)
    (hlater : ∀ m ∈ walk.rightsStateMonth, m < target) :
    ∃ earlier months later, g.timelineMonths = earlier ++ (months ++ later) ∧
      walk.rightsStateMonth = earlier.getLast? ∧ months.getLast? = some target ∧
      (g.timelineMonths.filter fun month =>
        walk.rightsStateMonth.all fun start => start < month).takeWhile (· ≤ target) = months := by
  have hsorted := hpart.sorted
  -- what has been read, and what has not
  obtain ⟨earlier, rest, hsplit, hmonth, hfilter⟩ : ∃ earlier rest, g.timelineMonths =
    earlier ++ rest ∧
      walk.rightsStateMonth = earlier.getLast? ∧ (g.timelineMonths.filter fun month =>
        walk.rightsStateMonth.all fun start => start < month) = rest := by
    cases hlast : walk.rightsStateMonth with
    | none => exact ⟨[], g.timelineMonths, rfl, rfl, List.filter_eq_self.mpr fun _ _ => rfl⟩
    | some last =>
      obtain ⟨front, rest, hsplit⟩ := List.append_of_mem (hwalk.month last hlast)
      rw [hsplit, List.pairwise_append, List.pairwise_cons] at hsorted
      obtain ⟨-, ⟨hafter, -⟩, hbefore⟩ := hsorted
      refine ⟨front ++ [last], rest, by rw [hsplit, List.append_assoc]; rfl, by simp, ?_⟩
      have hdrop : (front ++ [last]).filter (fun month => decide (last < month)) = [] := by
        refine List.filter_eq_nil_iff.mpr fun m hm hlt => ?_
        rcases List.mem_append.mp hm with hm | hm
        · exact lt_asymm (of_decide_eq_true hlt) (hbefore m hm last List.mem_cons_self)
        · rw [List.mem_singleton.mp hm] at hlt
          exact lt_irrefl last (of_decide_eq_true hlt)
      have hkeep : rest.filter (fun month => decide (last < month)) = rest :=
        List.filter_eq_self.mpr fun m hm => decide_eq_true (hafter m hm)
      show g.timelineMonths.filter (fun month => decide (last < month)) = rest
      rw [hsplit, List.append_cons, List.filter_append, hdrop, hkeep, List.nil_append]
  have hin : target ∈ rest := by
    rw [← hfilter]
    refine List.mem_filter.mpr ⟨htarget, ?_⟩
    cases hlast : walk.rightsStateMonth with
    | none => rfl
    | some last => exact decide_eq_true (hlater last hlast)
  obtain ⟨front, later, rfl⟩ := List.append_of_mem hin
  rw [hsplit] at hsorted
  obtain ⟨-, hrest, -⟩ := List.pairwise_append.mp hsorted
  obtain ⟨-, hcons, hfront⟩ := List.pairwise_append.mp hrest
  refine ⟨earlier, front ++ [target], later, ?_, hmonth, by simp, ?_⟩
  · rw [hsplit, List.append_assoc]
    rfl
  · rw [hfilter, List.takeWhile_append_of_pos fun m hm =>
      decide_eq_true (hfront m hm target List.mem_cons_self).le,
      List.takeWhile_cons_of_pos (by simp)]
    refine congrArg (fun l => front ++ target :: l) ?_
    cases later with
    | nil => rfl
    | cons next later =>
      have hgt := (List.pairwise_cons.mp hcons).1 next List.mem_cons_self
      exact List.takeWhile_cons_of_neg (by simpa using hgt)

/-- The users are carried to the target. -/
theorem advanceStateThrough_spec (hlog : RightsLog g.chrono g.autopatrolGroups rows)
    (hpart : Partitioned g rows) {walk walk' : Walk} (hwalk : SoundWalk g rows walk)
    {target : YearMonth} (htarget : target ∈ g.timelineMonths)
    (hlater : ∀ m ∈ walk.rightsStateMonth, m < target) {result : Except String AutopatrolIntervals}
    (h : (advanceStateThrough g target).exec walk = (result, walk')) :
    CacheSound g rows walk'.cache ∧
      (∀ intervals, result = .ok intervals → SoundWalk g rows walk' ∧
        Agrees g rows target (monthStart target, monthEnd target) intervals walk'.activeUsers) ∧
      (CollisionFree g → Bounded g → ∃ intervals, result = .ok intervals) := by
  obtain ⟨earlier, months, later, htimeline, hmonth, hlast, hmonths⟩ :=
    months_split hpart hwalk htarget hlater
  have hend : (earlier ++ months).getLast? = some target := by
    rw [List.getLast?_append, hlast]
    rfl
  unfold advanceStateThrough at h
  rw [exec_read_bind] at h
  dsimp only at h
  rw [hmonths] at h
  have husers := hwalk.users
  rw [hmonth] at husers
  rcases bind_cases h with ⟨e, rfl, hread⟩ | ⟨found, left, hread, h⟩
  · obtain ⟨hcache, -, hok⟩ := advanceMonths_spec hlog hpart target months hread htimeline hmonth
      hwalk.cache husers
    refine ⟨hcache, fun _ hok => absurd hok (by simp), fun hfree hbounded => ?_⟩
    obtain ⟨_, hok⟩ := hok hfree hbounded
    exact absurd hok (by simp)
  · obtain ⟨hcache, hresult, -⟩ :=
      advanceMonths_spec hlog hpart target months hread htimeline hmonth
      hwalk.cache husers
    obtain ⟨hmonth', hheld, hagrees⟩ := hresult found rfl
    rw [hend] at hmonth' hheld
    -- The walk has arrived at the month, so the check at the end cannot fail.
    have hensure : ensure (left.rightsStateMonth = some target)
        "rights state did not advance to patrol output month" = .ok () := ensure_eq_ok.mpr hmonth'
    rw [exec_read_bind, hensure] at h
    obtain ⟨rfl, rfl⟩ := Prod.mk.inj (show (Except.ok found, left) = (result, walk') from h)
    refine ⟨hcache, fun intervals hok => ?_, fun _ _ => ⟨found, rfl⟩⟩
    obtain rfl := Except.ok.inj hok
    refine ⟨⟨hcache, fun m hm => ?_, by rw [hmonth']; exact hheld⟩, hagrees hlast⟩
    rw [hmonth'] at hm
    exact Option.some.inj hm ▸ htarget

/-- The users of a checkpoint, or nobody before the first month. -/
theorem restoreFrom_spec {months : List YearMonth} (hmonths : ∀ m ∈ months, m ∈ g.timelineMonths)
    {walk walk' : Walk} (hcache : CacheSound g rows walk.cache) {result : Except String Unit}
    (h : (restoreFrom g months).exec walk = (result, walk')) :
    CacheSound g rows walk'.cache ∧ (∀ u, result = .ok u → SoundWalk g rows walk') ∧
      (CollisionFree g → result = .ok ()) := by
  induction months with
  | nil =>
    obtain ⟨rfl, rfl⟩ := Prod.mk.inj h
    exact ⟨hcache, fun _ _ => ⟨hcache, fun _ hnone => absurd hnone (by simp), rfl⟩, fun _ => rfl⟩
  | cons m rest ih =>
    have hm := hmonths m List.mem_cons_self
    unfold restoreFrom at h
    rw [exec_read_bind] at h
    unfold Walk.holds at h
    cases hfound : walk.cache (g.checkpointDigest m) with
    | none =>
      rw [hfound] at h
      exact ih (fun other hother => hmonths other (List.mem_cons_of_mem _ hother)) h
    | some checkpoint =>
      rw [hfound] at h
      rcases lift_bind_cases h with ⟨e, rfl, rfl, he⟩ | ⟨_, hvalid, hrest⟩
      · refine ⟨hcache, fun _ hok => absurd hok (by simp), fun hfree => ?_⟩
        obtain ⟨own, hown, hdigest, active, -, rfl⟩ := hcache m hm checkpoint hfound
        obtain rfl := hfree own hown m hm hdigest
        exact absurd ((RightsCheckpoint.validate_new ..).symm.trans he) (by simp)
      · obtain ⟨rfl, rfl⟩ := Prod.mk.inj hrest
        refine ⟨hcache, fun _ _ => ⟨hcache, fun k hk => Option.some.inj hk ▸ hm, ?_⟩, fun _ => rfl⟩
        exact hcache.accepted hm hfound hvalid

end Walks

/-! ## Runs -/

/-- A new process. -/
def Walk.fresh (walk : Walk) : Walk := { walk with activeUsers := ∅, rightsStateMonth := none }

/-- A call that fails ends the process. -/
def settle {α : Type} (result : Except String α) (walk : Walk) : Walk :=
  match result with
  | .ok _ => walk
  | .error _ => walk.fresh

/-- A call, with what it returned; after an advance, the users as well. -/
inductive Call
  | restart
  | restore (target : YearMonth) (result : Except String Unit)
  | advance (target : YearMonth) (result : Except String AutopatrolIntervals)
      (activeUsers : Finset String)

/-- Runs over the months of a generation, one after another on one cache. A run takes
the months in order, starts from a checkpoint where it has none in hand, and may stop
anywhere. -/
def rightsWalks (g : Generation) : System Walk Call where
  init walk := walk = { cache := fun _ => none, activeUsers := ∅, rightsStateMonth := none }
  step walk call walk' := match call with
    | .restart => walk' = walk.fresh
    | .restore target result => target ∈ g.timelineMonths ∧ walk.rightsStateMonth = none ∧
      ∃ left, (restoreRightsCheckpoint g target).exec walk = (result, left) ∧
        walk' = settle result left
    | .advance target result activeUsers => target ∈ g.timelineMonths ∧
      (∀ m ∈ walk.rightsStateMonth, m < target) ∧
      ∃ left, (advanceStateThrough g target).exec walk = (result, left) ∧
        activeUsers = left.activeUsers ∧ walk' = settle result left

section Runs

variable {g : Generation} {rows : List RightsRow}

theorem SoundWalk.fresh {walk : Walk} (hcache : CacheSound g rows walk.cache) :
    SoundWalk g rows walk.fresh := ⟨hcache, fun _ hnone => absurd hnone (by simp [Walk.fresh]), rfl⟩

/-- What a call of a run is to return. -/
def Call.Right (g : Generation) (rows : List RightsRow) : Call → Prop
  | .restart => True
  | .restore _ result => CollisionFree g → result = .ok ()
  | .advance target result activeUsers =>
    (∀ intervals, result = .ok intervals → ∃ bounds,
      Agrees g rows target bounds intervals activeUsers) ∧
    (CollisionFree g → Bounded g → ∃ intervals, result = .ok intervals)

theorem SoundWalk.step (hlog : RightsLog g.chrono g.autopatrolGroups rows)
    (hpart : Partitioned g rows) {walk walk' : Walk} {call : Call} (hwalk : SoundWalk g rows walk)
    (h : (rightsWalks g).step walk call walk') : SoundWalk g rows walk' ∧ call.Right g rows := by
  cases call with
  | restart =>
    obtain rfl := h
    exact ⟨.fresh hwalk.cache, trivial⟩
  | restore target result =>
    obtain ⟨-, -, left, hrestore, rfl⟩ := h
    obtain ⟨hcache, hsound, hok⟩ := restoreFrom_spec (fun m hm =>
      List.mem_reverse.mp (List.mem_filter.mp hm).1) hwalk.cache hrestore
    refine ⟨?_, hok⟩
    cases result with
    | ok u => exact hsound u rfl
    | error e => exact .fresh hcache
  | advance target result activeUsers =>
    obtain ⟨htarget, hlater, left, hadvance, rfl, rfl⟩ := h
    obtain ⟨hcache, hsound, hok⟩ :=
      advanceStateThrough_spec hlog hpart hwalk htarget hlater hadvance
    cases result with
    | ok intervals =>
      obtain ⟨hleft, hagrees⟩ := hsound intervals rfl
      refine ⟨hleft, fun found hfound => ?_, hok⟩
      obtain rfl := Except.ok.inj hfound
      exact ⟨_, hagrees⟩
    | error e => exact ⟨.fresh hcache, fun _ hfound => absurd hfound (by simp), hok⟩

/-- **Month by month is as good as the whole log**: whatever runs there were on the
cache and wherever they stopped, every month that is reached gets the intervals of the
whole log and leaves the users who hold the right; and it is reached, unless the
checkpoints of two months collide or the calendar ends. -/
theorem rights_month_by_month (hlog : RightsLog g.chrono g.autopatrolGroups rows)
    (hpart : Partitioned g rows) {start walk : Walk} {calls : List Call}
    (hstart : (rightsWalks g).init start) (hrun : (rightsWalks g).Run start calls walk) :
    ∀ target result activeUsers, Call.advance target result activeUsers ∈ calls →
      (∀ intervals, result = .ok intervals → ∃ bounds,
        Agrees g rows target bounds intervals activeUsers) ∧
      (CollisionFree g → Bounded g → ∃ intervals, result = .ok intervals) := by
  have hall : SoundWalk g rows walk ∧ ∀ call ∈ calls, call.Right g rows := by
    induction hrun with
    | nil =>
      obtain rfl := hstart
      exact ⟨⟨fun _ _ _ hnone => absurd hnone (by simp), fun _ hnone =>
        absurd hnone (by simp), rfl⟩,
        fun _ hcall => absurd hcall List.not_mem_nil⟩
    | snoc _ hlast ih =>
      obtain ⟨hsound, hbefore⟩ := ih
      obtain ⟨hsound', hright⟩ := hsound.step hlog hpart hlast
      exact ⟨hsound', List.forall_mem_append.mpr ⟨hbefore, List.forall_mem_singleton.mpr hright⟩⟩
  exact fun target result activeUsers hcall => hall.2 _ hcall

end Runs

/-! ## A run -/

/-- A number up to a mark, and the text after the mark. -/
def field (mark : Char) (text : List Char) : ℕ × List Char :=
  (Nat.ofDigitChars 10 (text.takeWhile fun c => c ≠ mark) 0,
    (text.dropWhile fun c => c ≠ mark).drop 1)

theorem field_zeroPad {mark : Char} (hmark : mark.isDigit = false) (width n : ℕ)
    (rest : List Char) :
    field mark ((zeroPad width n).toList ++ mark :: rest) = (n, rest) := by
  have hdigit : ∀ c ∈ (zeroPad width n).toList, decide (c ≠ mark) = true := by
    refine fun c hc => decide_eq_true fun heq => ?_
    have hc := isDigit_of_mem_zeroPad hc
    rw [heq, hmark] at hc
    exact absurd hc (by decide)
  have hvalue : Nat.ofDigitChars 10 (zeroPad width n).toList 0 = n := by
    rw [toList_zeroPad, Nat.ofDigitChars_append, Nat.ofDigitChars_replicate_zero, Nat.mul_zero,
      Nat.ofDigitChars_toDigits (by omega) (by omega)]
  unfold field
  rw [List.takeWhile_append_of_pos hdigit, List.dropWhile_append_of_pos hdigit,
    List.takeWhile_cons_of_neg (by simp), List.dropWhile_cons_of_neg (by simp), List.append_nil,
    hvalue]
  rfl

/-- The date of a text of fixed width, `YYYY-MM-DD HH:MM:SS`. -/
def strictParse (text : String) : Option Civil.NaiveDateTime :=
  let year := field '-' text.toList
  let month := field '-' year.2
  let day := field ' ' month.2
  let hour := field ':' day.2
  let minute := field ':' hour.2
  let second := Nat.ofDigitChars 10 minute.2 0
  if h : (1 ≤ month.1 ∧ month.1 ≤ 12) ∧ (1 ≤ day.1 ∧ day.1 ≤ Civil.daysInMonth year.1 month.1)
      ∧ hour.1 < 24 ∧ minute.1 < 60 ∧ second < 60 then
    if year.1 < 10000 ∧ text = zeroPad 4 year.1 ++ "-" ++ zeroPad 2 month.1 ++ "-" ++
      zeroPad 2 day.1
        ++ " " ++ zeroPad 2 hour.1 ++ ":" ++ zeroPad 2 minute.1 ++ ":" ++ zeroPad 2 second then
      some ⟨year.1, month.1, day.1, hour.1, minute.1, second, h.1.1, h.1.2, h.2.1.1, h.2.1.2,
        h.2.2.1, h.2.2.2.1, h.2.2.2.2⟩
    else none
  else none

theorem strictParse_reads (m : YearMonth) (text : String) (t : Civil.NaiveDateTime)
    (hmonth : startsWith text (monthText m) = true) (h : strictParse text = some t) :
    t.year = m.year ∧ t.month = m.month := by
  unfold strictParse at h
  dsimp only at h
  split at h
  next hfields =>
    split at h
    next htext =>
      obtain rfl := Option.some.inj h
      obtain ⟨tail, htail⟩ := List.isPrefixOf_iff_prefix.mp hmonth
      rw [toList_monthText, List.append_assoc, List.cons_append] at htail
      have hyear : field '-' text.toList = (m.year, (zeroPad 2 m.month).toList ++ tail) := by
        rw [← htail]
        exact field_zeroPad (by decide) _ _ _
      show ((field '-' text.toList).1 : ℤ) = m.year ∧
        (field '-' (field '-' text.toList).2).1 = m.month
      rw [hyear] at htext hfields ⊢
      refine ⟨rfl, ?_⟩
      -- both texts go on with two digits
      have hlist := congrArg String.toList htext.2
      rw [← htail] at hlist
      simp only [String.toList_append, List.append_assoc] at hlist
      have hdash : "-".toList = ['-'] := rfl
      rw [hdash, List.singleton_append] at hlist
      have hrest := List.cons.inj (List.append_cancel_left hlist)
      have hlength : (zeroPad 2 m.month).toList.length
          = (zeroPad 2 (field '-' ((zeroPad 2 m.month).toList ++ tail)).1).toList.length := by
        have hle : (field '-' ((zeroPad 2 m.month).toList ++ tail)).1 ≤ 12 := hfields.1.2
        rw [length_zeroPad (by omega) (by have := m.month_le; omega),
          length_zeroPad (by omega) (by omega)]
      have hsame := (List.append_inj hrest.2 hlength).1
      exact (zeroPad_inj (String.toList_inj.mp hsame)).symm
    next => exact absurd h (by simp)
  next => exact absurd h (by simp)

theorem strictParse_of_fields {text : String} {r₁ r₂ r₃ r₄ r₅ : List Char}
    (t : Civil.NaiveDateTime) {year : ℕ} (hyear : t.year = year) (hyears : year < 10000)
    (h₁ : field '-' text.toList = (year, r₁)) (h₂ : field '-' r₁ = (t.month, r₂))
    (h₃ : field ' ' r₂ = (t.day, r₃)) (h₄ : field ':' r₃ = (t.hour, r₄))
    (h₅ : field ':' r₄ = (t.minute, r₅)) (h₆ : Nat.ofDigitChars 10 r₅ 0 = t.second)
    (htext : text = zeroPad 4 year ++ "-" ++ zeroPad 2 t.month ++ "-" ++ zeroPad 2 t.day
      ++ " " ++ zeroPad 2 t.hour ++ ":" ++ zeroPad 2 t.minute ++ ":" ++ zeroPad 2 t.second) :
    strictParse text = some t := by
  obtain ⟨_, month, day, hour, minute, second, hpos, hle, hday, hdays, hhour, hminute, hsecond⟩ := t
  obtain rfl := hyear
  dsimp only at h₂ h₃ h₄ h₅ h₆ htext
  unfold strictParse
  simp only [h₁, h₂, h₃, h₄, h₅, h₆]
  rw [dif_pos ⟨⟨hpos, hle⟩, ⟨hday, hdays⟩, hhour, hminute, hsecond⟩, if_pos ⟨hyears, htext⟩]

theorem strictParse_midnight (m : YearMonth) : strictParse (monthText m ++ "-01 00:00:00")
    = some (.firstOf m.year m.month m.month_pos m.month_le) := by
  have hyear : field '-' (monthText m ++ "-01 00:00:00").toList
      = (m.year, (zeroPad 2 m.month).toList ++ '-' :: "01 00:00:00".toList) := by
    rw [String.toList_append, toList_monthText, List.append_assoc, List.cons_append]
    exact field_zeroPad (by decide) _ _ _
  have hday : field ' ' "01 00:00:00".toList = (1, "00:00:00".toList) := by decide
  have hhour : field ':' "00:00:00".toList = (0, "00:00".toList) := by decide
  have hminute : field ':' "00:00".toList = (0, "00".toList) := by decide
  have hsecond : Nat.ofDigitChars 10 "00".toList 0 = 0 := by decide
  have hrest : "-01 00:00:00".toList = "-".toList ++ ((zeroPad 2 (1 : ℕ)).toList ++ (" ".toList
      ++ ((zeroPad 2 (0 : ℕ)).toList ++ (":".toList ++ ((zeroPad 2 (0 : ℕ)).toList ++ (":".toList
      ++ (zeroPad 2 (0 : ℕ)).toList)))))) := by decide
  refine strictParse_of_fields (.firstOf m.year m.month m.month_pos m.month_le) rfl m.year_lt hyear
    (field_zeroPad (by decide) _ _ _) hday hhour hminute hsecond (String.toList_inj.mp ?_)
  simp only [String.toList_append, toList_monthText, List.append_assoc, hrest]
  rfl

/-- A parser for timestamps of fixed width. -/
def strictChrono : Chrono where
  parseFromStr := strictParse
  reads := strictParse_reads
  midnight := strictParse_midnight
  unsigned := by decide

def december : YearMonth := .ofYear 2023 11
def january : YearMonth := .ofYear 2024 0
def february : YearMonth := .ofYear 2024 1

def granted : RightsRow where
  timestamp := some "2023-12-05 08:00:00"
  targetUser := some "Alice"
  oldGroups := some "editor"
  newGroups := some "editor, autopatrolled"

def withdrawn : RightsRow where
  timestamp := some "2024-02-10 09:30:00"
  targetUser := some "Alice"
  oldGroups := some "editor,autopatrolled"
  newGroups := some "editor"

/-- A right granted in a December and withdrawn in the February after it. -/
def sampleGeneration : Generation where
  chrono := strictChrono
  sha256 bytes := String.ofList (bytes.map fun byte => Char.ofNat byte.toNat)
  rightsArtifacts m :=
    if m = december then some ⟨"a1", [granted]⟩
    else if m = february then some ⟨"b2", [withdrawn]⟩
    else none
  timelineMonths := [december, january, february]
  autopatrolGroups := ["autopatrolled"]
  groupsDigest := "c3"

theorem sampleEvents : [granted, withdrawn].filterMap
    (readEvent sampleGeneration.chrono sampleGeneration.autopatrolGroups)
      = [("Alice", ⟨1701763200, false, true⟩), ("Alice", ⟨1707557400, true, false⟩)] := by
  decide +kernel

theorem sampleLog : RightsLog sampleGeneration.chrono sampleGeneration.autopatrolGroups
    [granted, withdrawn] where
  readable := by decide +kernel
  increasing username := by
    unfold logEvents
    rw [sampleEvents]
    unfold eventsOf
    by_cases h : "Alice" = username <;> simp [h]
  chained username := by
    unfold logEvents
    rw [sampleEvents]
    unfold eventsOf
    by_cases h : "Alice" = username <;> simp [h, Chained]

theorem samplePartition : Partitioned sampleGeneration [granted, withdrawn] where
  sorted := by decide +kernel
  covers row hrow := by
    rcases List.mem_cons.mp hrow with rfl | hrow
    · exact ⟨december, by decide +kernel⟩
    · rw [List.mem_singleton.mp hrow]
      exact ⟨february, by decide +kernel⟩
  month m := by
    have hreads : ∀ row ∈ [granted, withdrawn], ∃ read, readEvent sampleGeneration.chrono
        sampleGeneration.autopatrolGroups row = some read := fun row hrow =>
      Option.isSome_iff_exists.mp (sampleLog.readable row hrow)
    have hgranted : rowIn m granted = decide (m = december) := by
      obtain ⟨read, hread⟩ := hreads granted (by simp)
      have hown : rowIn december granted = true := by decide +kernel
      rw [Bool.eq_iff_iff, decide_eq_true_eq]
      exact ⟨fun h => rowIn_unique hread h hown, fun h => h ▸ hown⟩
    have hwithdrawn : rowIn m withdrawn = decide (m = february) := by
      obtain ⟨read, hread⟩ := hreads withdrawn (by simp)
      have hown : rowIn february withdrawn = true := by decide +kernel
      rw [Bool.eq_iff_iff, decide_eq_true_eq]
      exact ⟨fun h => rowIn_unique hread h hown, fun h => h ▸ hown⟩
    have hne : december ≠ february := by decide
    unfold Generation.rowsOf sampleGeneration
    by_cases hdecember : m = december
    · subst hdecember
      simp [hgranted, hwithdrawn, hne]
    · by_cases hfebruary : m = february
      · subst hfebruary
        simp [hgranted, hwithdrawn, hne.symm]
      · simp [hgranted, hwithdrawn, hdecember, hfebruary]
  ordered m := by
    have hshort : (sampleGeneration.rowsOf m).length ≤ 1 := by
      unfold Generation.rowsOf sampleGeneration
      dsimp only
      split
      · exact le_refl 1
      · split <;> simp
    have hread := (List.length_filterMap_le (readEvent sampleGeneration.chrono
      sampleGeneration.autopatrolGroups) (sampleGeneration.rowsOf m)).trans hshort
    match hevents : (sampleGeneration.rowsOf m).filterMap (readEvent sampleGeneration.chrono
        sampleGeneration.autopatrolGroups), hread with
    | [], _ => exact List.Pairwise.nil
    | [event], _ => exact List.pairwise_singleton ..
  timeline m hm last hlast _ := by
    unfold sampleGeneration at hm ⊢
    dsimp only at hm ⊢
    split at hm
    next h => simp [h]
    next =>
      split at hm
      next h => simp [h]
      next => exact absurd hm (by simp)

/-- What is restored is earlier than the target. -/
theorem month_of_restoreFrom (g : Generation) (months : List YearMonth) (walk : Walk)
    (h : walk.rightsStateMonth = none) :
    ∀ m ∈ ((restoreFrom g months).exec walk).2.rightsStateMonth, m ∈ months := by
  induction months with
  | nil => exact fun _ hnone => absurd hnone (by simp [restoreFrom])
  | cons month rest ih =>
    unfold restoreFrom
    rw [exec_read_bind]
    cases walk.holds (g.checkpointDigest month) with
    | none => exact fun m hm => List.mem_cons_of_mem _ (ih m hm)
    | some checkpoint =>
      dsimp only
      rw [exec_lift_bind]
      cases checkpoint.validate g.sha256 month (g.rightsPrefix month) g.groupsDigest with
      | ok _ => exact fun m hm => List.mem_cons.mpr (Or.inl (Option.some.inj hm).symm)
      | error e => exact fun m hm => absurd (h.symm.trans hm) (by simp)

/-- A run up to a month, and one that starts from a checkpoint. -/
theorem exists_resumed_run (g : Generation) {first target : YearMonth}
    (hfirst : first ∈ g.timelineMonths) (htarget : target ∈ g.timelineMonths) :
    ∃ start walk reached users restored result users',
      (rightsWalks g).init start ∧
      (rightsWalks g).Run start [.advance first reached users, .restart,
        .restore target restored, .advance target result users'] walk := by
  obtain ⟨start, hstart⟩ : ∃ start, (rightsWalks g).init start := ⟨_, rfl⟩
  have hnone : start.rightsStateMonth = none := by
    obtain rfl := hstart
    rfl
  generalize hadvanced : (advanceStateThrough g first).exec start = advanced
  generalize hstopped : (settle advanced.1 advanced.2).fresh = stopped
  have hfresh : stopped.rightsStateMonth = none := by
    rw [← hstopped]
    rfl
  have hrestore := month_of_restoreFrom g (g.timelineMonths.reverse.filter fun month =>
    month < target && month.isDecember) stopped hfresh
  generalize hrestored : (restoreRightsCheckpoint g target).exec stopped = restored
  generalize hresumed : settle restored.1 restored.2 = resumed
  have hearlier : ∀ m ∈ resumed.rightsStateMonth, m < target := by
    intro m hm
    rw [← hresumed] at hm
    cases hresult : restored.1 with
    | error e =>
      rw [hresult] at hm
      exact absurd hm (by simp [settle, Walk.fresh])
    | ok u =>
      rw [hresult] at hm
      have hmem := hrestore m (by
        show m ∈ ((restoreRightsCheckpoint g target).exec stopped).2.rightsStateMonth
        rw [hrestored]
        exact hm)
      exact of_decide_eq_true (Bool.and_eq_true_iff.mp (List.mem_filter.mp hmem).2).1
  generalize hfinal : (advanceStateThrough g target).exec resumed = final
  have hrun : (rightsWalks g).Run start ([] ++ [.advance first advanced.1 advanced.2.activeUsers]
      ++ [.restart] ++ [.restore target restored.1] ++
        [.advance target final.1 final.2.activeUsers])
      (settle final.1 final.2) :=
    .snoc (.snoc (.snoc (.snoc (.nil start)
      ⟨hfirst, fun m hm => absurd (hnone.symm.trans hm) (by simp), _, hadvanced, rfl, rfl⟩)
        hstopped.symm)
      ⟨htarget, hfresh, _, hrestored, hresumed.symm⟩) ⟨htarget, hearlier, _, hfinal, rfl, rfl⟩
  exact ⟨start, _, _, _, _, _, _, hstart, hrun⟩

theorem rights_month_by_month_resumed : ∃ intervals active bounds,
    Agrees sampleGeneration [granted, withdrawn] february bounds intervals active := by
  obtain ⟨start, walk, reached, users, restored, result, users', hstart, hrun⟩ :=
    exists_resumed_run sampleGeneration (show december ∈ _ by decide) (show february ∈ _ by decide)
  obtain ⟨hagrees, hreturns⟩ := rights_month_by_month sampleLog samplePartition hstart hrun february
    result users' (by simp)
  obtain ⟨intervals, hok⟩ := hreturns (by unfold CollisionFree; decide +kernel)
    (by unfold Bounded; decide)
  obtain ⟨bounds, hagrees⟩ := hagrees intervals hok
  exact ⟨intervals, _, bounds, hagrees⟩

end WikiEcon.Patrol
