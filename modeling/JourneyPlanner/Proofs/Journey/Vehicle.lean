import Mathlib.Data.List.Induction
import JourneyPlanner.Journey.Traversal
import JourneyPlanner.Proofs.Schedule.Lookup

/-!
# Meeting a vehicle

The vehicle that a gate finds runs on one of the days, starts when a run may start, and is met no
sooner than the transfer allows. A traveller who could be there sooner would be on board no later
(`Gate.exactVehicle?_mono`), provided that the day of the vehicle has begun for him too.
-/

namespace JourneyPlanner

section

variable {arriveBy : Bool} {a b : Int} {t u : Int}

theorem sooner_onward (h : 0 ≤ a) : Sooner arriveBy t (onward arriveBy t a) := by
  unfold Sooner onward; split_ifs <;> omega

theorem sooner_onward_iff : Sooner arriveBy t (onward arriveBy t a) ↔ 0 ≤ a := by
  unfold Sooner onward; split_ifs <;> omega

theorem onward_le_onward_iff :
    Sooner arriveBy (onward arriveBy t a) (onward arriveBy t b) ↔ a ≤ b := by
  unfold Sooner onward; split_ifs <;> omega

theorem Sooner.onward (h : Sooner arriveBy t u) :
    Sooner arriveBy (onward arriveBy t a) (onward arriveBy u a) := by
  unfold Sooner JourneyPlanner.onward at *; split_ifs at * <;> omega

end

/-- When a vehicle is met at a stop, counted from the start of its run. -/
def PatternStop.met (arriveBy : Bool) (s : PatternStop) : Int :=
  if arriveBy then s.arrival else s.departure

variable {W : Type} {c : Context} {g : Gate} {s s' : State W} {day : ServiceDay}
  {t t' hit meeting meeting' wait : Int} {needs : Needs}

/-! ## Exact readings -/

/-- The context without bound on integers. -/
def Context.exact (c : Context) : Context := { c with integers := .unbounded }

namespace Gate

/-- The vehicle time nearest to a time of the day on the search's side of it, exactly. -/
def exactTime? (g : Gate) (c : Context) (t : Int) (needs : Needs) : Option Int :=
  if c.arriveBy then g.pattern.exactArrival? g.index t needs true
  else g.pattern.exactDeparture? g.index t needs true

/-- The wait for the vehicle of one day that is nearest to a time, exactly. -/
def exactWait? (g : Gate) (c : Context) (s : State W) (meeting : Int) (day : ServiceDay) :
    Option Int :=
  let t := meeting - day.midnight
  if t < 0 ∨ Int32.maxValue.toInt < t ∨ !day.runs g.pattern.service then none
  else (g.exactTime? c t ⟨c.request.wheelchair, s.streetMode == .bicycle⟩).map fun hit =>
    secondsTo c.arriveBy s.time (day.midnight + hit)

/-- The shortest wait over the three days, with the day on which the vehicle runs, exactly. -/
def exactVehicle? (g : Gate) (c : Context) (s : State W) (meeting : Int) :
    Option (Int × ServiceDay) :=
  (c.days.toList.filterMap fun day => (g.exactWait? c s meeting day).map (·, day)).foldl
    shorterWait none

theorem nearestTime?_unbounded (hk : c.integers = .unbounded) :
    g.nearestTime? c t needs = .ok (g.exactTime? c t needs) := by
  unfold nearestTime? exactTime?
  rw [hk]
  split_ifs
  · exact g.pattern.previousArrival?_unbounded _ _ _ _
  · exact g.pattern.nextDeparture?_unbounded _ _ _ _

theorem waitOn?_unbounded (hk : c.integers = .unbounded) :
    g.waitOn? c s meeting day = .ok (g.exactWait? c s meeting day) := by
  unfold waitOn? exactWait? ServiceDay.sinceMidnight ServiceDay.instantOf
  rw [hk]
  simp only [Integers.fit_unbounded, nearestTime?_unbounded hk, bind, Except.bind]
  split_ifs
  · rfl
  · cases g.exactTime? c (meeting - day.midnight) _ <;> rfl

theorem nearestVehicle?_unbounded (hk : c.integers = .unbounded) :
    g.nearestVehicle? c s meeting = .ok (g.exactVehicle? c s meeting) := by
  unfold nearestVehicle? exactVehicle?
  rw [mapM_eq_map (h := fun day => (g.exactWait? c s meeting day).map (·, day)) fun day _ => by
    rw [waitOn?_unbounded hk]
    rfl]
  exact congrArg Except.ok (by rw [List.filterMap_map]; rfl)

theorem nearestTime?_same (g : Gate) (c : Context) (t : Int) (needs : Needs) :
    SameUnless .overflow (g.nearestTime? c t needs) (g.nearestTime? c.exact t needs) := by
  unfold nearestTime?
  show SameUnless _ _ (if c.arriveBy then _ else _)
  split_ifs
  · exact g.pattern.previousArrival?_same _ _ _ _ _
  · exact g.pattern.nextDeparture?_same _ _ _ _ _

theorem waitOn?_same (g : Gate) (c : Context) (s : State W) (meeting : Int) (day : ServiceDay) :
    SameUnless .overflow (g.waitOn? c s meeting day) (g.waitOn? c.exact s meeting day) := by
  refine SameUnless.bind (c.integers.fit_same 64 _) fun t => ?_
  split_ifs
  · exact .refl _ _
  · exact (g.nearestTime?_same c t _).bind fun _ => .optionMapM (fun _ =>
      SameUnless.bind (c.integers.fit_same 64 _) fun _ => c.integers.fit_same 64 _) _

theorem nearestVehicle?_same (g : Gate) (c : Context) (s : State W) (meeting : Int) :
    SameUnless .overflow (g.nearestVehicle? c s meeting) (g.nearestVehicle? c.exact s meeting) :=
  SameUnless.bind
    (.mapM (fun day => (g.waitOn?_same c s meeting day).bind fun _ => .refl _ _) _)
    fun _ => .refl _ _

theorem exactVehicle?_eq {hit? : Option (Int × ServiceDay)}
    (h : g.nearestVehicle? c s meeting = .ok hit?) : g.exactVehicle? c s meeting = hit? :=
  Except.ok.inj ((nearestVehicle?_unbounded (c := c.exact) rfl).symm.trans
    ((g.nearestVehicle?_same c s meeting).eq_ok h))

end Gate

/-- The time from which a vehicle may be met, given the least time of the transfer, exactly. -/
def exactMeeting (c : Context) (s : State W) (transfer : TransferTime) : Int :=
  match transfer.minimumSeconds?, s.lastAlighted with
  | some least, some alighted =>
    if least = 0 then s.time
    else if c.arriveBy then min s.time (onward c.arriveBy alighted least)
    else max s.time (onward c.arriveBy alighted least)
  | _, _ => s.time

theorem earliestMeeting_unbounded (hk : c.integers = .unbounded) (transfer : TransferTime) :
    earliestMeeting c s transfer = .ok (exactMeeting c s transfer) := by
  unfold earliestMeeting exactMeeting
  rw [hk]
  simp only [Integers.fit_unbounded, bind, Except.bind, pure, Except.pure]
  cases transfer.minimumSeconds? <;> cases s.lastAlighted <;> simp only
  split_ifs <;> rfl

theorem earliestMeeting_same (c : Context) (s : State W) (transfer : TransferTime) :
    SameUnless .overflow (earliestMeeting c s transfer)
      (earliestMeeting c.exact s transfer) := by
  unfold earliestMeeting
  cases transfer.minimumSeconds? with
  | none => exact .refl _ _
  | some least =>
    cases s.lastAlighted with
    | none => exact .refl _ _
    | some alighted =>
      by_cases h : least = 0
      · exact .inr ((if_pos h).trans (if_pos h).symm)
      · simp only [if_neg h]
        exact (c.integers.fit_same 64 _).bind fun _ => .refl _ _

/-! ## On one day -/

theorem Gate.exactTime?_spec (h : g.exactTime? c t needs = some hit) :
    ∃ st start, g.pattern.stops[g.index]? = some st ∧ g.pattern.RunStarts start ∧
      hit = start + st.met c.arriveBy ∧ Sooner c.arriveBy t hit := by
  unfold Gate.exactTime? at h
  unfold PatternStop.met Sooner
  split_ifs at * with ha
  · exact FrequencyPattern.exactArrival?_spec h
  · exact FrequencyPattern.exactDeparture?_spec h

theorem Gate.isUsable_of_exactTime? (h : g.exactTime? c t needs = some hit) :
    ∃ st, g.pattern.stops[g.index]? = some st ∧ g.pattern.isUsable st needs = true := by
  have key : ∀ {st : PatternStop} {unavailable : Bool} {times : Option Int},
      (if !g.pattern.isUsable st needs || unavailable then none else times) = some hit →
        g.pattern.isUsable st needs = true := by
    intro st unavailable times h
    cases hu : g.pattern.isUsable st needs with
    | false => rw [hu] at h; cases h
    | true => rfl
  unfold Gate.exactTime? FrequencyPattern.exactArrival? FrequencyPattern.exactDeparture? at h
  cases hst : g.pattern.stops[g.index]? with
  | none => rw [hst] at h; split_ifs at h
  | some st =>
    rw [hst] at h
    split at h
    · exact ⟨st, rfl, key h⟩
    · exact ⟨st, rfl, key h⟩

theorem Gate.exactTime?_mono (h : g.exactTime? c t needs = some hit)
    (ht : Sooner c.arriveBy t' t) :
    ∃ hit', g.exactTime? c t' needs = some hit' ∧ Sooner c.arriveBy hit' hit := by
  unfold Gate.exactTime? at h ⊢
  unfold Sooner at ht ⊢
  split_ifs at * with ha
  · exact FrequencyPattern.exactArrival?_mono h ht
  · exact FrequencyPattern.exactDeparture?_mono h ht

/-- A day offers a vehicle when it has begun, its vehicles run and one of them can be met. -/
theorem Gate.exactWait?_eq_some : g.exactWait? c s meeting day = some wait ↔
      0 ≤ meeting - day.midnight ∧ meeting - day.midnight < 2 ^ 31 ∧
      day.runs g.pattern.service = true ∧
      ∃ hit, g.exactTime? c (meeting - day.midnight)
          ⟨c.request.wheelchair, s.streetMode == .bicycle⟩ = some hit ∧
        onward c.arriveBy s.time wait = day.midnight + hit := by
  have hw : ∀ hit : Int, secondsTo c.arriveBy s.time (day.midnight + hit) = wait ↔
        onward c.arriveBy s.time wait = day.midnight + hit := by
    intro hit
    unfold onward secondsTo
    split_ifs <;> constructor <;> intro h <;> omega
  unfold Gate.exactWait?
  simp only
  have hmax : Int32.maxValue.toInt = 2 ^ 31 - 1 := rfl
  by_cases hd : meeting - day.midnight < 0 ∨ Int32.maxValue.toInt < meeting - day.midnight ∨
      (!day.runs g.pattern.service) = true
  · rw [if_pos hd]
    refine ⟨fun h => (nomatch h), fun ⟨h₁, h₂, h₃, _⟩ => ?_⟩
    rw [h₃] at hd
    rcases hd with hd | hd | hd
    · omega
    · omega
    · cases hd
  · rw [if_neg hd, Option.map_eq_some_iff]
    simp only [hw]
    rw [not_or, not_or, Bool.not_eq_true, Bool.not_eq_false'] at hd
    exact ⟨fun h => ⟨by omega, by omega, hd.2.2, h⟩, fun h => h.2.2.2⟩

/-! ## The best of three days -/

theorem mem_of_foldl_shorterWait {hits : List (Int × ServiceDay)} :
    ∀ {best : Option (Int × ServiceDay)} {r}, hits.foldl shorterWait best = some r →
      r ∈ hits ∨ best = some r := by
  induction hits with
  | nil => exact fun h => .inr h
  | cons hit rest ih =>
    intro best r h
    rw [List.foldl_cons] at h
    rcases ih h with h | h
    · exact .inl (List.mem_cons_of_mem _ h)
    · cases best with
      | none => exact .inl (Option.some.inj h ▸ List.mem_cons_self)
      | some b =>
        unfold shorterWait at h
        simp only at h
        split_ifs at h
        · exact .inl (Option.some.inj h ▸ List.mem_cons_self)
        · exact .inr h

/-- When no wait is negative, the best of several hits is the first of those with the least wait. -/
theorem foldl_shorterWait_first {hits : List (Int × ServiceDay)} (hnn : ∀ x ∈ hits, 0 ≤ x.1) :
    hits = [] ∨ ∃ r, hits.foldl shorterWait none = some r ∧
      hits.find? (·.1 == r.1) = some r ∧ ∀ x ∈ hits, r.1 ≤ x.1 := by
  -- the last hit comes after all others have been looked at
  induction hits using List.reverseRecOn with
  | nil => exact .inl rfl
  | append_singleton hits x ih =>
    have hx : 0 ≤ x.1 := hnn x List.mem_concat_self
    right
    rw [List.foldl_append, List.foldl_cons, List.foldl_nil]
    rcases ih fun y hy => hnn y (List.mem_append_left _ hy) with rfl | ⟨r, hr, hfirst, hle⟩
    · exact ⟨x, rfl, by simp, by simp⟩
    have hr₀ : 0 ≤ r.1 := hnn r (List.mem_append_left _ (List.mem_of_find?_eq_some hfirst))
    rw [hr]
    by_cases hlt : x.1 < r.1
    · have hnone : hits.find? (·.1 == x.1) = none := by
        rw [List.find?_eq_none]
        intro y hy heq
        have := hle y hy
        have := beq_iff_eq.mp heq
        omega
      refine ⟨x, if_pos (.inr ⟨hx, hlt⟩), ?_, ?_⟩
      · rw [List.find?_append, hnone]
        simp
      · intro y hy
        rcases List.mem_append.mp hy with hy | hy
        · have := hle y hy
          omega
        · rw [List.mem_singleton.mp hy]
    · refine ⟨r, if_neg (by omega), ?_, ?_⟩
      · rw [List.find?_append, hfirst]
        rfl
      · intro y hy
        rcases List.mem_append.mp hy with hy | hy
        · exact hle y hy
        · rw [List.mem_singleton.mp hy]
          omega

theorem Gate.exactVehicle?_mem (h : g.exactVehicle? c s meeting = some (wait, day)) :
    day ∈ c.days.toList ∧ g.exactWait? c s meeting day = some wait := by
  unfold Gate.exactVehicle? at h
  rcases mem_of_foldl_shorterWait h with h | h
  · obtain ⟨d, hd, hw⟩ := List.mem_filterMap.mp h
    obtain ⟨w, hw', heq⟩ := Option.map_eq_some_iff.mp hw
    obtain ⟨rfl, rfl⟩ := Prod.mk.inj heq
    exact ⟨hd, hw'⟩
  · cases h

/-- When no day has a negative wait, the nearest vehicle is that of the first day with the least
wait, and there is none only if no day has one. -/
theorem Gate.exactVehicle?_first
    (hnn : ∀ d ∈ c.days.toList, ∀ w, g.exactWait? c s meeting d = some w → 0 ≤ w) :
    (g.exactVehicle? c s meeting = none ∧ ∀ d ∈ c.days.toList, g.exactWait? c s meeting d = none) ∨
    ∃ w day, g.exactVehicle? c s meeting = some (w, day) ∧
      c.days.toList.find? (fun d => g.exactWait? c s meeting d == some w) = some day ∧
      ∀ d ∈ c.days.toList, ∀ w', g.exactWait? c s meeting d = some w' → w ≤ w' := by
  have hmem : ∀ {x},
      (x ∈ c.days.toList.filterMap fun d => (g.exactWait? c s meeting d).map (·, d)) ↔
      ∃ d ∈ c.days.toList, ∃ w, g.exactWait? c s meeting d = some w ∧ (w, d) = x := by
    simp only [List.mem_filterMap, Option.map_eq_some_iff, implies_true]
  have hwaits : ∀ x ∈ c.days.toList.filterMap fun d => (g.exactWait? c s meeting d).map (·, d),
      0 ≤ x.1 := by
    intro x hx
    obtain ⟨d, hd, w, hw, rfl⟩ := hmem.mp hx
    exact hnn d hd w hw
  rcases foldl_shorterWait_first hwaits with hnil | ⟨⟨w, day⟩, hr, hfirst, hle⟩
  · refine .inl ⟨congrArg (List.foldl shorterWait none) hnil, ?_⟩
    intro d hd
    exact Option.map_eq_none_iff.mp (List.filterMap_eq_nil_iff.mp hnil d hd)
  · refine .inr ⟨w, day, hr, ?_, ?_⟩
    · rw [List.find?_filterMap, Option.bind_eq_some_iff] at hfirst
      obtain ⟨d, hd, hw⟩ := hfirst
      obtain ⟨_, -, heq⟩ := Option.map_eq_some_iff.mp hw
      obtain ⟨-, rfl⟩ := Prod.mk.inj heq
      rw [← hd]
      congr 1
      funext d
      cases g.exactWait? c s meeting d <;> rfl
    · intro d hd w' hw'
      exact hle (w', d) (hmem.mpr ⟨d, hd, w', hw', rfl⟩)

/-- When no day has a negative wait, the nearest vehicle is no worse than that of any day. -/
theorem Gate.exactVehicle?_le
    (hnn : ∀ d ∈ c.days.toList, ∀ w, g.exactWait? c s meeting d = some w → 0 ≤ w)
    (hd : day ∈ c.days.toList) (hw : g.exactWait? c s meeting day = some wait) :
    ∃ w d, g.exactVehicle? c s meeting = some (w, d) ∧ w ≤ wait := by
  rcases Gate.exactVehicle?_first hnn with ⟨-, hnone⟩ | ⟨w, d, hr, -, hle⟩
  · rw [hnone day hd] at hw
    cases hw
  · exact ⟨w, d, hr, hle day hd wait hw⟩

/-! ## Meeting it sooner -/

theorem sooner_exactMeeting (transfer : TransferTime) :
    Sooner c.arriveBy s.time (exactMeeting c s transfer) := by
  unfold exactMeeting Sooner
  cases transfer.minimumSeconds? <;> cases s.lastAlighted <;> simp only <;> split_ifs <;> omega

/-- Between two vehicles there is at least the time that the transfer needs. -/
theorem onward_exactMeeting {seconds : Nat} {alighted : Int}
    (ha : s.lastAlighted = some alighted) (hs : Sooner c.arriveBy alighted s.time) :
    Sooner c.arriveBy (onward c.arriveBy alighted seconds)
      (exactMeeting c s (.minimum seconds)) := by
  unfold exactMeeting Sooner onward at *
  rw [ha]
  simp only [TransferTime.minimumSeconds?]
  split_ifs at * <;> omega

theorem exactMeeting_mono (transfer : TransferTime)
    (ht : Sooner c.arriveBy s'.time s.time)
    (ha : Option.Rel (Sooner c.arriveBy) s'.lastAlighted s.lastAlighted) :
    Sooner c.arriveBy (exactMeeting c s' transfer) (exactMeeting c s transfer) := by
  unfold exactMeeting
  cases transfer.minimumSeconds? with
  | none => exact ht
  | some least =>
    generalize s'.lastAlighted = a', s.lastAlighted = a at ha ⊢
    cases ha with
    | none => exact ht
    | some h =>
      unfold Sooner onward at *
      simp only
      split_ifs at * <;> omega

theorem Gate.exactWait?_nonneg (hs : Sooner c.arriveBy s.time meeting)
    (h : g.exactWait? c s meeting day = some wait) : 0 ≤ wait := by
  obtain ⟨-, -, -, hit, hhit, hw⟩ := Gate.exactWait?_eq_some.mp h
  obtain ⟨-, -, -, -, -, hle⟩ := Gate.exactTime?_spec hhit
  have hmet : Sooner c.arriveBy s.time (onward c.arriveBy s.time wait) := by
    rw [hw]
    refine hs.trans ?_
    unfold Sooner at *
    split_ifs at * <;> omega
  exact sooner_onward_iff.mp hmet

/-- A traveller who can meet vehicles sooner is on board no later, when the day of the vehicle has
begun for him too. -/
theorem Gate.exactVehicle?_mono (h : g.exactVehicle? c s meeting = some (wait, day))
    (hm : Sooner c.arriveBy meeting' meeting)
    (hs' : Sooner c.arriveBy s'.time meeting') (hmode : s'.streetMode = s.streetMode)
    (hbegun : 0 ≤ meeting' - day.midnight) (hnear : meeting' - day.midnight < 2 ^ 31) :
    ∃ wait' day', g.exactVehicle? c s' meeting' = some (wait', day') ∧ 0 ≤ wait' ∧
      Sooner c.arriveBy (onward c.arriveBy s'.time wait') (onward c.arriveBy s.time wait) := by
  obtain ⟨hd, hwait⟩ := Gate.exactVehicle?_mem h
  obtain ⟨-, -, hruns, hit, hhit, hw⟩ := Gate.exactWait?_eq_some.mp hwait
  -- the same day offers a vehicle that is no later
  have hsooner : Sooner c.arriveBy (meeting' - day.midnight) (meeting - day.midnight) := by
    unfold Sooner at *
    split_ifs at * <;> omega
  obtain ⟨hit', hhit', hle⟩ := Gate.exactTime?_mono hhit hsooner
  obtain ⟨wait', hw'⟩ : ∃ w, onward c.arriveBy s'.time w = day.midnight + hit' := by
    unfold onward
    split_ifs
    · exact ⟨s'.time - (day.midnight + hit'), by omega⟩
    · exact ⟨day.midnight + hit' - s'.time, by omega⟩
  have hwait' : g.exactWait? c s' meeting' day = some wait' :=
    Gate.exactWait?_eq_some.mpr ⟨hbegun, hnear, hruns, hit', by rw [hmode]; exact hhit', hw'⟩
  -- and the nearest vehicle of all days is no later than that
  obtain ⟨w, d, hr, hwle⟩ := Gate.exactVehicle?_le
    (fun _ _ _ h => Gate.exactWait?_nonneg hs' h) hd hwait'
  refine ⟨w, d, hr, Gate.exactWait?_nonneg hs' (Gate.exactVehicle?_mem hr).2, ?_⟩
  refine (onward_le_onward_iff.mpr hwle).trans ?_
  rw [hw, hw']
  unfold Sooner at *
  split_ifs at * <;> omega

/-! ## Transfers -/

theorem unlessOverflow_eq_ok {α : Type} {x : Except Overflow α} {a : α} :
    unlessOverflow x = .ok a ↔ x = .ok a := by
  cases x with
  | error => exact ⟨nofun, nofun⟩
  | ok b => exact ⟨fun h => congrArg Except.ok (Except.ok.inj h),
      fun h => congrArg Except.ok (Except.ok.inj h)⟩

/-- After an earlier ride a transfer is made unless it is forbidden, and over a timed-transfer edge
if and only if it is timed. -/
theorem checkTransfer_eq_ok [Weight W] {stop : StopId} {trip : Trip} {penalty : W}
    (h : s.everBoarded = true) :
    checkTransfer c s stop trip = .ok (meeting, penalty) ↔
      transferAt c s stop trip ≠ .forbidden ∧
      (s.cameBy .timedTransfer = true ↔ transferAt c s stop trip = .timed) ∧
      earliestMeeting c s (transferAt c s stop trip) = .ok meeting ∧
      penalty = (transferAt c s stop trip).penalty c.request.nonpreferredTransferPenalty := by
  unfold checkTransfer
  rw [if_pos h]
  simp only
  constructor
  · intro hok
    obtain ⟨hforbidden, hok⟩ := refuse_eq_ok.mp hok
    obtain ⟨m, hm, hok⟩ := bind_eq_ok.mp hok
    obtain ⟨hnot, hok⟩ := refuse_eq_ok.mp hok
    obtain ⟨hmissing, hok⟩ := refuse_eq_ok.mp hok
    cases Except.ok.inj hok
    refine ⟨hforbidden, ?_, unlessOverflow_eq_ok.mp hm, rfl⟩
    cases hcame : s.cameBy .timedTransfer <;> simp_all
  · rintro ⟨hforbidden, htimed, hm, rfl⟩
    refine refuse_eq_ok.mpr ⟨hforbidden, bind_eq_ok.mpr ⟨_, unlessOverflow_eq_ok.mpr hm, ?_⟩⟩
    refine refuse_eq_ok.mpr ⟨?_, refuse_eq_ok.mpr ⟨?_, rfl⟩⟩ <;>
      cases hcame : s.cameBy .timedTransfer <;> simp_all

theorem exactMeeting_eq {transfer : TransferTime} (h : earliestMeeting c s transfer = .ok meeting) :
    exactMeeting c s transfer = meeting :=
  Except.ok.inj ((earliestMeeting_unbounded (c := c.exact) rfl transfer).symm.trans
    ((earliestMeeting_same c s transfer).eq_ok h))

theorem checkTransfer_first [Weight W] {stop : StopId} {trip : Trip} (h : s.everBoarded = false) :
    checkTransfer c s stop trip = .ok (s.time, Weight.zero) := by
  unfold checkTransfer
  rw [h]
  rfl

end JourneyPlanner
