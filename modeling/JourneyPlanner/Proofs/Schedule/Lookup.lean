import Mathlib.Data.Int.Order.Basic
import Mathlib.Tactic.Linarith
import Mathlib.Tactic.Ring
import JourneyPlanner.Proofs.Failures
import JourneyPlanner.Schedule.Pattern

/-!
# Looking up vehicles

What a lookup finds without bound on integers is said by a formula of its own, such as
`HeadwayWindow.exactNext?`; in words the lookup finds the same unless it overflows. The start that a
window finds for a time is one at which a vehicle may start, lies on the search's side of the time,
and moves with it: an earlier time never finds a later start. The same holds of the nearest
departure and arrival of a pattern.
-/

namespace JourneyPlanner

/-- Whether the first of two times comes no later than the second in the direction of a search. -/
def Sooner (arriveBy : Bool) (a b : Int) : Prop := if arriveBy then b ≤ a else a ≤ b

theorem Sooner.refl (arriveBy : Bool) (a : Int) : Sooner arriveBy a a := by
  unfold Sooner; split_ifs <;> exact le_refl a

theorem Sooner.trans {arriveBy : Bool} {a b c : Int} (h : Sooner arriveBy a b)
    (h' : Sooner arriveBy b c) : Sooner arriveBy a c := by
  unfold Sooner at *; split_ifs at * <;> omega

namespace HeadwayWindow

variable {w : HeadwayWindow} {t t' s : Int}

/-- The start of the last vehicle of a timetable, exactly. -/
def exactLast (w : HeadwayWindow) : Int :=
  w.start + (w.stop - 1 - w.start) / w.headway * w.headway

/-- The earliest start at or after `t`, exactly. -/
def exactNext? (w : HeadwayWindow) (t : Int) : Option Int :=
  if w.stop ≤ t then none
  else if t ≤ w.start then some w.start
  else if w.exact then
    if w.start + (t - w.start + w.headway - 1) / w.headway * w.headway < w.stop then
      some (w.start + (t - w.start + w.headway - 1) / w.headway * w.headway)
    else none
  else some (min (t + w.headway / 2) (w.stop - 1))

/-- The latest start at or before `t`, exactly. -/
def exactPrevious? (w : HeadwayWindow) (t : Int) : Option Int :=
  if t < w.start then none
  else if w.exact then some (min (w.start + (t - w.start) / w.headway * w.headway) w.exactLast)
  else some (max w.start (min (t - w.headway / 2) (w.stop - 1)))

@[simp] theorem startOf_unbounded (w : HeadwayWindow) (vehicles : Int) :
    w.startOf .unbounded vehicles = .ok (w.start + vehicles * w.headway) := by
  unfold startOf
  simp only [Integers.fit_unbounded, bind, Except.bind]

theorem lastStart_unbounded (w : HeadwayWindow) : w.lastStart .unbounded = .ok w.exactLast := by
  unfold lastStart exactLast
  simp only [Integers.fit_unbounded, startOf_unbounded, bind, Except.bind]

theorem nextStart_unbounded (w : HeadwayWindow) (t : Int) :
    w.nextStart .unbounded t = .ok (w.exactNext? t) := by
  unfold nextStart exactNext?
  simp only [Integers.fit_unbounded, startOf_unbounded, bind, Except.bind, pure, Except.pure]
  split_ifs <;> rfl

theorem previousStart_unbounded (w : HeadwayWindow) (t : Int) :
    w.previousStart .unbounded t = .ok (w.exactPrevious? t) := by
  unfold previousStart exactPrevious?
  simp only [Integers.fit_unbounded, startOf_unbounded, lastStart_unbounded, bind, Except.bind,
    pure, Except.pure]
  split_ifs <;> rfl

theorem startOf_same (k : Integers) (w : HeadwayWindow) (vehicles : Int) :
    SameUnless .overflow (w.startOf k vehicles) (w.startOf .unbounded vehicles) :=
  (k.fit_same 32 _).bind fun _ => k.fit_same 32 _

theorem lastStart_same (k : Integers) (w : HeadwayWindow) :
    SameUnless .overflow (w.lastStart k) (w.lastStart .unbounded) :=
  (k.fit_same 32 _).bind fun _ => (k.fit_same 32 _).bind fun _ => w.startOf_same k _

theorem nextStart_same (k : Integers) (w : HeadwayWindow) (t : Int) :
    SameUnless .overflow (w.nextStart k t) (w.nextStart .unbounded t) := by
  unfold nextStart
  split_ifs
  · exact .refl _ _
  · exact .refl _ _
  · exact (k.fit_same 32 _).bind fun _ => (k.fit_same 32 _).bind fun _ =>
      (k.fit_same 32 _).bind fun _ => (w.startOf_same k _).bind fun _ => .refl _ _
  · exact (k.fit_same 32 _).bind fun _ => (k.fit_same 32 _).bind fun _ => .refl _ _

theorem previousStart_same (k : Integers) (w : HeadwayWindow) (t : Int) :
    SameUnless .overflow (w.previousStart k t) (w.previousStart .unbounded t) := by
  unfold previousStart
  split_ifs
  · exact .refl _ _
  · exact (k.fit_same 32 _).bind fun _ => (w.startOf_same k _).bind fun _ =>
      (w.lastStart_same k).bind fun _ => .refl _ _
  · exact (k.fit_same 32 _).bind fun _ => (k.fit_same 32 _).bind fun _ => .refl _ _

theorem exactLast_bounds (w : HeadwayWindow) : w.start ≤ w.exactLast ∧ w.exactLast < w.stop ∧
    w.headway ∣ w.exactLast - w.start := by
  have hh := w.headway_pos
  have hs := w.start_lt_stop
  have hq : 0 ≤ (w.stop - 1 - w.start) / w.headway := Int.ediv_nonneg (by omega) hh.le
  have hle := Int.ediv_mul_le (w.stop - 1 - w.start) hh.ne'
  have hnn := mul_nonneg hq hh.le
  unfold exactLast
  exact ⟨by omega, by omega, ⟨(w.stop - 1 - w.start) / w.headway, by ring⟩⟩

theorem roundUp_bounds (w : HeadwayWindow) (t : Int) :
    t ≤ w.start + (t - w.start + w.headway - 1) / w.headway * w.headway := by
  have hh := w.headway_pos
  have := Int.lt_ediv_add_one_mul_self (t - w.start + w.headway - 1) hh
  rw [add_mul, one_mul] at this
  omega

/-- A start found for a time is in the window, on its timetable, and not before the time. -/
theorem exactNext?_spec (h : w.exactNext? t = some s) : w.Starts s ∧ t ≤ s := by
  have hs := w.start_lt_stop
  unfold exactNext? at h
  by_cases h₁ : w.stop ≤ t
  · rw [if_pos h₁] at h
    cases h
  rw [if_neg h₁] at h
  by_cases h₂ : t ≤ w.start
  · rw [if_pos h₂, Option.some.injEq] at h
    subst h
    exact ⟨⟨le_refl _, hs, fun _ => ⟨0, by ring⟩⟩, h₂⟩
  rw [if_neg h₂] at h
  cases he : w.exact with
  | true =>
    have hup := w.roundUp_bounds t
    simp only [he, if_true] at h
    split_ifs at h with h₃
    rw [Option.some.injEq] at h
    subst h
    exact ⟨⟨by omega, h₃, fun _ => ⟨_, by rw [add_sub_cancel_left, mul_comm]⟩⟩, hup⟩
  | false =>
    have hhalf := Int.ediv_nonneg w.headway_pos.le (show (0 : Int) ≤ 2 by decide)
    simp only [he, Bool.false_eq_true, if_false, Option.some.injEq] at h
    subst h
    exact ⟨⟨by omega, by omega, fun h => absurd (he.symm.trans h) Bool.false_ne_true⟩, by omega⟩

theorem exactNext?_mono (h : w.exactNext? t = some s) (ht : t' ≤ t) :
    ∃ s', w.exactNext? t' = some s' ∧ s' ≤ s := by
  have hspec := exactNext?_spec h
  unfold exactNext? at h ⊢
  by_cases h₁ : w.stop ≤ t
  · rw [if_pos h₁] at h
    cases h
  rw [if_neg h₁] at h
  rw [if_neg (by omega : ¬ w.stop ≤ t')]
  by_cases h₂ : t' ≤ w.start
  · rw [if_pos h₂]
    exact ⟨_, rfl, hspec.1.1⟩
  rw [if_neg h₂]
  rw [if_neg (by omega : ¬ t ≤ w.start)] at h
  cases he : w.exact with
  | true =>
    have hle : (t' - w.start + w.headway - 1) / w.headway ≤
        (t - w.start + w.headway - 1) / w.headway :=
      Int.ediv_le_ediv w.headway_pos (by omega)
    have hmul := mul_le_mul_of_nonneg_right hle w.headway_pos.le
    simp only [he, if_true] at h ⊢
    split_ifs at h with h₃
    rw [Option.some.injEq] at h
    rw [if_pos (by omega)]
    exact ⟨_, rfl, by omega⟩
  | false =>
    simp only [he, Bool.false_eq_true, if_false, Option.some.injEq] at h ⊢
    exact ⟨_, rfl, by omega⟩

/-- The earliest start of a timetable that is not before one of its starts is this one. -/
theorem exactNext?_of_starts (he : w.exact = true) (h : w.Starts s) :
    w.exactNext? s = some s := by
  have hh := w.headway_pos
  obtain ⟨hlow, hhigh, hdvd⟩ := h
  unfold exactNext?
  rw [if_neg (by omega)]
  by_cases hfirst : s ≤ w.start
  · rw [if_pos hfirst, show w.start = s by omega]
  obtain ⟨q, hq⟩ := hdvd he
  have hself : w.start + (s - w.start + w.headway - 1) / w.headway * w.headway = s := by
    rw [show s - w.start + w.headway - 1 = w.headway - 1 + w.headway * q by omega,
      Int.add_mul_ediv_left _ _ hh.ne', Int.ediv_eq_zero_of_lt (by omega) (by omega), zero_add,
      mul_comm, ← hq]
    omega
  rw [if_neg hfirst, he, if_pos rfl, hself, if_pos hhigh]

theorem exactPrevious?_spec (h : w.exactPrevious? t = some s) : w.Starts s ∧ s ≤ t := by
  have hs := w.start_lt_stop
  have hh := w.headway_pos
  unfold exactPrevious? at h
  by_cases h₁ : t < w.start
  · rw [if_pos h₁] at h
    cases h
  rw [if_neg h₁] at h
  cases he : w.exact with
  | true =>
    have hq : 0 ≤ (t - w.start) / w.headway := Int.ediv_nonneg (by omega) hh.le
    have hle := Int.ediv_mul_le (t - w.start) hh.ne'
    have hnn := mul_nonneg hq hh.le
    obtain ⟨hlow, hhigh, hdvd⟩ := w.exactLast_bounds
    simp only [he, if_true, Option.some.injEq] at h
    subst h
    refine ⟨⟨by omega, by omega, fun _ => ?_⟩, by omega⟩
    rcases min_choice (w.start + (t - w.start) / w.headway * w.headway) w.exactLast with h | h
    · rw [h]
      exact ⟨_, by rw [add_sub_cancel_left, mul_comm]⟩
    · rw [h]
      exact hdvd
  | false =>
    have hhalf := Int.ediv_nonneg hh.le (show (0 : Int) ≤ 2 by decide)
    simp only [he, Bool.false_eq_true, if_false, Option.some.injEq] at h
    subst h
    exact ⟨⟨by omega, by omega, fun h => absurd (he.symm.trans h) Bool.false_ne_true⟩, by omega⟩

theorem exactPrevious?_mono (h : w.exactPrevious? t = some s) (ht : t ≤ t') :
    ∃ s', w.exactPrevious? t' = some s' ∧ s ≤ s' := by
  unfold exactPrevious? at h ⊢
  by_cases h₁ : t < w.start
  · rw [if_pos h₁] at h
    cases h
  rw [if_neg h₁] at h
  rw [if_neg (by omega : ¬ t' < w.start)]
  cases he : w.exact with
  | true =>
    have hle : (t - w.start) / w.headway ≤ (t' - w.start) / w.headway :=
      Int.ediv_le_ediv w.headway_pos (by omega)
    have hmul := mul_le_mul_of_nonneg_right hle w.headway_pos.le
    simp only [he, if_true, Option.some.injEq] at h ⊢
    exact ⟨_, rfl, by omega⟩
  | false =>
    simp only [he, Bool.false_eq_true, if_false, Option.some.injEq] at h ⊢
    exact ⟨_, rfl, by omega⟩

theorem exactPrevious?_of_starts (he : w.exact = true) (h : w.Starts s) :
    w.exactPrevious? s = some s := by
  obtain ⟨hlow, hhigh, hdvd⟩ := h
  have hself : (s - w.start) / w.headway * w.headway = s - w.start :=
    Int.ediv_mul_cancel (hdvd he)
  have hlast := mul_le_mul_of_nonneg_right (Int.ediv_le_ediv w.headway_pos
    (show s - w.start ≤ w.stop - 1 - w.start by omega)) w.headway_pos.le
  unfold exactPrevious? exactLast
  rw [if_neg (by omega), he, if_pos rfl, Option.some.injEq]
  omega

end HeadwayWindow

namespace FrequencyPattern

variable {p : FrequencyPattern} {i : Nat} {t t' hit : Int} {needs : Needs} {checked : Bool}

/-- Whether a run of the pattern may start at `s` seconds of a day. -/
def RunStarts (p : FrequencyPattern) (s : Int) : Prop := ∃ w ∈ p.windows, w.Starts s

/-- The earliest departure from a position at or after `t`, exactly. -/
def exactDeparture? (p : FrequencyPattern) (i : Nat) (t : Int) (needs : Needs) (checked : Bool) :
    Option Int :=
  match p.stops[i]? with
  | none => none
  | some s =>
    if !p.isUsable s needs || (checked && !s.board.isAvailable) then none
    else (p.windows.filterMap fun w => w.exactNext? (t - s.departure)).min?.map (· + s.departure)

/-- The latest arrival at a position at or before `t`, exactly. -/
def exactArrival? (p : FrequencyPattern) (i : Nat) (t : Int) (needs : Needs) (checked : Bool) :
    Option Int :=
  match p.stops[i]? with
  | none => none
  | some s =>
    if !p.isUsable s needs || (checked && !s.alight.isAvailable) then none
    else (p.windows.filterMap fun w => w.exactPrevious? (t - s.arrival)).max?.map (· + s.arrival)

theorem shift_unbounded (start? : Option Int) (offset : Int) :
    (start?.mapM fun start => Integers.unbounded.fit 32 (start + offset)) =
      .ok (start?.map (· + offset)) := by
  simp only [Integers.fit_unbounded]
  cases start? <;> rfl

theorem nextDeparture?_unbounded (p : FrequencyPattern) (i : Nat) (t : Int) (needs : Needs)
    (checked : Bool) :
    p.nextDeparture? .unbounded i t needs checked = .ok (p.exactDeparture? i t needs checked) := by
  unfold nextDeparture? exactDeparture?
  cases p.stops[i]? with
  | none => rfl
  | some s =>
    simp only
    split_ifs
    · rfl
    · rw [mapM_eq_map (h := fun w => w.exactNext? (t - s.departure)) fun w _ => by
        rw [Integers.fit_unbounded]
        exact w.nextStart_unbounded _]
      exact (shift_unbounded _ _).trans (by rw [List.filterMap_map]; rfl)

theorem previousArrival?_unbounded (p : FrequencyPattern) (i : Nat) (t : Int) (needs : Needs)
    (checked : Bool) :
    p.previousArrival? .unbounded i t needs checked = .ok (p.exactArrival? i t needs checked) := by
  unfold previousArrival? exactArrival?
  cases p.stops[i]? with
  | none => rfl
  | some s =>
    simp only
    split_ifs
    · rfl
    · rw [mapM_eq_map (h := fun w => w.exactPrevious? (t - s.arrival)) fun w _ => by
        rw [Integers.fit_unbounded]
        exact w.previousStart_unbounded _]
      exact (shift_unbounded _ _).trans (by rw [List.filterMap_map]; rfl)

theorem nextDeparture?_same (k : Integers) (p : FrequencyPattern) (i : Nat) (t : Int)
    (needs : Needs) (checked : Bool) : SameUnless .overflow
      (p.nextDeparture? k i t needs checked) (p.nextDeparture? .unbounded i t needs checked) := by
  unfold nextDeparture?
  cases p.stops[i]? with
  | none => exact .refl _ _
  | some s =>
    simp only
    split_ifs
    · exact .refl _ _
    · exact (SameUnless.mapM (fun w => (k.fit_same 32 _).bind (w.nextStart_same k)) _).bind
        fun _ => .optionMapM (fun _ => k.fit_same 32 _) _

theorem previousArrival?_same (k : Integers) (p : FrequencyPattern) (i : Nat) (t : Int)
    (needs : Needs) (checked : Bool) : SameUnless .overflow
      (p.previousArrival? k i t needs checked)
      (p.previousArrival? .unbounded i t needs checked) := by
  unfold previousArrival?
  cases p.stops[i]? with
  | none => exact .refl _ _
  | some s =>
    simp only
    split_ifs
    · exact .refl _ _
    · exact (SameUnless.mapM (fun w => (k.fit_same 32 _).bind (w.previousStart_same k)) _).bind
        fun _ => .optionMapM (fun _ => k.fit_same 32 _) _

/-- The departure found is that of a run, and not before the time. -/
theorem exactDeparture?_spec (h : p.exactDeparture? i t needs checked = some hit) :
    ∃ st s, p.stops[i]? = some st ∧ p.RunStarts s ∧ hit = s + st.departure ∧ t ≤ hit := by
  unfold exactDeparture? at h
  cases hst : p.stops[i]? with
  | none => rw [hst] at h; cases h
  | some st =>
    simp only [hst] at h
    split_ifs at h
    obtain ⟨s, hmin, rfl⟩ := Option.map_eq_some_iff.mp h
    obtain ⟨w, hw, hs⟩ := List.mem_filterMap.mp (List.min?_eq_some_iff.mp hmin).1
    obtain ⟨hstart, hle⟩ := HeadwayWindow.exactNext?_spec hs
    exact ⟨st, s, rfl, ⟨w, hw, hstart⟩, rfl, by omega⟩

theorem exactDeparture?_mono (h : p.exactDeparture? i t needs checked = some hit)
    (ht : t' ≤ t) :
    ∃ hit', p.exactDeparture? i t' needs checked = some hit' ∧ hit' ≤ hit := by
  unfold exactDeparture? at h ⊢
  cases hst : p.stops[i]? with
  | none => rw [hst] at h; cases h
  | some st =>
    simp only [hst] at h ⊢
    split_ifs at h with hu
    rw [if_neg hu]
    obtain ⟨s, hmin, rfl⟩ := Option.map_eq_some_iff.mp h
    obtain ⟨w, hw, hs⟩ := List.mem_filterMap.mp (List.min?_eq_some_iff.mp hmin).1
    obtain ⟨s', hs', hle⟩ :=
      HeadwayWindow.exactNext?_mono hs (show t' - st.departure ≤ t - st.departure by omega)
    have hmem : s' ∈ p.windows.filterMap fun w => w.exactNext? (t' - st.departure) :=
      List.mem_filterMap.mpr ⟨w, hw, hs'⟩
    obtain ⟨m, hm⟩ := Option.isSome_iff_exists.mp (List.isSome_min?_of_mem hmem)
    have hmle := (List.min?_eq_some_iff.mp hm).2 s' hmem
    rw [hm]
    exact ⟨m + st.departure, rfl, by omega⟩

theorem exactArrival?_spec (h : p.exactArrival? i t needs checked = some hit) :
    ∃ st s, p.stops[i]? = some st ∧ p.RunStarts s ∧ hit = s + st.arrival ∧ hit ≤ t := by
  unfold exactArrival? at h
  cases hst : p.stops[i]? with
  | none => rw [hst] at h; cases h
  | some st =>
    simp only [hst] at h
    split_ifs at h
    obtain ⟨s, hmax, rfl⟩ := Option.map_eq_some_iff.mp h
    obtain ⟨w, hw, hs⟩ := List.mem_filterMap.mp (List.max?_eq_some_iff.mp hmax).1
    obtain ⟨hstart, hle⟩ := HeadwayWindow.exactPrevious?_spec hs
    exact ⟨st, s, rfl, ⟨w, hw, hstart⟩, rfl, by omega⟩

theorem exactArrival?_mono (h : p.exactArrival? i t needs checked = some hit)
    (ht : t ≤ t') :
    ∃ hit', p.exactArrival? i t' needs checked = some hit' ∧ hit ≤ hit' := by
  unfold exactArrival? at h ⊢
  cases hst : p.stops[i]? with
  | none => rw [hst] at h; cases h
  | some st =>
    simp only [hst] at h ⊢
    split_ifs at h with hu
    rw [if_neg hu]
    obtain ⟨s, hmax, rfl⟩ := Option.map_eq_some_iff.mp h
    obtain ⟨w, hw, hs⟩ := List.mem_filterMap.mp (List.max?_eq_some_iff.mp hmax).1
    obtain ⟨s', hs', hle⟩ :=
      HeadwayWindow.exactPrevious?_mono hs (show t - st.arrival ≤ t' - st.arrival by omega)
    have hmem : s' ∈ p.windows.filterMap fun w => w.exactPrevious? (t' - st.arrival) :=
      List.mem_filterMap.mpr ⟨w, hw, hs'⟩
    obtain ⟨m, hm⟩ := Option.isSome_iff_exists.mp (List.isSome_max?_of_mem hmem)
    have hmle := (List.max?_eq_some_iff.mp hm).2 s' hmem
    rw [hm]
    exact ⟨m + st.arrival, rfl, by omega⟩

/-- On a timetable the earliest departure that is not before that of a run is the departure of the
run. -/
theorem exactDeparture?_of_runStarts (he : ∀ w ∈ p.windows, w.exact = true) {st : PatternStop}
    (hst : p.stops[i]? = some st) (hu : p.isUsable st needs = true)
    (ha : checked = true → st.board.isAvailable = true) {s : Int} (hs : p.RunStarts s) :
    p.exactDeparture? i (s + st.departure) needs checked = some (s + st.departure) := by
  obtain ⟨w, hw, hstarts⟩ := hs
  have hopen : (checked && !st.board.isAvailable) = false := by
    cases checked <;> simp [*]
  unfold exactDeparture?
  rw [hst]
  simp only [hu, hopen, Bool.not_true, Bool.or_self, Bool.false_eq_true, if_false]
  rw [Int.add_sub_cancel, show (p.windows.filterMap fun w => w.exactNext? s).min? = some s
    from List.min?_eq_some_iff.mpr ⟨List.mem_filterMap.mpr
      ⟨w, hw, HeadwayWindow.exactNext?_of_starts (he w hw) hstarts⟩, fun u hu => ?_⟩]
  · rfl
  · obtain ⟨w', -, hu⟩ := List.mem_filterMap.mp hu
    exact (HeadwayWindow.exactNext?_spec hu).2

/-- On a timetable the latest arrival that is not after that of a run is the arrival of the run. -/
theorem exactArrival?_of_runStarts (he : ∀ w ∈ p.windows, w.exact = true) {st : PatternStop}
    (hst : p.stops[i]? = some st) (hu : p.isUsable st needs = true)
    (ha : checked = true → st.alight.isAvailable = true) {s : Int} (hs : p.RunStarts s) :
    p.exactArrival? i (s + st.arrival) needs checked = some (s + st.arrival) := by
  obtain ⟨w, hw, hstarts⟩ := hs
  have hopen : (checked && !st.alight.isAvailable) = false := by
    cases checked <;> simp [*]
  unfold exactArrival?
  rw [hst]
  simp only [hu, hopen, Bool.not_true, Bool.or_self, Bool.false_eq_true, if_false]
  rw [Int.add_sub_cancel, show (p.windows.filterMap fun w => w.exactPrevious? s).max? = some s from
    List.max?_eq_some_iff.mpr ⟨List.mem_filterMap.mpr
      ⟨w, hw, HeadwayWindow.exactPrevious?_of_starts (he w hw) hstarts⟩, fun u hu => ?_⟩]
  · rfl
  · obtain ⟨w', -, hu⟩ := List.mem_filterMap.mp hu
    exact (HeadwayWindow.exactPrevious?_spec hu).2

end FrequencyPattern

end JourneyPlanner
