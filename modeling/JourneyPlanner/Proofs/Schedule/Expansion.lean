import JourneyPlanner.Proofs.Splits
import JourneyPlanner.Schedule.ServiceCalendar
import JourneyPlanner.Time.ZoneRule
import Mathlib.Data.List.Sort
import Mathlib.Order.Bounds.Basic
import Std.Data.TreeMap
import Std.Data.TreeSet

/-!
# Expanding calendar rules

The rules of a calendar can be expanded in order into an index of dates (`DateIndex.ofRules`), which
says of each date what the calendar says of it. So a service runs on a date exactly when one of its
rules starts it there and neither this rule nor a later one of the service removes the date
(`ServiceCalendar.expansion`). The rules of other services do not matter, nor where they stand.
-/

namespace JourneyPlanner

theorem Date.day_inj {d e : Date} : d.day = e.day ↔ d = e :=
  ⟨fun h => congrArg Date.mk h, fun h => congrArg Date.day h⟩

namespace CalendarRule

variable {r : CalendarRule} {d : Date}

/-- The rule does not end before it starts, and spans no more than 1098 days. -/
def WellRanged (r : CalendarRule) : Prop :=
  r.start.day ≤ r.stop.day ∧ r.stop.day - r.start.day + 1 ≤ 1098

/-- The date is one from the start to the stop, on a selected day of the week. -/
def Covers (r : CalendarRule) (d : Date) : Prop :=
  r.start.day ≤ d.day ∧ d.day ≤ r.stop.day ∧ r.weekdays[d.weekday]? = some true

/-- What is said of a rule that is not well ranged. -/
def complaint (r : CalendarRule) : CalendarError :=
  if r.stop.day < r.start.day then .invalidRange r.service r.start r.stop
  else .rangeTooLong r.service (r.stop.day - r.start.day + 1)

theorem fault?_eq_none : r.fault? = none ↔ r.WellRanged := by
  unfold fault? WellRanged days maxDays
  split_ifs with hstop hdays
  · simp only [false_iff]
    omega
  · simp only [false_iff]
    omega
  · simp only [true_iff]
    omega

theorem fault?_eq_some {e : CalendarError} :
    r.fault? = some e ↔ ¬ r.WellRanged ∧ e = r.complaint := by
  by_cases hr : r.WellRanged
  · simp [fault?_eq_none.mpr hr, hr]
  · have hr' := hr
    unfold WellRanged at hr'
    unfold fault? complaint days maxDays
    split_ifs with hstop hdays
    · simp [hr, eq_comm]
    · simp [hr, eq_comm]
    · omega

theorem isWeekly_iff : r.isWeekly d = true ↔ r.Covers d ∧ d ≠ Date.last := by
  unfold isWeekly Covers
  simp only [Bool.and_eq_true, decide_eq_true_eq, Option.getD_eq_iff, Bool.false_eq_true, and_false,
    or_false]
  tauto

theorem includes_iff :
    r.includes d = true ↔ r.Covers d ∧ d ≠ Date.last ∨ d ∈ r.added := by
  unfold includes
  rw [Bool.or_eq_true, isWeekly_iff, List.contains_iff_mem]

theorem apply_iff {running : Bool} :
    r.apply d running = true ↔ (running = true ∨ r.includes d = true) ∧ d ∉ r.removed := by
  unfold apply
  simp

/-- A number of dates from a date on, each with the next one after it: the last date of all has
none, and is not reached. -/
def datesFrom : Nat → Date → List Date
  | 0, _ => []
  | n + 1, d => match d.next? with
    | none => []
    | some next => d :: datesFrom n next

/-- The dates of the weekly pattern. -/
def weeklyDates (r : CalendarRule) : List Date :=
  (datesFrom r.days.toNat r.start).filter fun d => (r.weekdays[d.weekday]?).getD false

theorem mem_datesFrom {n : Nat} : ∀ {start : Date}, d ∈ datesFrom n start ↔
    start.day ≤ d.day ∧ d.day < start.day + n ∧ d.day < Date.last.day := by
  induction n with
  | zero =>
    intro start
    unfold datesFrom
    simp only [List.not_mem_nil, false_iff]
    omega
  | succ n ih =>
    intro start
    unfold datesFrom Date.next?
    by_cases hnext : start.day < Date.last.day
    · simp only [if_pos hnext, List.mem_cons, ih, ← Date.day_inj]
      omega
    · simp only [if_neg hnext, List.not_mem_nil, false_iff]
      omega

theorem mem_weeklyDates (hr : r.stop.day ≤ Date.last.day) :
    d ∈ r.weeklyDates ↔ r.isWeekly d = true := by
  unfold weeklyDates isWeekly days
  rw [List.mem_filter, mem_datesFrom]
  simp only [Bool.and_eq_true, decide_eq_true_eq, ne_eq, ← Date.day_inj]
  refine and_congr_left fun _ => ?_
  omega

end CalendarRule

/-! ## Which rule decides -/

/-- Some rule of the service starts it on the date, and neither this rule nor a later one of the
service removes the date. -/
def Started (rules : List CalendarRule) (s : ServiceId) (d : Date) : Prop :=
  SplitsAt rules fun _ r later => (r.service = s ∧ r.includes d = true ∧ d ∉ r.removed) ∧
    ∀ q ∈ later, q.service = s → d ∉ q.removed

theorem not_started_nil {s : ServiceId} {d : Date} : ¬ Started [] s d := not_splitsAt_nil

theorem Started.exists_includes {rules : List CalendarRule} {s : ServiceId} {d : Date}
    (h : Started rules s d) : ∃ r ∈ rules, r.service = s ∧ r.includes d = true := by
  obtain ⟨earlier, r, later, rfl, ⟨hr, hstarts, -⟩, -⟩ := h
  exact ⟨r, List.mem_append_right _ List.mem_cons_self, hr, hstarts⟩

/-- What one rule more does. -/
theorem started_append {rules : List CalendarRule} {q : CalendarRule} {s : ServiceId} {d : Date} :
    Started (rules ++ [q]) s d ↔
      if q.service = s then (Started rules s d ∨ q.includes d = true) ∧ d ∉ q.removed
      else Started rules s d := by
  unfold Started
  rw [splitsAt_append]
  simp only [List.forall_mem_append, List.forall_mem_singleton, ← and_assoc, splitsAt_and]
  split_ifs with hs
  · simp only [hs, List.not_mem_nil, IsEmpty.forall_iff, implies_true, and_true, true_and,
      forall_const]
    tauto
  · simp [hs]

/-! ## The index of dates -/

/-- The services of each date, by the number of the date. -/
abbrev DateIndex := Std.TreeMap Int (Std.TreeSet ServiceId)

namespace DateIndex

variable {index : DateIndex} {s t : ServiceId} {d e : Date}

/-- A service is under a date. -/
def Runs (index : DateIndex) (s : ServiceId) (d : Date) : Prop :=
  ∃ services, index[d.day]? = some services ∧ s ∈ services

/-- Puts a service under a date. -/
def put (s : ServiceId) (index : DateIndex) (d : Date) : DateIndex :=
  index.alter d.day fun services => some ((services.getD ∅).insert s)

/-- Takes a service from a date, which stays even if it has no other. -/
def take (s : ServiceId) (index : DateIndex) (d : Date) : DateIndex :=
  index.alter d.day fun services => services.map (·.erase s)

/-- Expands a rule: its weekly dates, then those that it adds, then those that it removes. -/
def expand (index : DateIndex) (r : CalendarRule) : DateIndex :=
  r.removed.foldl (take r.service)
    (r.added.foldl (put r.service) (r.weeklyDates.foldl (put r.service) index))

/-- The index of some rules, without the dates that have no service. -/
def ofRules (rules : List CalendarRule) : DateIndex :=
  (rules.foldl expand ∅).filter fun _ services => !services.isEmpty

theorem runs_put : (index.put s d).Runs t e ↔ (s = t ∧ d = e) ∨ index.Runs t e := by
  unfold Runs put
  rw [Std.TreeMap.getElem?_alter]
  simp only [compare_eq_iff_eq, Date.day_inj]
  by_cases hd : d = e
  · subst hd
    cases index[d.day]? <;> simp [Std.TreeSet.mem_insert]
  · simp [hd]

theorem runs_take : (index.take s d).Runs t e ↔ ¬ (s = t ∧ d = e) ∧ index.Runs t e := by
  unfold Runs take
  rw [Std.TreeMap.getElem?_alter]
  simp only [compare_eq_iff_eq, Date.day_inj]
  by_cases hd : d = e
  · subst hd
    cases index[d.day]? <;> simp [Std.TreeSet.mem_erase]
  · simp [hd]

theorem runs_foldl_put {dates : List Date} : ∀ {index : DateIndex},
    (dates.foldl (put s) index).Runs t e ↔ (s = t ∧ e ∈ dates) ∨ index.Runs t e := by
  induction dates with
  | nil => simp
  | cons d rest ih =>
    intro index
    rw [List.foldl_cons, ih, runs_put, List.mem_cons]
    tauto

theorem runs_foldl_take {dates : List Date} : ∀ {index : DateIndex},
    (dates.foldl (take s) index).Runs t e ↔ ¬ (s = t ∧ e ∈ dates) ∧ index.Runs t e := by
  induction dates with
  | nil => simp
  | cons d rest ih =>
    intro index
    rw [List.foldl_cons, ih, runs_take, List.mem_cons]
    tauto

/-- A rule does to the index what it does to its service, and nothing to other services. -/
theorem runs_expand {r : CalendarRule} (hr : r.stop.day ≤ Date.last.day) :
    (index.expand r).Runs s d ↔
      if r.service = s then (index.Runs s d ∨ r.includes d = true) ∧ d ∉ r.removed
      else index.Runs s d := by
  unfold expand CalendarRule.includes
  rw [runs_foldl_take, runs_foldl_put, runs_foldl_put, CalendarRule.mem_weeklyDates hr,
    Bool.or_eq_true, List.contains_iff_mem]
  by_cases hs : r.service = s
  · rw [if_pos hs]
    tauto
  · rw [if_neg hs]
    tauto

theorem runs_foldl_expand {rules : List CalendarRule}
    (hrules : ∀ r ∈ rules, r.stop.day ≤ Date.last.day) :
    Runs (rules.foldl expand ∅) s d ↔ Started rules s d := by
  induction rules using List.reverseRecOn with
  | nil =>
    refine ⟨fun ⟨services, hget, _⟩ => ?_, fun h => absurd h not_started_nil⟩
    simp at hget
  | append_singleton rules r ih =>
    have hr := hrules r (List.mem_append_right _ List.mem_cons_self)
    rw [List.foldl_append, List.foldl_cons, List.foldl_nil, runs_expand hr, started_append,
      ih fun q hq => hrules q (List.mem_append_left _ hq)]

theorem getElem?_ofRules {rules : List CalendarRule} {n : Int} {services : Std.TreeSet ServiceId} :
    (ofRules rules)[n]? = some services ↔
      (rules.foldl expand ∅)[n]? = some services ∧ ∃ s, s ∈ services := by
  unfold ofRules
  rw [Std.TreeMap.getElem?_filter', Option.filter_eq_some_iff, Bool.not_eq_true',
    Std.TreeSet.isEmpty_eq_false_iff_exists_mem]

theorem runs_ofRules {rules : List CalendarRule}
    (hrules : ∀ r ∈ rules, r.stop.day ≤ Date.last.day) :
    (ofRules rules).Runs s d ↔ Started rules s d := by
  rw [← runs_foldl_expand hrules]
  unfold Runs
  simp only [getElem?_ofRules]
  constructor
  · rintro ⟨services, ⟨hget, -⟩, hs⟩
    exact ⟨services, hget, hs⟩
  · rintro ⟨services, hget, hs⟩
    exact ⟨services, ⟨hget, s, hs⟩, hs⟩

theorem mem_ofRules {rules : List CalendarRule}
    (hrules : ∀ r ∈ rules, r.stop.day ≤ Date.last.day) {n : Int} :
    n ∈ ofRules rules ↔ ∃ s, Started rules s ⟨n⟩ := by
  simp only [← runs_ofRules hrules]
  rw [Std.TreeMap.mem_iff_isSome_getElem?, Option.isSome_iff_exists]
  constructor
  · rintro ⟨services, hget⟩
    obtain ⟨-, s, hs⟩ := getElem?_ofRules.mp hget
    exact ⟨s, services, hget, hs⟩
  · rintro ⟨s, services, hget, -⟩
    exact ⟨services, hget⟩

end DateIndex

namespace ServiceCalendar

variable {c : ServiceCalendar} {s : ServiceId} {d : Date}

theorem runs_iff_started : c.runs s d = true ↔ Started c.rules s d := by
  obtain ⟨zone, rules⟩ := c
  induction rules using List.reverseRecOn with
  | nil => exact ⟨fun h => by simp [runs] at h, fun h => absurd h not_started_nil⟩
  | append_singleton rules r ih =>
    unfold runs at ih ⊢
    rw [started_append, List.filter_append, List.foldl_append]
    split_ifs with hs
    · rw [List.filter_cons_of_pos (by simp [hs]), List.filter_nil, List.foldl_cons, List.foldl_nil,
        CalendarRule.apply_iff, ih]
    · rw [List.filter_cons_of_neg (by simp [hs]), List.filter_nil, List.foldl_nil, ih]

theorem mem_services : s ∈ c.services ↔ ∃ r ∈ c.rules, r.service = s := by
  unfold services
  rw [List.mem_mergeSort, List.mem_eraseDups, List.mem_map]

theorem mem_servicesOn : s ∈ c.servicesOn d ↔ Started c.rules s d := by
  unfold servicesOn
  rw [List.mem_filter, runs_iff_started]
  refine ⟨fun h => h.2, fun h => ⟨?_, h⟩⟩
  obtain ⟨r, hr, hs, -⟩ := h.exists_includes
  exact mem_services.mpr ⟨r, hr, hs⟩

/-- A service that runs on a date was started there, so the date is a candidate. -/
theorem mem_activeDates : d ∈ c.activeDates ↔ c.servicesOn d ≠ [] := by
  unfold activeDates
  rw [List.mem_filter, Bool.not_eq_true', List.isEmpty_eq_false_iff]
  refine ⟨fun h => h.2, fun h => ⟨?_, h⟩⟩
  obtain ⟨s, hs⟩ := List.exists_mem_of_ne_nil _ h
  obtain ⟨r, hr, -, hstarts⟩ := (mem_servicesOn.mp hs).exists_includes
  refine List.mem_flatMap.mpr ⟨r, hr, ?_⟩
  rcases CalendarRule.includes_iff.mp hstarts with ⟨⟨hstart, hstop, -⟩, -⟩ | hadded
  · exact List.mem_append_left _ (Date.mem_range.mpr ⟨hstart, hstop⟩)
  · exact List.mem_append_right _ hadded

/-- The numbers of the dates with any service. -/
def activeDays (c : ServiceCalendar) : Set Int := {n | c.servicesOn ⟨n⟩ ≠ []}

theorem mem_map_activeDates {n : Int} : n ∈ c.activeDates.map (·.day) ↔ n ∈ c.activeDays := by
  rw [List.mem_map]
  constructor
  · rintro ⟨d, hd, rfl⟩
    exact mem_activeDates.mp hd
  · intro hn
    exact ⟨⟨n⟩, mem_activeDates.mpr hn, rfl⟩

theorem min?_activeDates {n : Int} :
    (c.activeDates.map (·.day)).min? = some n ↔ IsLeast c.activeDays n := by
  rw [List.min?_eq_some_iff]
  simp only [mem_map_activeDates]
  rfl

theorem max?_activeDates {n : Int} :
    (c.activeDates.map (·.day)).max? = some n ↔ IsGreatest c.activeDays n := by
  rw [List.max?_eq_some_iff]
  simp only [mem_map_activeDates]
  rfl

theorem activeDays_eq_empty : c.activeDays = ∅ ↔ ∀ d, c.servicesOn d = [] := by
  rw [Set.eq_empty_iff_forall_notMem]
  unfold activeDays
  constructor
  · intro h d
    exact not_not.mp (h d.day)
  · intro h n hn
    exact hn (h ⟨n⟩)

/-- There is a first and a last date with any service, unless there is none at all. -/
theorem dateRange?_cases (c : ServiceCalendar) :
    (c.dateRange? = none ∧ c.activeDays = ∅) ∨
      ∃ first last, c.dateRange? = some (first, last) ∧
        IsLeast c.activeDays first.day ∧ IsGreatest c.activeDays last.day := by
  unfold dateRange?
  cases hmin : (c.activeDates.map (·.day)).min? with
  | none =>
    refine .inl ⟨rfl, Set.eq_empty_of_forall_notMem fun n hn => ?_⟩
    rw [List.min?_eq_none_iff] at hmin
    exact List.not_mem_nil (hmin ▸ mem_map_activeDates.mpr hn)
  | some first =>
    have hfirst := min?_activeDates.mp hmin
    have hne : c.activeDates.map (·.day) ≠ [] :=
      List.ne_nil_of_mem (mem_map_activeDates.mpr hfirst.1)
    obtain ⟨last, hmax⟩ := Option.ne_none_iff_exists'.mp (mt List.max?_eq_none_iff.mp hne)
    rw [hmax]
    exact .inr ⟨⟨first⟩, ⟨last⟩, rfl, hfirst, max?_activeDates.mp hmax⟩

theorem dateRange?_eq_some {first last : Date} : c.dateRange? = some (first, last) ↔
    IsLeast c.activeDays first.day ∧ IsGreatest c.activeDays last.day := by
  rcases c.dateRange?_cases with ⟨hnone, hempty⟩ | ⟨a, b, hsome, ha, hb⟩
  · rw [hnone, hempty]
    exact ⟨fun h => (nomatch h), fun h => absurd h.1.nonempty Set.not_nonempty_empty⟩
  · rw [hsome, Option.some.injEq, Prod.mk.injEq, ← Date.day_inj, ← Date.day_inj]
    constructor
    · rintro ⟨hfirst, hlast⟩
      exact ⟨hfirst ▸ ha, hlast ▸ hb⟩
    · rintro ⟨hfirst, hlast⟩
      exact ⟨ha.unique hfirst, hb.unique hlast⟩

theorem dateRange?_eq_none : c.dateRange? = none ↔ ∀ d, c.servicesOn d = [] := by
  rw [← activeDays_eq_empty]
  rcases c.dateRange?_cases with ⟨hnone, hempty⟩ | ⟨a, b, hsome, ha, -⟩
  · simp [hnone, hempty]
  · simp [hsome, Set.nonempty_iff_ne_empty.mp ha.nonempty]

/-! ## The index of a calendar -/

theorem mem_index (hc : ∀ r ∈ c.rules, r.stop.day ≤ Date.last.day) {n : Int} :
    n ∈ DateIndex.ofRules c.rules ↔ n ∈ c.activeDays := by
  rw [DateIndex.mem_ofRules hc]
  simp only [← mem_servicesOn]
  constructor
  · rintro ⟨s, hs⟩
    exact List.ne_nil_of_mem hs
  · exact List.exists_mem_of_ne_nil _

theorem minKey?_index (hc : ∀ r ∈ c.rules, r.stop.day ≤ Date.last.day) {n : Int} :
    (DateIndex.ofRules c.rules).minKey? = some n ↔ IsLeast c.activeDays n := by
  rw [Std.TreeMap.minKey?_eq_some_iff_mem_and_forall]
  simp only [mem_index hc, Std.isLE_compare]
  rfl

theorem maxKey?_index (hc : ∀ r ∈ c.rules, r.stop.day ≤ Date.last.day) {n : Int} :
    (DateIndex.ofRules c.rules).maxKey? = some n ↔ IsGreatest c.activeDays n := by
  rw [Std.TreeMap.maxKey?_eq_some_iff_mem_and_forall]
  simp only [mem_index hc, Std.isLE_compare]
  rfl

/-- When no rule goes on after the last date of all, the index of the rules says what the calendar
says, of each date and of the first and the last date with any service. -/
theorem index_eq (hc : ∀ r ∈ c.rules, r.stop.day ≤ Date.last.day) :
    (∀ s d, (DateIndex.ofRules c.rules).Runs s d ↔ s ∈ c.servicesOn d) ∧
      c.dateRange? = do
        return (⟨← (DateIndex.ofRules c.rules).minKey?⟩,
          ⟨← (DateIndex.ofRules c.rules).maxKey?⟩) := by
  constructor
  · intro s d
    rw [DateIndex.runs_ofRules hc, mem_servicesOn]
  · ext ⟨first, last⟩
    rw [dateRange?_eq_some, ← minKey?_index hc, ← maxKey?_index hc]
    cases (DateIndex.ofRules c.rules).minKey? with
    | none => simp
    | some a =>
      cases (DateIndex.ofRules c.rules).maxKey? with
      | none => simp
      | some b => simp [← Date.day_inj]

/-! ## Rules in another order -/

theorem nodup_eraseDups (l : List ServiceId) : l.eraseDups.Nodup := by
  induction h : l.length using Nat.strong_induction_on generalizing l with
  | _ n ih =>
    cases l with
    | nil => exact List.nodup_nil
    | cons s rest =>
      rw [List.eraseDups_cons, List.nodup_cons, List.mem_eraseDups]
      refine ⟨by simp, ih _ ?_ _ rfl⟩
      subst h
      exact Nat.lt_succ_of_le (List.length_filter_le _ _)

/-- Rules of the same services list them alike, each once and in ascending order. -/
theorem services_congr {c' : ServiceCalendar}
    (h : ∀ s, (∃ r ∈ c.rules, r.service = s) ↔ ∃ r ∈ c'.rules, r.service = s) :
    c.services = c'.services := by
  have hnodup (c : ServiceCalendar) : c.services.Nodup :=
    (List.mergeSort_perm _ _).nodup_iff.mpr (nodup_eraseDups _)
  have hsorted (c : ServiceCalendar) : c.services.Pairwise (· ≤ ·) :=
    List.sortedLE_mergeSort.pairwise
  have hperm : c.services.Perm c'.services := by
    rw [List.perm_ext_iff_of_nodup (hnodup c) (hnodup c')]
    intro s
    rw [mem_services, mem_services, h]
  exact hperm.eq_of_pairwise (fun _ _ _ _ => Nat.le_antisymm) (hsorted c) (hsorted c')

/-- Both are refused, or both say the same of every date. -/
def Alike : Except CalendarError ServiceCalendar → Except CalendarError ServiceCalendar → Prop
  | .ok c, .ok c' => c.zone = c'.zone ∧ (∀ d, c.servicesOn d = c'.servicesOn d) ∧
      c.dateRange? = c'.dateRange?
  | .error _, .error _ => True
  | _, _ => False

theorem ofRules_cases (zone : Zone) (rules : List CalendarRule) :
    (ofRules zone rules = .ok ⟨zone, rules⟩ ∧ ∀ r ∈ rules, r.WellRanged) ∨
      ∃ earlier r later, rules = earlier ++ r :: later ∧ (∀ q ∈ earlier, q.WellRanged) ∧
        ¬ r.WellRanged ∧ ofRules zone rules = .error r.complaint := by
  unfold ofRules
  split
  · rename_i e he
    obtain ⟨earlier, r, later, hrules, hr, hearlier⟩ := List.findSome?_eq_some_iff.mp he
    obtain ⟨hbad, rfl⟩ := CalendarRule.fault?_eq_some.mp hr
    exact .inr ⟨earlier, r, later, hrules,
      fun q hq => CalendarRule.fault?_eq_none.mp (hearlier q hq), hbad, rfl⟩
  · rename_i hnone
    rw [List.findSome?_eq_none_iff] at hnone
    exact .inl ⟨rfl, fun r hr => CalendarRule.fault?_eq_none.mp (hnone r hr)⟩

theorem mem_of_filter_eq {rules rules' : List CalendarRule} {r : CalendarRule}
    (h : ∀ s, rules.filter (·.service == s) = rules'.filter (·.service == s)) (hr : r ∈ rules) :
    r ∈ rules' := by
  have hmem : r ∈ rules'.filter (·.service == r.service) := by
    rw [← h]
    exact List.mem_filter.mpr ⟨hr, beq_self_eq_true _⟩
  exact (List.mem_filter.mp hmem).1

theorem servicesOn_congr {c' : ServiceCalendar}
    (h : ∀ s, c.rules.filter (·.service == s) = c'.rules.filter (·.service == s)) (d : Date) :
    c.servicesOn d = c'.servicesOn d := by
  have hservices : c.services = c'.services := by
    refine services_congr fun s => ⟨?_, ?_⟩
    · rintro ⟨r, hr, hs⟩
      exact ⟨r, mem_of_filter_eq h hr, hs⟩
    · rintro ⟨r, hr, hs⟩
      exact ⟨r, mem_of_filter_eq (fun s => (h s).symm) hr, hs⟩
  unfold servicesOn
  rw [hservices]
  refine List.filter_congr fun s _ => ?_
  unfold runs
  rw [h s]

theorem dateRange?_congr {c' : ServiceCalendar} (h : ∀ d, c.servicesOn d = c'.servicesOn d) :
    c.dateRange? = c'.dateRange? := by
  have hdays : c.activeDays = c'.activeDays := by
    unfold activeDays
    simp only [h]
  ext ⟨first, last⟩
  rw [dateRange?_eq_some, dateRange?_eq_some, hdays]

/-- Only the order of the rules of each service matters. -/
theorem alike_of_filter {zone : Zone} {rules rules' : List CalendarRule}
    (h : ∀ s, rules.filter (·.service == s) = rules'.filter (·.service == s)) :
    Alike (ofRules zone rules) (ofRules zone rules') := by
  rcases ofRules_cases zone rules with ⟨hok, hranged⟩ | ⟨earlier, r, later, rfl, -, hbad, herror⟩
  · rcases ofRules_cases zone rules' with ⟨hok', -⟩ | ⟨earlier, r, later, rfl, -, hbad, -⟩
    · have hservicesOn : ∀ d, servicesOn ⟨zone, rules⟩ d = servicesOn ⟨zone, rules'⟩ d :=
        servicesOn_congr h
      rw [hok, hok']
      exact ⟨rfl, hservicesOn, dateRange?_congr hservicesOn⟩
    · have hr := List.mem_append_right earlier (List.mem_cons_self (a := r) (l := later))
      exact absurd (hranged r (mem_of_filter_eq (fun s => (h s).symm) hr)) hbad
  · rcases ofRules_cases zone rules' with ⟨-, hranged⟩ | ⟨_, _, _, -, -, -, herror'⟩
    · have hr := List.mem_append_right earlier (List.mem_cons_self (a := r) (l := later))
      exact absurd (hranged r (mem_of_filter_eq h hr)) hbad
    · rw [herror, herror']
      trivial

theorem filter_eq_of_perm {rules rules' : List CalendarRule} (hperm : rules.Perm rules')
    (hnodup : (rules.map (·.service)).Nodup) (s : ServiceId) :
    rules.filter (·.service == s) = rules'.filter (·.service == s) := by
  have hfilter : (rules.filter (·.service == s)).Perm (rules'.filter (·.service == s)) :=
    hperm.filter _
  have hservice : ∀ r ∈ rules.filter (·.service == s), r.service = s := fun r hr =>
    beq_iff_eq.mp (List.mem_filter.mp hr).2
  have hdistinct : ((rules.filter (·.service == s)).map (·.service)).Nodup :=
    hnodup.sublist (List.filter_sublist.map _)
  match hrules : rules.filter (·.service == s) with
  | [] =>
    rw [hrules] at hfilter
    exact hrules.trans hfilter.nil_eq
  | [r] =>
    rw [hrules] at hfilter
    exact hrules.trans hfilter.singleton_eq
  | q :: r :: rest =>
    rw [hrules] at hdistinct hservice
    have hne : q.service ≠ r.service := by
      intro heq
      simp [heq] at hdistinct
    have hq := hservice q List.mem_cons_self
    have hr := hservice r (List.mem_cons_of_mem _ List.mem_cons_self)
    exact absurd (hq.trans hr.symm) hne

/-- Rules are refused exactly when one of them ends before it starts or spans more than 1098 days,
and the first such rule is named. Otherwise a service runs on a date exactly when a rule of the
service starts it there and neither this rule nor a later one of the service removes the date; a
rule starts its service on the dates that it adds and on those that it covers, but for the last date
of all. The dates with any service have the first and the last one that the calendar gives. Where
the rules of different services stand does not matter. -/
theorem expansion (zone : Zone) (rules : List CalendarRule) :
    (match ofRules zone rules with
      | .error e => ∃ earlier r later, rules = earlier ++ r :: later ∧
          (∀ q ∈ earlier, q.WellRanged) ∧ ¬ r.WellRanged ∧ e = r.complaint
      | .ok c => (∀ r ∈ rules, r.WellRanged) ∧
          (∀ s d, s ∈ c.servicesOn d ↔ ∃ earlier r later, rules = earlier ++ r :: later ∧
            r.service = s ∧ (r.Covers d ∧ d ≠ Date.last ∨ d ∈ r.added) ∧ d ∉ r.removed ∧
              ∀ q ∈ later, q.service = s → d ∉ q.removed) ∧
          (∀ first last, c.dateRange? = some (first, last) ↔
            IsLeast {n | c.servicesOn ⟨n⟩ ≠ []} first.day ∧
              IsGreatest {n | c.servicesOn ⟨n⟩ ≠ []} last.day) ∧
          (c.dateRange? = none ↔ ∀ d, c.servicesOn d = [])) ∧
    (∀ rules', (∀ s, rules.filter (·.service == s) = rules'.filter (·.service == s)) →
      Alike (ofRules zone rules) (ofRules zone rules')) ∧
    (∀ rules', rules.Perm rules' → (rules.map (·.service)).Nodup →
      Alike (ofRules zone rules) (ofRules zone rules')) := by
  refine ⟨?_, fun rules' h => alike_of_filter h, fun rules' hperm hnodup =>
    alike_of_filter (filter_eq_of_perm hperm hnodup)⟩
  rcases ofRules_cases zone rules with ⟨hok, hranged⟩ | ⟨earlier, r, later, h, hearlier, hr, herror⟩
  · rw [hok]
    refine ⟨hranged, fun s d => ?_, fun first last => dateRange?_eq_some, dateRange?_eq_none⟩
    rw [mem_servicesOn]
    unfold Started SplitsAt
    simp only [CalendarRule.includes_iff, and_assoc]
  · rw [herror]
    exact ⟨earlier, r, later, h, hearlier, hr, rfl⟩

/-- The last two dates of all. -/
def lastDays : CalendarRule :=
  ⟨1, ⟨Date.last.day - 1⟩, Date.last, CalendarRule.everyDay, [], []⟩

/-- The rule covers the last date of all, and its service does not run there. -/
theorem lastDays_without_last : ∃ c, ofRules (.ofRule "UTC" (.fixed 0)) [lastDays] = .ok c ∧
    lastDays.Covers Date.last ∧ c.servicesOn Date.last = [] ∧
      c.dateRange? = some (⟨Date.last.day - 1⟩, ⟨Date.last.day - 1⟩) := by
  refine ⟨⟨(.ofRule "UTC" (.fixed 0)), [lastDays]⟩, rfl, ⟨?_, ?_, ?_⟩, ?_, ?_⟩
  · decide +kernel
  · decide +kernel
  · decide +kernel
  · decide +kernel
  · decide +kernel

/-- Working days of January 2024, but not the first. -/
def winter : CalendarRule where
  service := 2
  start := ⟨Date.dayNumber 2024 1 1⟩
  stop := ⟨Date.dayNumber 2024 1 31⟩
  weekdays := [true, true, true, true, true, false, false]
  added := []
  removed := [⟨Date.dayNumber 2024 1 1⟩]

/-- The two rules say the same in either order. -/
theorem winter_and_lastDays :
    Alike (ofRules (.ofRule "UTC" (.fixed 0)) [lastDays, winter])
      (ofRules (.ofRule "UTC" (.fixed 0)) [winter, lastDays]) := by
  obtain ⟨-, -, hperm⟩ := expansion (.ofRule "UTC" (.fixed 0)) [lastDays, winter]
  exact hperm [winter, lastDays] (List.Perm.swap _ _ _) (by decide)

end ServiceCalendar

end JourneyPlanner
