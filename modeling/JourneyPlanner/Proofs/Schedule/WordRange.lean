import JourneyPlanner.Network.Reading
import JourneyPlanner.Proofs.Journey.Timetable
import JourneyPlanner.Proofs.Search.Rides

/-!
# Lookups in words of 32 bits

In a pattern read from texts no step of a lookup backward in time leaves a word of 32 bits. Forward
in time rounding up to the timetable of an exact window leaves it for headways of some sixty-eight
years (`NetworkDescription.lookups_inWord`), and the lookup then overflows although no vehicle is
left (`lateTimetable_overflows`).
-/

namespace JourneyPlanner

theorem Integers.fit_bind {k : Integers} {bits : Nat} {n : Int} {α : Type}
    {f : Int → Except Overflow α} (low : -2 ^ (bits - 1) ≤ n) (high : n < 2 ^ (bits - 1)) :
    (k.fit bits n >>= f) = f n := by
  rw [fit_of_holds (holds_of_mem low high)]
  rfl

theorem Integers.fit_words_of_le {bits : Nat} {n : Int} (h : 2 ^ (bits - 1) ≤ n) :
    words.fit bits n = .error .overflow :=
  fit_eq_error fun hn => not_lt.mpr h (hn rfl).2

/-! ## Windows -/

namespace HeadwayWindow

/-- Whether the numbers of a window are those that a description gives: times within forty-eight
hours, and a headway that fits in a word of 32 bits. -/
structure InWord (w : HeadwayWindow) : Prop where
  stop : IsServiceTime w.stop
  headway : w.headway < 2 ^ 31

/-- Whether rounding a time up to the timetable stays in the word. -/
def FitsAt (w : HeadwayWindow) (t : Int) : Prop :=
  w.exact = true → w.start < t → t < w.stop →
    t - w.start + w.headway < 2 ^ 31 ∧ w.start + w.headway < 2 ^ 31

/-- Whether rounding every time up to the timetable stays in the word. -/
def RoundsUpInWord (w : HeadwayWindow) : Prop :=
  w.exact = true → w.start + 1 < w.stop →
    w.stop - 1 - w.start + w.headway < 2 ^ 31 ∧ w.start + w.headway < 2 ^ 31

instance : DecidablePred RoundsUpInWord := fun w => by unfold RoundsUpInWord; infer_instance

variable {w : HeadwayWindow} {t seconds : Int} {k : Integers}

/-- The last second of a window is the hardest to round up. -/
theorem roundsUpInWord_iff_last : w.RoundsUpInWord ↔ w.FitsAt (w.stop - 1) := by
  unfold RoundsUpInWord FitsAt
  constructor
  · exact fun h he hwide _ => h he (by omega)
  · exact fun h he hwide => h he (by omega) (by omega)

theorem RoundsUpInWord.fitsAt (h : w.RoundsUpInWord) (t : Int) : w.FitsAt t := by
  intro he hlow hhigh
  obtain ⟨hlast, hfirst⟩ := h he (by omega)
  exact ⟨by omega, hfirst⟩

theorem InWord.stop_le (hw : w.InWord) : w.stop ≤ 172800 := hw.stop.2

theorem align_bounds (w : HeadwayWindow) (seconds : Int) (low : 0 ≤ seconds) :
    0 ≤ seconds / w.headway * w.headway ∧ seconds / w.headway * w.headway ≤ seconds :=
  ⟨mul_nonneg (Int.ediv_nonneg low w.headway_pos.le) w.headway_pos.le,
    Int.ediv_mul_le seconds w.headway_pos.ne'⟩

/-- Of the steps to a start of the timetable only the last can leave the word. -/
theorem startOf_eq (low : 0 ≤ seconds) (high : seconds < 2 ^ 31) :
    w.startOf k (seconds / w.headway) = k.fit 32 (w.start + seconds / w.headway * w.headway) := by
  obtain ⟨hnonneg, haligned⟩ := w.align_bounds seconds low
  exact Integers.fit_bind (by omega) (by omega)

theorem lastStart_eq (hw : w.InWord) : w.lastStart k = .ok w.exactLast := by
  have hstop := hw.stop_le
  have hstart := w.start_nonneg
  have hlt := w.start_lt_stop
  obtain ⟨hlow, hhigh⟩ := w.align_bounds (w.stop - 1 - w.start) (by omega)
  unfold lastStart exactLast
  rw [Integers.fit_bind (by omega) (by omega), Integers.fit_bind (by omega) (by omega),
    startOf_eq (by omega) (by omega),
    Integers.fit_of_holds (Integers.holds_of_mem (by omega) (by omega))]

theorem previousStart_eq (hw : w.InWord) (ht : t < 2 ^ 31) :
    w.previousStart k t = .ok (w.exactPrevious? t) := by
  have hstop := hw.stop_le
  have hstart := w.start_nonneg
  have hlt := w.start_lt_stop
  have hh := w.headway_pos
  have hheadway := hw.headway
  unfold previousStart exactPrevious?
  by_cases hbefore : t < w.start
  · rw [if_pos hbefore, if_pos hbefore]
  rw [if_neg hbefore, if_neg hbefore]
  cases he : w.exact with
  | true =>
    obtain ⟨hlow, hhigh⟩ := w.align_bounds (t - w.start) (by omega)
    rw [if_pos rfl, if_pos rfl, Integers.fit_bind (by omega) (by omega),
      startOf_eq (by omega) (by omega), Integers.fit_bind (by omega) (by omega), lastStart_eq hw]
    rfl
  | false =>
    rw [if_neg Bool.false_ne_true, if_neg Bool.false_ne_true,
      Integers.fit_bind (by omega) (by omega), Integers.fit_bind (by omega) (by omega)]
    rfl

/-- Where a headway is no shorter than the time to round up, the time is rounded up to the second
vehicle. -/
theorem roundUp_of_le (hlow : w.start < t) (hle : t - w.start ≤ w.headway) :
    (t - w.start + w.headway - 1) / w.headway * w.headway = w.headway := by
  rw [show t - w.start + w.headway - 1 = t - w.start - 1 + w.headway * 1 by omega,
    Int.add_mul_ediv_left _ _ w.headway_pos.ne', Int.ediv_eq_zero_of_lt (by omega) (by omega),
    zero_add, one_mul]

/-- Forward in time every step stays in the word where rounding up does. -/
theorem nextStart_eq (hw : w.InWord) (hfits : w.FitsAt t) :
    w.nextStart k t = .ok (w.exactNext? t) := by
  have hstop := hw.stop_le
  have hstart := w.start_nonneg
  have hh := w.headway_pos
  have hheadway := hw.headway
  unfold nextStart exactNext?
  by_cases hafter : w.stop ≤ t
  · rw [if_pos hafter, if_pos hafter]
  rw [if_neg hafter, if_neg hafter]
  by_cases hfirst : t ≤ w.start
  · rw [if_pos hfirst, if_pos hfirst]
  rw [if_neg hfirst, if_neg hfirst]
  cases he : w.exact with
  | true =>
    obtain ⟨hraised, hsecond⟩ := hfits he (by omega) (by omega)
    obtain ⟨hlow, hhigh⟩ := w.align_bounds (t - w.start + w.headway - 1) (by omega)
    have hnext : w.start + (t - w.start + w.headway - 1) / w.headway * w.headway < 2 ^ 31 := by
      by_cases hle : t - w.start ≤ w.headway
      · rwa [roundUp_of_le (by omega) hle]
      · omega
    rw [if_pos rfl, if_pos rfl, Integers.fit_bind (by omega) (by omega),
      Integers.fit_bind (by omega) (by omega), Integers.fit_bind (by omega) (by omega),
      startOf_eq (by omega) (by omega), Integers.fit_bind (by omega) (by omega)]
    rfl
  | false =>
    rw [if_neg Bool.false_ne_true, if_neg Bool.false_ne_true,
      Integers.fit_bind (by omega) (by omega), Integers.fit_bind (by omega) (by omega)]
    rfl

/-- Forward in time a step leaves the word where rounding up does. -/
theorem nextStart_overflows (hw : w.InWord) (hfits : ¬ w.FitsAt t) :
    w.nextStart .words t = .error .overflow := by
  have hstop := hw.stop_le
  have hstart := w.start_nonneg
  unfold FitsAt at hfits
  push Not at hfits
  obtain ⟨he, hlow, hhigh, hsecond⟩ := hfits
  unfold nextStart
  rw [if_neg (by omega), if_neg (by omega), if_pos he, Integers.fit_bind (by omega) (by omega)]
  by_cases hraised : t - w.start + w.headway < 2 ^ 31
  · -- the headway is so long that the second vehicle is the next one
    have hh := w.headway_pos
    have hsecond := hsecond hraised
    rw [Integers.fit_bind (by omega) (by omega), Integers.fit_bind (by omega) (by omega),
      startOf_eq (by omega) (by omega), roundUp_of_le hlow (by omega),
      Integers.fit_words_of_le hsecond]
    rfl
  · rw [Integers.fit_words_of_le (not_lt.mp hraised)]
    rfl

end HeadwayWindow

/-! ## Patterns -/

/-- A start counted from the start of the day stays in the word. -/
theorem IsServiceTime.shift {k : Integers} {offset : Int} {start? : Option Int}
    (hoffset : IsServiceTime offset)
    (hstart : ∀ start, start? = some start → IsServiceTime start) :
    (start?.mapM fun start => k.fit 32 (start + offset)) = .ok (start?.map (· + offset)) := by
  have hlatest : (ServiceTime.latest : Int) = 172800 := rfl
  obtain ⟨hlow, hhigh⟩ := hoffset
  cases start? with
  | none => rfl
  | some start =>
    obtain ⟨hearly, hlate⟩ := hstart start rfl
    exact congrArg (Except.map some)
      (Integers.fit_of_holds (Integers.holds_of_mem (by omega) (by omega)))

namespace FrequencyPattern

/-- Whether the numbers of a pattern are those that a description gives. -/
structure InWord (p : FrequencyPattern) : Prop where
  timely : p.Timely
  windows : ∀ w ∈ p.windows, w.InWord

/-- Whether a departure is looked up in the windows for a stop. -/
def LooksUp (p : FrequencyPattern) (s : PatternStop) (needs : Needs) (checked : Bool) : Prop :=
  p.isUsable s needs = true ∧ (checked = true → s.board.isAvailable = true)

variable {p : FrequencyPattern} {i : Nat} {t : Int} {needs : Needs} {checked : Bool} {k : Integers}
  {s : PatternStop}

theorem not_looksUp_iff : ¬ p.LooksUp s needs checked ↔
    (!p.isUsable s needs || (checked && !s.board.isAvailable)) = true := by
  unfold LooksUp
  cases checked <;> cases p.isUsable s needs <;> simp

theorem InWord.isServiceTime (hp : p.InWord) {start : Int} (h : p.RunStarts start) :
    IsServiceTime start := by
  obtain ⟨w, hw, hlow, hhigh, -⟩ := h
  obtain ⟨-, hstop⟩ := (hp.windows w hw).stop
  exact ⟨w.start_nonneg.trans hlow, hhigh.le.trans hstop⟩

theorem previousArrival?_eq (hp : p.InWord) (low : 0 ≤ t) (high : t < 2 ^ 31) :
    p.previousArrival? k i t needs checked = .ok (p.exactArrival? i t needs checked) := by
  unfold previousArrival? exactArrival?
  cases hs : p.stops[i]? with
  | none => rfl
  | some s =>
    obtain ⟨harrival, -⟩ := hp.timely s (List.mem_of_getElem? hs)
    have hearly : 0 ≤ s.arrival := harrival.1
    have hlate : s.arrival ≤ 172800 := harrival.2
    simp only
    split_ifs
    · rfl
    · rw [mapM_eq_map (h := fun w => w.exactPrevious? (t - s.arrival)) fun w hw =>
          (Integers.fit_bind (by omega) (by omega)).trans
            (HeadwayWindow.previousStart_eq (hp.windows w hw) (by omega))]
      refine (harrival.shift fun start hmax => ?_).trans (by rw [List.filterMap_map]; rfl)
      rw [List.filterMap_map] at hmax
      obtain ⟨w, hw, hstart⟩ := List.mem_filterMap.mp (List.max?_eq_some_iff.mp hmax).1
      exact hp.isServiceTime ⟨w, hw, (HeadwayWindow.exactPrevious?_spec hstart).1⟩

theorem nextDeparture?_eq (hp : p.InWord) (low : 0 ≤ t) (high : t < 2 ^ 31)
    (hfits : ∀ s, p.stops[i]? = some s → p.LooksUp s needs checked →
      ∀ w ∈ p.windows, w.FitsAt (t - s.departure)) :
    p.nextDeparture? k i t needs checked = .ok (p.exactDeparture? i t needs checked) := by
  unfold nextDeparture? exactDeparture?
  cases hs : p.stops[i]? with
  | none => rfl
  | some s =>
    obtain ⟨-, hdeparture⟩ := hp.timely s (List.mem_of_getElem? hs)
    have hearly : 0 ≤ s.departure := hdeparture.1
    have hlate : s.departure ≤ 172800 := hdeparture.2
    simp only
    split_ifs with hrefused
    · rfl
    · have hfits := hfits s hs (not_not.mp fun h => hrefused (not_looksUp_iff.mp h))
      rw [mapM_eq_map (h := fun w => w.exactNext? (t - s.departure)) fun w hw =>
          (Integers.fit_bind (by omega) (by omega)).trans
            (HeadwayWindow.nextStart_eq (hp.windows w hw) (hfits w hw))]
      refine (hdeparture.shift fun start hmin => ?_).trans (by rw [List.filterMap_map]; rfl)
      rw [List.filterMap_map] at hmin
      obtain ⟨w, hw, hstart⟩ := List.mem_filterMap.mp (List.min?_eq_some_iff.mp hmin).1
      exact hp.isServiceTime ⟨w, hw, (HeadwayWindow.exactNext?_spec hstart).1⟩

/-- One window that cannot be rounded up in is enough to overflow. -/
theorem nextDeparture?_overflows (hp : p.InWord) (low : 0 ≤ t) (high : t < 2 ^ 31)
    (hs : p.stops[i]? = some s) (hlooks : p.LooksUp s needs checked) {w : HeadwayWindow}
    (hw : w ∈ p.windows) (hfits : ¬ w.FitsAt (t - s.departure)) :
    p.nextDeparture? .words i t needs checked = .error .overflow := by
  obtain ⟨-, hearly, hlate⟩ := hp.timely s (List.mem_of_getElem? hs)
  have hlate : s.departure ≤ 172800 := hlate
  unfold nextDeparture?
  simp only [hs]
  rw [if_neg fun h => not_looksUp_iff.mpr h hlooks, mapM_eq_error (x := w) ?_ ?_ hw]
  · rfl
  · exact (Integers.fit_bind (by omega) (by omega)).trans
      (HeadwayWindow.nextStart_overflows (hp.windows w hw) hfits)
  · exact fun _ _ _ => rfl

/-- At which times a lookup forward in time overflows. -/
theorem nextDeparture?_overflow_iff (hp : p.InWord) (low : 0 ≤ t) (high : t < 2 ^ 31) :
    p.nextDeparture? .words i t needs checked = .error .overflow ↔
      ∃ s, p.stops[i]? = some s ∧ p.LooksUp s needs checked ∧
        ∃ w ∈ p.windows, ¬ w.FitsAt (t - s.departure) := by
  constructor
  · intro h
    by_contra hfits
    push Not at hfits
    cases h.symm.trans (nextDeparture?_eq hp low high hfits)
  · rintro ⟨s, hs, hlooks, w, hw, hfits⟩
    exact nextDeparture?_overflows hp low high hs hlooks hw hfits

end FrequencyPattern

/-! ## Patterns that are read -/

theorem HeadwayWindow.headway_of_make {start stop headway : Int} {exact : Bool} {w : HeadwayWindow}
    (h : make start stop headway exact = .ok w) : w.headway = headway := by
  unfold make make? at h
  split_ifs at h
  cases h
  rfl

theorem FrequencyDescription.inWord {f : FrequencyDescription} {w : HeadwayWindow}
    (h : f.window = .ok w) (hf : f.headway < 2 ^ 31) : w.InWord := by
  refine ⟨isServiceTime h, ?_⟩
  unfold window at h
  obtain ⟨start, -, h⟩ := bind_eq_ok.mp h
  obtain ⟨stop, -, h⟩ := bind_eq_ok.mp h
  cases hmake : HeadwayWindow.make start stop f.headway f.exact with
  | error e => rw [hmake] at h; cases h
  | ok w' =>
    rw [hmake] at h
    obtain rfl : w' = w := Except.ok.inj h
    rwa [HeadwayWindow.headway_of_make hmake]

/-- Whether the headways of a description fit in words of 32 bits. -/
def NetworkDescription.HeadwaysInWord (d : NetworkDescription) : Prop :=
  ∀ p ∈ d.patterns, ∀ f ∈ p.frequencies, f.headway < 2 ^ 31

namespace NetworkDescription

variable {description : NetworkDescription} {zones : ZoneDatabase} {n : Network}
  {p : FrequencyPattern}

theorem inWord_of_build (hb : description.build zones = .ok n) (hd : description.HeadwaysInWord)
    (hp : p ∈ n.patterns) : p.InWord := by
  obtain ⟨d, hmem, hread⟩ := exists_pattern_of_build hb hp
  refine ⟨PatternDescription.timely hread, ?_⟩
  intro w hw
  obtain ⟨f, hf, hwindow⟩ := exists_of_mapM_eq_ok (PatternDescription.pattern_eq_ok hread).2 w hw
  exact FrequencyDescription.inWord hwindow (hd d hmem f hf)

/-- Backward in time no step of a lookup leaves the word. Forward in time one does, for some time of
the day, where a window that is looked into has a time that cannot be rounded up in the word. A
lookup that does not overflow finds what exact numbers find. -/
theorem lookups_inWord (hb : description.build zones = .ok n) (hd : description.HeadwaysInWord)
    (hp : p ∈ n.patterns) (i : Nat) (needs : Needs) (checked : Bool) :
    (∀ k t, 0 ≤ t → t < 2 ^ 31 → p.previousArrival? k i t needs checked =
      .ok (p.exactArrival? i t needs checked)) ∧
    (∀ k t hit?, p.nextDeparture? k i t needs checked = .ok hit? →
      hit? = p.exactDeparture? i t needs checked) ∧
    ((∀ t, 0 ≤ t → t < 2 ^ 31 → p.nextDeparture? .words i t needs checked ≠ .error .overflow) ↔
      ∀ s, p.stops[i]? = some s → p.LooksUp s needs checked →
        ∀ w ∈ p.windows, w.RoundsUpInWord) := by
  have hword := inWord_of_build hb hd hp
  refine ⟨fun k t low high => FrequencyPattern.previousArrival?_eq hword low high, ?_, ?_, ?_⟩
  · intro k t hit? hhit
    exact Except.ok.inj ((p.nextDeparture?_same k i t needs checked).eq_ok hhit |>.symm.trans
      (p.nextDeparture?_unbounded i t needs checked))
  · intro h s hs hlooks w hw
    rw [HeadwayWindow.roundsUpInWord_iff_last]
    by_contra hfits
    obtain ⟨-, hearly, hlate⟩ := hword.timely s (List.mem_of_getElem? hs)
    have hlate : s.departure ≤ 172800 := hlate
    have hstop := (hword.windows w hw).stop_le
    have hstart := w.start_nonneg
    have hlt := w.start_lt_stop
    -- who asks in the last second of the window
    refine h (w.stop - 1 + s.departure) (by omega) (by omega)
      (FrequencyPattern.nextDeparture?_overflows hword (by omega) (by omega) hs hlooks hw ?_)
    rwa [Int.add_sub_cancel]
  · intro h t low high
    rw [FrequencyPattern.nextDeparture?_eq hword low high
      fun s hs hlooks w hw => (h s hs hlooks w hw).fitsAt _]
    nofun

end NetworkDescription

/-- The buses of `shuttle` are found in words at every time of the day: the one at seven o'clock
from a second after its predecessor, and the last arrival at any time after it. -/
theorem shuttle_lookups_inWord : ∃ n p, shuttle.build onlyUtc = .ok n ∧ shuttle.HeadwaysInWord ∧
    p ∈ n.patterns ∧ (∀ i needs checked t, 0 ≤ t → t < 2 ^ 31 →
      p.nextDeparture? .words i t needs checked ≠ .error .overflow) ∧
    p.nextDeparture? .words 0 24601 ⟨false, false⟩ true = .ok (some 25200) ∧
    p.previousArrival? .words 2 2147483647 ⟨false, false⟩ true = .ok (some 36000) := by
  have h : ((shuttle.build onlyUtc).toOption.any fun n => n.patterns[0]?.any fun p =>
      (p.windows.all fun w => decide w.RoundsUpInWord) &&
        p.exactDeparture? 0 24601 ⟨false, false⟩ true == some 25200 &&
        p.exactArrival? 2 2147483647 ⟨false, false⟩ true == some 36000) = true := by
    decide +kernel
  obtain ⟨n, hb, h⟩ := (Option.any_eq_true _ _).mp h
  obtain ⟨p, hp, h⟩ := (Option.any_eq_true _ _).mp h
  simp only [Bool.and_eq_true, beq_iff_eq, List.all_eq_true, decide_eq_true_eq] at h
  obtain ⟨⟨hrounds, hdeparture⟩, harrival⟩ := h
  have hb := eq_ok_of_toOption hb
  have hd : shuttle.HeadwaysInWord := by
    unfold NetworkDescription.HeadwaysInWord
    decide
  have hp := Array.mem_of_getElem? hp
  have hlookups := NetworkDescription.lookups_inWord hb hd hp
  have hfound : ∀ i needs checked t, 0 ≤ t → t < 2 ^ 31 →
      p.nextDeparture? .words i t needs checked ≠ .error .overflow := fun i needs checked =>
    (hlookups i needs checked).2.2.mpr fun _ _ _ w hw => hrounds w hw
  refine ⟨n, p, hb, hd, hp, hfound, ?_, ?_⟩
  · cases hnext : p.nextDeparture? .words 0 24601 ⟨false, false⟩ true with
    | error => exact absurd hnext (hfound 0 _ true 24601 (by decide) (by decide))
    | ok hit? => rw [(hlookups 0 _ true).2.1 _ _ _ hnext, hdeparture]
  · rw [(hlookups 2 _ true).1 .words 2147483647 (by decide) (by decide), harrival]

/-- A line with a single bus at midnight, as the headway is sixty-eight years. -/
def lateTimetable : NetworkDescription where
  timezone := "UTC"
  calendars := [⟨1, "20240101", "20241231", CalendarRule.everyDay, [], []⟩]
  stops := [.alone stopA, .alone stopB]
  streetVertices := []
  streets := []
  patterns := [⟨tripEast, routeOne, 1, some .bus, none, true, true,
    [⟨stopA, "00:00:00", none, 0, 0, none, none, true⟩,
      ⟨stopB, "00:05:00", none, 0, 0, none, none, true⟩],
    [⟨"00:00:00", "01:00:00", 2147483647, true⟩]⟩]
  transfers := []
  timedTransfers := []

/-- Two seconds after the only bus there is none, but in words the lookup overflows. -/
theorem lateTimetable_overflows : ∃ n p, lateTimetable.build onlyUtc = .ok n ∧
    lateTimetable.HeadwaysInWord ∧ p ∈ n.patterns ∧
      p.exactDeparture? 0 2 ⟨false, false⟩ true = none ∧
      p.nextDeparture? .words 0 2 ⟨false, false⟩ true = .error .overflow := by
  have h : ((lateTimetable.build onlyUtc).toOption.any fun n => n.patterns[0]?.any fun p =>
      p.exactDeparture? 0 2 ⟨false, false⟩ true == none &&
        !(p.nextDeparture? .words 0 2 ⟨false, false⟩ true).isOk) = true := by
    decide +kernel
  obtain ⟨n, hb, h⟩ := (Option.any_eq_true _ _).mp h
  obtain ⟨p, hp, h⟩ := (Option.any_eq_true _ _).mp h
  simp only [Bool.and_eq_true, beq_iff_eq, Bool.not_eq_true'] at h
  obtain ⟨hexact, hwords⟩ := h
  refine ⟨n, p, eq_ok_of_toOption hb, ?_, Array.mem_of_getElem? hp, hexact, ?_⟩
  · unfold NetworkDescription.HeadwaysInWord
    decide
  · cases hnext : p.nextDeparture? .words 0 2 ⟨false, false⟩ true with
    | error e => cases e; rfl
    | ok hit? => rw [hnext] at hwords; cases hwords

/-! ## Texts of descriptions -/

section

open Json

theorem exists_of_asList {α : Type} {item : Reader α} {v : Value} {xs : List α}
    (h : asList item v = some xs) : ∀ x ∈ xs, ∃ u, item u = some x := by
  unfold asList at h
  split at h
  · have hread := mapM_eq_some_iff.mp h
    clear h
    induction hread with
    | nil => nofun
    | cons hu _ ih =>
      intro x hx
      rcases List.mem_cons.mp hx with rfl | hx
      · exact ⟨_, hu⟩
      · exact ih x hx
  · cases h

theorem lt_of_asInt32 {v : Value} {n : Int} (h : asInt32 v = some n) : n < 2 ^ 31 := by
  have hmax : Int32.maxValue.toInt = 2147483647 := rfl
  unfold asInt32 asInt at h
  split at h
  · split at h
    · split_ifs at h with hbounds
      obtain rfl := Option.some.inj h
      omega
    · cases h
  · cases h

theorem FrequencyDescription.headway_lt_of_read {v : Value} {f : FrequencyDescription}
    (h : asFrequency v = some f) : f.headway < 2 ^ 31 := by
  unfold asFrequency Record.required at h
  simp only [Option.bind_eq_bind, Option.bind_eq_some_iff] at h
  obtain ⟨r, -, start, -, stop, -, headway, ⟨u, -, hu⟩, exact, -, h⟩ := h
  obtain rfl := Option.some.inj h
  exact lt_of_asInt32 hu

theorem PatternDescription.headway_lt_of_read {v : Value} {p : PatternDescription}
    (h : asPattern v = some p) : ∀ f ∈ p.frequencies, f.headway < 2 ^ 31 := by
  unfold asPattern Record.required at h
  simp only [Option.bind_eq_bind, Option.bind_eq_some_iff] at h
  obtain ⟨r, -, trip, -, route, -, service, -, mode, -, routeType, -, bikes, -, wheelchair, -,
    stops, -, frequencies, ⟨u, -, hu⟩, h⟩ := h
  obtain rfl := Option.some.inj h
  intro f hf
  obtain ⟨_, hread⟩ := exists_of_asList hu f hf
  exact FrequencyDescription.headway_lt_of_read hread

theorem NetworkDescription.headwaysInWord_of_value {v : Value} {d : NetworkDescription}
    (h : ofValue v = .ok d) : d.HeadwaysInWord := by
  unfold ofValue at h
  split at h
  · rename_i d' hd
    obtain rfl := Except.ok.inj h
    unfold asNetwork at hd
    simp only [Option.bind_eq_bind, Option.bind_eq_some_iff] at hd
    obtain ⟨r, -, timezone, -, calendars, -, stops, -, vertices, -, streets, -, patterns, hpatterns,
      transfers, -, timed, -, hd⟩ := hd
    obtain rfl := Option.some.inj hd
    unfold Record.withDefault at hpatterns
    intro p hp
    split at hpatterns
    · obtain ⟨_, hread⟩ := exists_of_asList hpatterns p hp
      exact PatternDescription.headway_lt_of_read hread
    · obtain rfl := Option.some.inj hpatterns
      cases hp
  · cases h

end

end JourneyPlanner
