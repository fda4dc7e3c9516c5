import JourneyPlanner.Time.ServiceTime
import JourneyPlanner.Proofs.Text.Digits
import JourneyPlanner.Proofs.Text.Pieces

/-!
# Texts of service times

A text that gives a service time is the text of a face: the digits of its hours, minutes and
seconds. Times up to 99:59:59 are written as such a text, and of these the ones up to 48:00:00 are
read back (`read_and_written`).
-/

namespace JourneyPlanner.ServiceTime

open JourneyPlanner.Text JourneyPlanner.Decimal

variable {cs : List Char} {n : Nat}

/-- The number that digits write. -/
def number (cs : List Char) : Nat := ofDigits (cs.map digitValue)

/-- `count` ASCII digits and nothing else. -/
def Digits (count : Nat) (cs : List Char) : Prop := cs.length = count ∧ ∀ c ∈ cs, isDigit c = true

theorem colon_not_mem (h : ∀ c ∈ cs, isDigit c = true) : ':' ∉ cs :=
  fun hmem => Bool.noConfusion (h _ hmem)

theorem Digits.not_mem {count : Nat} (h : Digits count cs) : ':' ∉ cs := colon_not_mem h.2

theorem Digits.ne_nil {count : Nat} (h : Digits (count + 1) cs) : cs ≠ [] :=
  List.ne_nil_of_length_eq_add_one h.1

theorem Digits.leftpad {count width : Nat} (h : Digits count cs) (hcount : count ≤ width) :
    Digits width (cs.leftpad width '0') := by
  refine ⟨by rw [List.length_leftpad, h.1, max_eq_left hcount], fun c hc => ?_⟩
  rcases List.mem_append.mp hc with hzero | hc
  · rw [List.eq_of_mem_replicate hzero]
    rfl
  · exact h.2 c hc

theorem Digits.leftpad_self {count : Nat} (h : Digits count cs) : cs.leftpad count '0' = cs := by
  rw [List.leftpad, h.1, Nat.sub_self, List.replicate_zero, List.nil_append]

theorem digits_padded {width : Nat} (hwidth : 0 < width) (h : n < 10 ^ width) :
    Digits width (padded width n).toList :=
  ⟨length_padded_of_lt hwidth h, fun _ => isDigit_of_mem_padded⟩

theorem number_padded (width n : Nat) : number (padded width n).toList = n :=
  ofDigits_padded width n

theorem padded_number {count width : Nat} (h : Digits (count + 1) cs) (hcount : count + 1 ≤ width) :
    (padded width (number cs)).toList = cs.leftpad width '0' :=
  padded_ofDigits h.ne_nil h.2 (h.1.trans_le hcount)

/-! ## The parts of a text -/

theorem twoDigits?_eq_some : twoDigits? cs = some n ↔ Digits 2 cs ∧ number cs = n := by
  rcases cs with _ | ⟨a, _ | ⟨b, _ | ⟨c, cs⟩⟩⟩
  case cons.cons.nil =>
    have hnumber : number [a, b] = 10 * digitValue a + digitValue b := by simp [number, ofDigits]
    simp [twoDigits?, Digits, hnumber]
  all_goals simp [twoDigits?, Digits]

theorem hours?_eq_some :
    hours? cs = some n ↔ (Digits 1 cs ∨ Digits 2 cs) ∧ number cs = n := by
  rcases cs with _ | ⟨a, _ | ⟨b, cs⟩⟩
  · simp [hours?, twoDigits?, Digits]
  · have hnumber : number [a] = digitValue a := by simp [number, ofDigits]
    simp [hours?, Digits, hnumber]
  · have hone : ¬ Digits 1 (a :: b :: cs) := by simp [Digits]
    rw [or_iff_right hone]
    exact twoDigits?_eq_some

/-- Hours, minutes and seconds with colons between them. -/
def joined (hours minutes seconds : List Char) : String :=
  String.ofList ([':'].intercalate [hours, minutes, seconds])

theorem fields_joined {h m s : List Char} (hh : ':' ∉ h) (hm : ':' ∉ m) (hs : ':' ∉ s) :
    fields (· == ':') (joined h m s).toList = [h, m, s] := by
  rw [joined, String.toList_ofList, fields_eq_iff]
  exact ⟨List.cons_ne_nil _ _, by simp [hh, hm, hs], rfl⟩

/-! ## Faces -/

/-- What a text of a service time shows: one or two digits for the hours, and two each for minutes
and seconds, which stay below sixty. -/
structure Face where
  hours : List Char
  minutes : List Char
  seconds : List Char
  hours_digits : Digits 1 hours ∨ Digits 2 hours
  minutes_digits : Digits 2 minutes
  seconds_digits : Digits 2 seconds
  minutes_le : number minutes ≤ 59
  seconds_le : number seconds ≤ 59

namespace Face

variable (f : Face)

def text : String := joined f.hours f.minutes f.seconds

/-- The seconds that a face counts. -/
def total : Nat := number f.hours * 3600 + number f.minutes * 60 + number f.seconds

theorem hours_not_mem : ':' ∉ f.hours := f.hours_digits.elim Digits.not_mem Digits.not_mem

theorem fields_text :
    fields (· == ':') f.text.toList = [f.hours, f.minutes, f.seconds] :=
  fields_joined f.hours_not_mem f.minutes_digits.not_mem f.seconds_digits.not_mem

/-- The text of a face is refused only where the face shows too late a time. -/
theorem parse_text :
    parse f.text = if f.total ≤ latest then .ok ⟨f.total⟩ else .error .tooLate := by
  have hhours : hours? f.hours = some _ := hours?_eq_some.mpr ⟨f.hours_digits, rfl⟩
  have hminutes : twoDigits? f.minutes = some _ := twoDigits?_eq_some.mpr ⟨f.minutes_digits, rfl⟩
  have hseconds : twoDigits? f.seconds = some _ := twoDigits?_eq_some.mpr ⟨f.seconds_digits, rfl⟩
  simp only [parse, f.fields_text, hhours, hminutes, hseconds, gt_iff_lt, ← not_le, f.minutes_le,
    f.seconds_le, not_true, if_false, ite_not]
  rfl

theorem exists_of_parse {text : String} {t : ServiceTime} (h : parse text = .ok t) :
    ∃ f : Face, text = f.text ∧ t = ⟨f.total⟩ ∧ f.total ≤ latest := by
  unfold parse at h
  split at h
  · rename_i hours minutes seconds hfields
    obtain ⟨-, -, htext⟩ := fields_eq_iff.mp hfields
    split at h
    · cases h
    · rename_i hhours
      split at h
      · cases h
      · rename_i hminutes
        split_ifs at h with hminutesLe
        split at h
        · cases h
        · rename_i hseconds
          simp only at h
          split_ifs at h with hsecondsLe hlate
          obtain ⟨hhoursDigits, rfl⟩ := hours?_eq_some.mp hhours
          obtain ⟨hminutesDigits, rfl⟩ := twoDigits?_eq_some.mp hminutes
          obtain ⟨hsecondsDigits, rfl⟩ := twoDigits?_eq_some.mp hseconds
          refine ⟨⟨hours, minutes, seconds, hhoursDigits, hminutesDigits, hsecondsDigits,
            not_lt.mp hminutesLe, not_lt.mp hsecondsLe⟩, ?_, ?_, ?_⟩
          · rw [Face.text, joined, ← htext, String.ofList_toList]
          · exact (Except.ok.inj h).symm
          · exact not_lt.mp hlate
  · cases h

/-! ## Written times -/

/-- The face with a zero in front of a single digit for the hours. -/
def pad : Face :=
  { f with
    hours := f.hours.leftpad 2 '0'
    hours_digits := .inr (f.hours_digits.elim (·.leftpad (by decide)) (·.leftpad le_rfl)) }

/-- The face that shows a time below a hundred hours. -/
def ofTotal (n : Nat) (h : n < 360000) : Face where
  hours := (padded 2 (n / 3600)).toList
  minutes := (padded 2 (n / 60 % 60)).toList
  seconds := (padded 2 (n % 60)).toList
  hours_digits := .inr (digits_padded (by decide) (by omega))
  minutes_digits := digits_padded (by decide) (by omega)
  seconds_digits := digits_padded (by decide) (by omega)
  minutes_le := by rw [number_padded]; omega
  seconds_le := by rw [number_padded]; omega

theorem total_ofTotal (h : n < 360000) : (ofTotal n h).total = n := by
  simp only [total, ofTotal, number_padded]
  omega

end Face

theorem render_eq (t : ServiceTime) : t.render =
    joined ((if t.seconds < 0 then ['-'] else []) ++ (padded 2 (t.seconds.natAbs / 3600)).toList)
      (padded 2 (t.seconds.natAbs / 60 % 60)).toList (padded 2 (t.seconds.natAbs % 60)).toList := by
  rw [← String.toList_inj]
  unfold render joined
  split_ifs <;> simp [List.intercalate]

theorem Face.render_total (f : Face) : render ⟨f.total⟩ = f.pad.text := by
  have hm := f.minutes_le
  have hs := f.seconds_le
  have hhours : f.total / 3600 = number f.hours := by unfold total; omega
  have hminutes : f.total / 60 % 60 = number f.minutes := by unfold total; omega
  have hseconds : f.total % 60 = number f.seconds := by unfold total; omega
  have hpadded : (padded 2 (number f.hours)).toList = f.hours.leftpad 2 '0' :=
    f.hours_digits.elim (padded_number · (by decide)) (padded_number · le_rfl)
  rw [render_eq, if_neg (by simp), Int.natAbs_natCast, List.nil_append, hhours, hminutes, hseconds,
    hpadded, padded_number f.minutes_digits le_rfl, f.minutes_digits.leftpad_self,
    padded_number f.seconds_digits le_rfl, f.seconds_digits.leftpad_self]
  rfl

theorem parse_joined_of_long {h m s : List Char} (hlength : 2 < h.length) (hh : ':' ∉ h)
    (hm : ':' ∉ m) (hs : ':' ∉ s) : parse (joined h m s) = .error .hourDigits := by
  have hhours : hours? h = none := by
    rw [Option.eq_none_iff_forall_ne_some]
    intro n hn
    rcases (hours?_eq_some.mp hn).1 with hdigits | hdigits <;> have := hdigits.1 <;> omega
  simp only [parse, fields_joined hh hm hs, hhours]

theorem render_of_lt {n : Nat} (h : n < 360000) : render ⟨n⟩ = (Face.ofTotal n h).text := by
  rw [render_eq, if_neg (by simp), Int.natAbs_natCast, List.nil_append, Face.text, Face.ofTotal]

/-- A minus or a third digit stands in the hours of every other time. -/
theorem parse_render_of_long {t : ServiceTime} (h : t.seconds < 0 ∨ 360000 ≤ t.seconds) :
    parse t.render = .error .hourDigits := by
  have hcolon {width n : Nat} : ':' ∉ (padded width n).toList :=
    colon_not_mem fun _ => isDigit_of_mem_padded
  rw [render_eq]
  refine parse_joined_of_long ?_ ?_ hcolon hcolon
  · rcases h with hneg | hlong
    · rw [if_pos hneg, List.length_append, length_padded, List.length_singleton]
      omega
    · rw [if_neg (by omega), List.nil_append]
      exact lt_length_padded (by decide) (by omega)
  · rw [List.mem_append, not_or]
    exact ⟨by split_ifs <;> decide, hcolon⟩

/-- What is written for a time is read as this time up to forty-eight hours, and no later or
negative time is read back. -/
theorem parse_render (t : ServiceTime) : parse t.render =
    if 0 ≤ t.seconds ∧ t.seconds ≤ latest then .ok t
    else .error (if 0 ≤ t.seconds ∧ t.seconds < 360000 then .tooLate else .hourDigits) := by
  have hlatest : (latest : Int) = 172800 := rfl
  by_cases hface : 0 ≤ t.seconds ∧ t.seconds < 360000
  · obtain ⟨seconds⟩ := t
    obtain ⟨n, rfl⟩ := Int.eq_ofNat_of_zero_le hface.1
    have hn : n < 360000 := Int.ofNat_lt.mp hface.2
    rw [render_of_lt hn, Face.parse_text, Face.total_ofTotal, if_pos hface]
    simp only [Int.natCast_nonneg, true_and, Int.ofNat_le]
  · rw [parse_render_of_long (by omega), if_neg hface, if_neg (by omega)]

/-- A text gives a time exactly when it is the text of a face of at most 48:00:00, and then the time
is what the face counts. Written, this time is the face with two digits for its hours. What is
written for a time is read as this time from 00:00:00 to 48:00:00, and is refused for all others. -/
theorem read_and_written :
    (∀ text t, parse text = .ok t ↔ ∃ f : Face, text = f.text ∧ t = ⟨f.total⟩ ∧ f.total ≤ 172800) ∧
    (∀ f : Face, render ⟨f.total⟩ = f.pad.text) ∧
    ∀ t : ServiceTime, parse t.render =
      if 0 ≤ t.seconds ∧ t.seconds ≤ 172800 then .ok t
      else .error (if 0 ≤ t.seconds ∧ t.seconds < 360000 then .tooLate else .hourDigits) := by
  refine ⟨fun text t => ⟨Face.exists_of_parse, ?_⟩, Face.render_total, parse_render⟩
  rintro ⟨f, rfl, rfl, hle⟩
  exact f.parse_text.trans (if_pos hle)

end JourneyPlanner.ServiceTime
