import Mathlib.Data.List.TakeWhile
import JourneyPlanner.Monitoring.NoiseReport
import JourneyPlanner.Proofs.Text.Digits

/-!
# Numbers of stations

The two tables of a noise report write the number of a station differently. A text gives a number
exactly when it consists of the decimal digits of the number, perhaps with zeros before them,
between blanks, and the number has at most 32 bits (`NoiseReport.stationNumber?_eq_some`).
-/

namespace JourneyPlanner

namespace Text

variable {cs before core after : List Char} {c : Char}

/-! ## Blanks around a text -/

theorem trimStart_append (h : ∀ c ∈ before, isBlank c = true) (cs : List Char) :
    trimStart (before ++ cs) = trimStart cs := List.dropWhile_append_of_pos h

theorem trimStart_of_blank (h : ∀ c ∈ cs, isBlank c = true) : trimStart cs = [] := by
  have hnil := trimStart_append h []
  rwa [List.append_nil] at hnil

theorem exists_trimStart (cs : List Char) :
    ∃ before, cs = before ++ trimStart cs ∧ ∀ c ∈ before, isBlank c = true :=
  ⟨cs.takeWhile isBlank, List.takeWhile_append_dropWhile.symm, fun _ => List.mem_takeWhile_imp⟩

theorem exists_trim (cs : List Char) : ∃ before after, cs = before ++ trim cs ++ after ∧
    (∀ c ∈ before, isBlank c = true) ∧ ∀ c ∈ after, isBlank c = true := by
  obtain ⟨before, hbefore, hblank⟩ := exists_trimStart cs
  obtain ⟨after, hafter, hblank'⟩ := exists_trimStart (trimStart cs).reverse
  refine ⟨before, after.reverse, ?_, hblank, fun c hc => hblank' c (List.mem_reverse.mp hc)⟩
  have hrest := congrArg List.reverse hafter
  rw [List.reverse_reverse, List.reverse_append] at hrest
  rw [List.append_assoc]
  exact hbefore.trans (congrArg (before ++ ·) hrest)

theorem trim_append (hbefore : ∀ c ∈ before, isBlank c = true)
    (hcore : ∀ c ∈ core, isBlank c = false) (hafter : ∀ c ∈ after, isBlank c = true) :
    trim (before ++ core ++ after) = core := by
  have hkept {cs : List Char} (h : ∀ c ∈ cs, isBlank c = false) (hne : cs ≠ [])
      (rest : List Char) : trimStart (cs ++ rest) = cs ++ rest := by
    obtain ⟨c, cs, rfl⟩ := List.exists_cons_of_ne_nil hne
    exact List.dropWhile_cons_of_neg (by simp [h c List.mem_cons_self])
  unfold trim
  rw [List.append_assoc, trimStart_append hbefore]
  by_cases hne : core = []
  · rw [hne, List.nil_append, trimStart_of_blank hafter]
    rfl
  · have hkept' := hkept (fun c hc => hcore c (List.mem_reverse.mp hc))
      (mt List.reverse_eq_nil_iff.mp hne) []
    rw [List.append_nil] at hkept'
    rw [hkept hcore hne, List.reverse_append,
      trimStart_append fun c hc => hafter c (List.mem_reverse.mp hc), hkept', List.reverse_reverse]

theorem isBlank_of_isDigit (h : isDigit c = true) : isBlank c = false := by
  obtain ⟨h, h'⟩ := isDigit_iff.mp h
  unfold isBlank
  simp only [Bool.or_eq_false_iff, Bool.and_eq_false_iff, decide_eq_false_iff_not,
    beq_eq_false_iff_ne]
  omega

end Text

namespace NoiseReport

open JourneyPlanner.Text

/-- A text gives a number of at most 32 bits: there are its decimal digits, perhaps after zeros,
and nothing else but blanks around them. -/
def Spells (text : String) (number : Nat) : Prop :=
  number < UInt32.size ∧ ∃ before zeros after,
    text.toList = before ++ (List.replicate zeros '0' ++ Nat.toDigits 10 number) ++ after ∧
    (∀ c ∈ before, isBlank c = true) ∧ ∀ c ∈ after, isBlank c = true

theorem stationNumber?_iff {text : String} {number : Nat} :
    stationNumber? text = some number ↔ trim text.toList ≠ [] ∧
      (∀ c ∈ trim text.toList, isDigit c = true) ∧
      ofDigits ((trim text.toList).map digitValue) = number ∧ number < UInt32.size := by
  unfold stationNumber?
  simp only [Option.ite_none_left_eq_some, Option.ite_none_right_eq_some, Option.some.injEq,
    Bool.or_eq_true, not_or, List.isEmpty_iff, Bool.not_eq_true', Bool.not_eq_false,
    List.all_eq_true]
  constructor
  · rintro ⟨⟨hne, hdigits⟩, hsize, rfl⟩
    exact ⟨hne, hdigits, rfl, hsize⟩
  · rintro ⟨hne, hdigits, rfl, hsize⟩
    exact ⟨⟨hne, hdigits⟩, hsize, rfl⟩

theorem stationNumber?_eq_some {text : String} {number : Nat} :
    stationNumber? text = some number ↔ Spells text number := by
  rw [stationNumber?_iff]
  constructor
  · rintro ⟨hne, hdigits, rfl, hsize⟩
    obtain ⟨before, after, heq, hbefore, hafter⟩ := exists_trim text.toList
    obtain ⟨zeros, hzeros⟩ := digits_eq hne hdigits
    exact ⟨hsize, before, zeros, after, hzeros ▸ heq, hbefore, hafter⟩
  · rintro ⟨hsize, before, zeros, after, heq, hbefore, hafter⟩
    have hdigits : ∀ c ∈ List.replicate zeros '0' ++ Nat.toDigits 10 number, isDigit c = true := by
      intro c hc
      rcases List.mem_append.mp hc with hc | hc
      · rw [List.eq_of_mem_replicate hc]
        rfl
      · exact isDigit_of_mem_toDigits hc
    have htrim : trim text.toList = List.replicate zeros '0' ++ Nat.toDigits 10 number := by
      rw [heq]
      exact trim_append hbefore (fun c hc => isBlank_of_isDigit (hdigits c hc)) hafter
    rw [htrim]
    refine ⟨List.append_ne_nil_of_right_ne_nil _ ?_, hdigits, ?_, hsize⟩
    · exact List.ne_nil_of_length_pos Nat.length_toDigits_pos
    · rw [List.map_append, List.map_replicate]
      exact (ofDigits_zeros zeros _).trans (ofDigits_toDigits number)

end NoiseReport

end JourneyPlanner
