import Mathlib.Data.List.Induction
import Mathlib.Tactic.IntervalCases
import JourneyPlanner.Text.Blank
import JourneyPlanner.Decimal.Fixed

/-!
# Decimal digits

Digits write the number whose own digits they are, after some zeros (`digits_eq`), and a number is
read from its own digits. So a number is read from its padded form, and padding the number that
digits write pads the digits (`padded_ofDigits`).
-/

namespace JourneyPlanner.Text

variable {cs : List Char} {c : Char}

theorem isDigit_iff : isDigit c = true ↔ 48 ≤ c.toNat ∧ c.toNat ≤ 57 := by
  unfold isDigit
  rw [Bool.and_eq_true, decide_eq_true_eq, decide_eq_true_eq]
  exact Iff.rfl

theorem digitChar_digitValue (h : isDigit c = true) : Nat.digitChar (digitValue c) = c := by
  obtain ⟨h, h'⟩ := isDigit_iff.mp h
  have hc : Char.ofNat c.toNat = c := Char.ofNat_toNat c
  unfold digitValue
  generalize c.toNat = n at h h' hc
  subst hc
  interval_cases n <;> rfl

theorem digitValue_lt (h : isDigit c = true) : digitValue c < 10 := by
  obtain ⟨h, h'⟩ := isDigit_iff.mp h
  show c.toNat - 48 < 10
  omega

theorem ofDigits_concat (ds : List Nat) (d : Nat) : ofDigits (ds ++ [d]) = 10 * ofDigits ds + d :=
  List.foldl_append

theorem ofDigits_zeros (zeros : Nat) (ds : List Nat) :
    ofDigits (List.replicate zeros 0 ++ ds) = ofDigits ds := by
  induction zeros with
  | zero => rfl
  | succ zeros ih => exact ih

theorem ofDigits_toDigits (n : Nat) : ofDigits ((Nat.toDigits 10 n).map digitValue) = n := by
  have hlast {d : Nat} (h : d < 10) : digitValue (Nat.digitChar d) = d := by
    interval_cases d <;> rfl
  induction n using Nat.strongRecOn with
  | ind n ih =>
    rw [Nat.toDigits_eq_if (by decide)]
    split_ifs with hlt
    · show 10 * 0 + digitValue (Nat.digitChar n) = n
      rw [hlast hlt, Nat.mul_zero, Nat.zero_add]
    · rw [List.map_append, List.map_singleton, ofDigits_concat, ih _ (by omega),
        hlast (Nat.mod_lt _ (by decide)), Nat.div_add_mod]

theorem isDigit_of_mem_toDigits {n : Nat} (h : c ∈ Nat.toDigits 10 n) : isDigit c = true :=
  Nat.isDigit_of_mem_toDigits (by decide) (by decide) h

/-- Digits are those of the number that they write, after some zeros. -/
theorem digits_eq (hne : cs ≠ []) (h : ∀ c ∈ cs, isDigit c = true) : ∃ zeros,
    cs = List.replicate zeros '0' ++ Nat.toDigits 10 (ofDigits (cs.map digitValue)) := by
  induction cs using List.reverseRecOn with
  | nil => exact absurd rfl hne
  | append_singleton cs c ih =>
    have hc := h c (List.mem_append_right _ List.mem_cons_self)
    have hdigit : Nat.toDigits 10 (digitValue c) = [c] := by
      rw [Nat.toDigits_of_lt_base (digitValue_lt hc), digitChar_digitValue hc]
    rw [List.map_append, List.map_singleton, ofDigits_concat]
    by_cases hnil : cs = []
    · subst hnil
      exact ⟨0, by simpa [ofDigits] using hdigit.symm⟩
    · obtain ⟨zeros, heq⟩ := ih hnil fun c hc => h c (List.mem_append_left _ hc)
      rcases Nat.eq_zero_or_pos (ofDigits (cs.map digitValue)) with hzero | hpos
      · rw [hzero, Nat.mul_zero, Nat.zero_add, hdigit]
        refine ⟨zeros + 1, ?_⟩
        rw [hzero] at heq
        rw [heq, List.replicate_succ']
        rfl
      · refine ⟨zeros, ?_⟩
        rw [← Nat.toDigits_append_toDigits (by decide) hpos (digitValue_lt hc), hdigit,
          ← List.append_assoc, ← heq]

/-! ## Padded numbers -/

section Padded

open JourneyPlanner.Decimal

variable {width n : Nat}

theorem toList_padded (width n : Nat) : (padded width n).toList =
    List.replicate (width - (Nat.toDigits 10 n).length) '0' ++ Nat.toDigits 10 n :=
  String.toList_ofList

theorem isDigit_of_mem_padded (h : c ∈ (padded width n).toList) : isDigit c = true := by
  rw [toList_padded] at h
  rcases List.mem_append.mp h with h | h
  · rw [List.eq_of_mem_replicate h]
    rfl
  · exact isDigit_of_mem_toDigits h

theorem ofDigits_padded (width n : Nat) :
    ofDigits ((padded width n).toList.map digitValue) = n := by
  rw [toList_padded, List.map_append, List.map_replicate]
  exact (ofDigits_zeros _ _).trans (ofDigits_toDigits n)

/-- The padded form of a number has as many digits as asked for, unless the number has more. -/
theorem length_padded (width n : Nat) :
    (padded width n).toList.length = max width (Nat.toDigits 10 n).length := by
  rw [toList_padded, List.length_append, List.length_replicate]
  omega

theorem length_padded_of_lt (hwidth : 0 < width) (h : n < 10 ^ width) :
    (padded width n).toList.length = width := by
  rw [length_padded, max_eq_left ((Nat.length_toDigits_le_iff (by decide) hwidth).mpr h)]

theorem lt_length_padded (hwidth : 0 < width) (h : 10 ^ width ≤ n) :
    width < (padded width n).toList.length := by
  rw [length_padded]
  refine lt_max_of_lt_right (Nat.lt_of_not_le fun hle => ?_)
  exact absurd ((Nat.length_toDigits_le_iff (by decide) hwidth).mp hle) (Nat.not_lt.mpr h)

theorem padded_ofDigits (hne : cs ≠ []) (h : ∀ c ∈ cs, isDigit c = true)
    (hlength : cs.length ≤ width) :
    (padded width (ofDigits (cs.map digitValue))).toList = cs.leftpad width '0' := by
  obtain ⟨zeros, heq⟩ := digits_eq hne h
  rw [toList_padded]
  generalize Nat.toDigits 10 (ofDigits (cs.map digitValue)) = ds at heq
  subst heq
  rw [List.length_append, List.length_replicate] at hlength
  unfold List.leftpad
  rw [List.length_append, List.length_replicate, ← List.append_assoc,
    List.replicate_append_replicate]
  congr 2
  omega

end Padded

end JourneyPlanner.Text
