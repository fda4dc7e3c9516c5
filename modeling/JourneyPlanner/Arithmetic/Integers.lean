/-!
# Whole numbers

Times and offsets are integers. They are computed either without bound or in words of 32 and 64
bits, where a result that its word does not hold stops the computation. Results that are held are
the same.
-/

namespace JourneyPlanner

/-- How the results of integer arithmetic are kept. -/
inductive Integers where
  | unbounded
  | words
  deriving DecidableEq, Repr

/-- A result that its word does not hold. -/
inductive Overflow where
  | overflow
  deriving DecidableEq, Repr

namespace Integers

/-- Whether a result is held by a signed word of so many bits, when there are words. -/
def Holds (k : Integers) (bits : Nat) (n : Int) : Prop :=
  k = .words → -Int.pow 2 (bits - 1) ≤ n ∧ n < Int.pow 2 (bits - 1)

instance {k : Integers} {bits : Nat} {n : Int} : Decidable (k.Holds bits n) :=
  inferInstanceAs (Decidable (_ → _))

/-- A result kept in a signed word of so many bits. -/
def fit (k : Integers) (bits : Nat) (n : Int) : Except Overflow Int :=
  if k.Holds bits n then .ok n else .error .overflow

variable {k : Integers} {bits : Nat} {n m : Int}

@[simp] theorem holds_unbounded : unbounded.Holds bits n := nofun

@[simp] theorem fit_unbounded : unbounded.fit bits n = .ok n := if_pos holds_unbounded

theorem fit_of_holds (h : k.Holds bits n) : k.fit bits n = .ok n := if_pos h

theorem fit_eq_error (h : ¬k.Holds bits n) : k.fit bits n = .error .overflow := if_neg h

/-- What is kept is exact. -/
theorem fit_eq_ok : k.fit bits n = .ok m ↔ k.Holds bits n ∧ m = n := by
  by_cases h : k.Holds bits n
  · rw [fit_of_holds h, Except.ok.injEq, eq_comm]
    exact ⟨fun h' => ⟨h, h'⟩, fun h' => h'.2⟩
  · rw [fit_eq_error h]
    exact ⟨nofun, fun h' => absurd h'.1 h⟩

end Integers

end JourneyPlanner
