/-!
# Blank and control characters

The two classes of characters that identifiers, dates and station keys care about, and the
cutting of texts at blanks and at separators. `fields` loses nothing but the separators.
-/

namespace JourneyPlanner.Text

/-- The characters with the Unicode property `White_Space`. -/
def isBlank (c : Char) : Bool :=
  let n := c.toNat
  (9 ≤ n && n ≤ 13) || n == 0x20 || n == 0x85 || n == 0xa0 || n == 0x1680 ||
    (0x2000 ≤ n && n ≤ 0x200a) || n == 0x2028 || n == 0x2029 || n == 0x202f || n == 0x205f ||
    n == 0x3000

/-- The characters of the Unicode category `Cc`. -/
def isControl (c : Char) : Bool :=
  c.toNat ≤ 0x1f || (0x7f ≤ c.toNat && c.toNat ≤ 0x9f)

/-- The ten ASCII digits, and no others. -/
def isDigit (c : Char) : Bool := '0' ≤ c && c ≤ '9'

/-- The value of an ASCII digit. -/
def digitValue (c : Char) : Nat := c.toNat - '0'.toNat

/-- The number that a run of digit values writes in base ten. -/
def ofDigits (ds : List Nat) : Nat := ds.foldl (fun n d => 10 * n + d) 0

/-- The text without the blanks it starts with. -/
def trimStart (cs : List Char) : List Char := cs.dropWhile isBlank

/-- The text without the blanks at its two ends. -/
def trim (cs : List Char) : List Char := (trimStart (trimStart cs).reverse).reverse

/-- The pieces between separators: one more than there are separators. -/
def fields {α : Type} (isSeparator : α → Bool) : List α → List (List α)
  | [] => [[]]
  | a :: rest =>
    if isSeparator a then [] :: fields isSeparator rest
    else match fields isSeparator rest with
      | [] => [[a]]
      | piece :: pieces => (a :: piece) :: pieces

theorem fields_ne_nil {α : Type} (p : α → Bool) (as : List α) : fields p as ≠ [] := by
  cases as with
  | nil => simp [fields]
  | cons a rest =>
    by_cases h : p a
    · simp [fields, h]
    · cases hr : fields p rest <;> simp [fields, h, hr]

/-- No piece holds a separator. -/
theorem not_isSeparator_of_mem_fields {α : Type} {p : α → Bool} {as piece : List α}
    (h : piece ∈ fields p as) : ∀ a ∈ piece, p a = false := by
  induction as generalizing piece with
  | nil => simp_all [fields]
  | cons a rest ih =>
    by_cases hp : p a
    · simp only [fields, hp, if_true, List.mem_cons] at h
      rcases h with rfl | h
      · simp
      · exact ih h
    · cases hr : fields p rest with
      | nil => exact absurd hr (fields_ne_nil p rest)
      | cons first others =>
        simp only [fields, hp, hr, Bool.false_eq_true, if_false, List.mem_cons] at h
        rcases h with rfl | h
        · intro b hb
          rcases List.mem_cons.1 hb with rfl | hb
          · simpa using hp
          · exact ih (by simp [hr]) b hb
        · exact ih (by simp [hr, h])

end JourneyPlanner.Text
