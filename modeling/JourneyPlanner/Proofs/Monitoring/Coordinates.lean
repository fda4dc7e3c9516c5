import JourneyPlanner.Monitoring.NoiseReport
import Mathlib.Tactic.SplitIfs

/-!
# Coordinates of stations

A coordinate is written as degrees, minutes and seconds with marks between them, and perhaps the
letter of a hemisphere after them. Its value is the degrees and the minutes and seconds as parts of
a degree, negative in the west and in the south (`NoiseReport.coordinate?_eq_some`).
-/

namespace JourneyPlanner

namespace Text

variable {α : Type} {p : α → Bool} {w cs : List α} {words : List (List α)}

/-- The words of a text: what stands between one mark or more, or before the first or after the
last. -/
inductive Words (p : α → Bool) : List α → List (List α) → Prop
  | nil : Words p [] []
  | mark {c : α} {cs : List α} {words : List (List α)} (is_mark : p c = true)
    (rest : Words p cs words) : Words p (c :: cs) words
  | word {w cs : List α} {words : List (List α)} (ne_nil : w ≠ []) (free : ∀ c ∈ w, p c = false)
    (ends : ∀ c ∈ cs.head?, p c = true) (rest : Words p cs words) : Words p (w ++ cs) (w :: words)

theorem exists_words (p : α → Bool) (cs : List α) : ∃ words, Words p cs words := by
  induction cs with
  | nil => exact ⟨[], .nil⟩
  | cons c cs ih =>
    obtain ⟨words, h⟩ := ih
    cases hc : p c with
    | true => exact ⟨words, .mark hc h⟩
    | false =>
      -- the character is a word of its own, or goes on with the next one
      have hone {cs : List α} {words : List (List α)} (hends : ∀ d ∈ cs.head?, p d = true)
          (rest : Words p cs words) : Words p (c :: cs) ([c] :: words) :=
        .word (w := [c]) (List.cons_ne_nil _ _) (List.forall_mem_singleton.mpr hc) hends rest
      cases h with
      | nil => exact ⟨[[c]], hone (by simp) .nil⟩
      | mark hd rest => exact ⟨_, hone (by simpa using hd) (.mark hd rest)⟩
      | @word w _ words _ hw hends rest =>
        exact ⟨(c :: w) :: words, .word (w := c :: w) (List.cons_ne_nil _ _)
          (List.forall_mem_cons.mpr ⟨hc, hw⟩) hends rest⟩

theorem fields_append (hw : ∀ c ∈ w, p c = false) {first : List α} {others : List (List α)}
    (h : fields p cs = first :: others) : fields p (w ++ cs) = (w ++ first) :: others := by
  induction w with
  | nil => exact h
  | cons c w ih =>
    obtain ⟨hc, hw⟩ := List.forall_mem_cons.mp hw
    rw [List.cons_append, fields, hc, if_neg Bool.false_ne_true, ih hw]
    rfl

/-- The words are the pieces between marks, without the empty ones. -/
theorem Words.eq (h : Words p cs words) :
    (fields p cs).filter (fun piece => !piece.isEmpty) = words := by
  induction h with
  | nil => rfl
  | mark hc _ ih =>
    rw [fields, if_pos hc]
    exact ih
  | @word w cs words hne hw hends _ ih =>
    have hfirst : ∃ others, fields p cs = [] :: others := by
      cases cs with
      | nil => exact ⟨[], rfl⟩
      | cons c cs => exact ⟨fields p cs, by rw [fields, if_pos (hends c rfl)]⟩
    obtain ⟨others, hothers⟩ := hfirst
    rw [hothers] at ih
    rw [fields_append hw hothers, List.append_nil, List.filter_cons_of_pos (by simpa using hne)]
    exact congrArg (w :: ·) ih

theorem words_iff : (fields p cs).filter (fun piece => !piece.isEmpty) = words ↔
    Words p cs words := by
  refine ⟨?_, Words.eq⟩
  rintro rfl
  obtain ⟨words, h⟩ := exists_words p cs
  rwa [h.eq]

end Text

namespace NoiseReport

open JourneyPlanner.Text

/-- What the word after the seconds makes of a coordinate: a letter for the west or the south turns
its sign. -/
def turn (rest : List (List Char)) : Float :=
  if rest.head? ∈ [some ['O'], some ['W'], some ['S']] then -1.0 else 1.0

/-- A text is a coordinate of some value in degrees. -/
def IsCoordinate (text : String) (x : Float) : Prop :=
  ∃ degrees minutes seconds rest d m s,
    Words isCoordinateMark (text.toList.map fun c => if c = ',' then '.' else c)
      (degrees :: minutes :: seconds :: rest) ∧
    Decimal.readFloat? degrees = some d ∧ Decimal.readFloat? minutes = some m ∧
    Decimal.readFloat? seconds = some s ∧ x = (d + (m * 60.0 + s) / 3600.0) * turn rest

theorem turn_eq (rest : List (List Char)) :
    (if rest.head?.any isNegativeHemisphere then -1.0 else 1.0) = turn rest := by
  unfold turn isNegativeHemisphere
  cases rest with
  | nil => rfl
  | cons part rest => simp [or_assoc]

theorem coordinate?_eq_some {text : String} {x : Float} :
    coordinate? text = some x ↔ IsCoordinate text x := by
  unfold coordinate? IsCoordinate
  have hparts : coordinateParts text = (fields isCoordinateMark (text.toList.map fun c =>
      if c = ',' then '.' else c)).filter fun part => !part.isEmpty := rfl
  constructor
  · intro h
    split at h
    · rename_i degrees minutes seconds rest hwords
      simp only [bind, pure, Option.bind_eq_some_iff, Option.some.injEq, turn_eq] at h
      obtain ⟨d, hd, m, hm, s, hs, rfl⟩ := h
      exact ⟨degrees, minutes, seconds, rest, d, m, s, words_iff.mp (hparts ▸ hwords), hd, hm, hs,
        rfl⟩
    · cases h
  · rintro ⟨degrees, minutes, seconds, rest, d, m, s, hwords, hd, hm, hs, rfl⟩
    rw [hparts, words_iff.mpr hwords]
    simp only [bind, pure, hd, hm, hs, Option.bind_some, turn_eq]

example : coordinate? "3º41'27'' O" = some (-(3.0 + (41.0 * 60.0 + 27.0) / 3600.0)) := by
  decide +kernel

end NoiseReport

end JourneyPlanner
