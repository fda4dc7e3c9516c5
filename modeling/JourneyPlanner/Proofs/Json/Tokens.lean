import Mathlib.Data.List.TakeWhile
import JourneyPlanner.Json.Parser

/-!
# Strings and numbers of JSON

The texts of blanks, strings and numbers, said without a reader. The reader of strings takes
exactly what stands before the next closing quote (`stringBody?_iff`). That of numbers takes a text
from the front (`unsigned?_sound`), and all of it when no further digit, point or letter of an
exponent follows (`unsigned?_complete`).
-/

namespace JourneyPlanner.Json

open JourneyPlanner.Decimal JourneyPlanner.Text

variable {c : Char} {s text rest : List Char}

/-! ## Blanks -/

/-- A character that may stand between tokens. -/
def Blank (c : Char) : Prop := c = ' ' ∨ c = '\t' ∨ c = '\n' ∨ c = '\r'

/-- Blanks, or nothing. -/
def Blanks (s : List Char) : Prop := ∀ c ∈ s, Blank c

theorem isBlank_iff : (c = ' ' || c = '\t' || c = '\n' || c = '\r') = true ↔ Blank c := by
  simp only [Bool.or_eq_true, decide_eq_true_eq, or_assoc, Blank]

theorem blanks_skipped (s : List Char) : ∃ blanks, Blanks blanks ∧ s = blanks ++ skipBlank s := by
  refine ⟨_, fun c hc => ?_, List.takeWhile_append_dropWhile.symm⟩
  have h := List.mem_takeWhile_imp hc
  exact isBlank_iff.mp h

theorem skipBlank_append {blanks : List Char} (h : Blanks blanks) (s : List Char) :
    skipBlank (blanks ++ s) = skipBlank s :=
  List.dropWhile_append_of_pos fun c hc => isBlank_iff.mpr (h c hc)

theorem skipBlank_cons (h : ¬ Blank c) (s : List Char) : skipBlank (c :: s) = c :: s :=
  List.dropWhile_cons_of_neg (mt isBlank_iff.mp h)

/-! ## Strings -/

/-- How a piece of a string is written. -/
inductive WritesPiece : Piece → List Char → Prop
  | plain (c : Char) (quote : c ≠ '"') (backslash : c ≠ '\\') (control : 0x20 ≤ c.toNat) :
    WritesPiece (.octet c) [c]
  | escape {e c : Char} (h : escape? e = some c) : WritesPiece (.octet c) ['\\', e]
  | unit {a b c d : Char} {w x y z : Nat} (ha : hexValue? a = some w) (hb : hexValue? b = some x)
    (hc : hexValue? c = some y) (hd : hexValue? d = some z) :
    WritesPiece (.unit (((w * 16 + x) * 16 + y) * 16 + z)) ['\\', 'u', a, b, c, d]

/-- How the pieces of a string are written, one after the other. -/
inductive WritesPieces : List Piece → List Char → Prop
  | nil : WritesPieces [] []
  | cons {piece : Piece} {pieces : List Piece} {text texts : List Char}
    (h : WritesPiece piece text) (rest : WritesPieces pieces texts) :
    WritesPieces (piece :: pieces) (text ++ texts)

theorem stringBody?_sound {read found : List Piece} (h : stringBody? read s = some (found, rest)) :
    ∃ pieces text, found = read.reverse ++ pieces ∧ WritesPieces pieces text ∧
      s = text ++ '"' :: rest := by
  have hcons {read found pieces : List Piece} {piece : Piece} {first text after : List Char}
      (hfound : found = (piece :: read).reverse ++ pieces) (hpieces : WritesPieces pieces text)
      (hafter : after = text ++ '"' :: rest) (hpiece : WritesPiece piece first) :
      ∃ pieces text, found = read.reverse ++ pieces ∧ WritesPieces pieces text ∧
        first ++ after = text ++ '"' :: rest := by
    refine ⟨piece :: pieces, first ++ text, ?_, .cons hpiece hpieces, ?_⟩
    · rw [hfound, List.reverse_cons, List.append_assoc]
      rfl
    · rw [hafter, List.append_assoc]
  fun_induction stringBody? read s with
  | case1 => cases h
  | case2 =>
    cases h
    exact ⟨[], [], (List.append_nil _).symm, .nil, rfl⟩
  | case3 read a b c d after w x y z hd hc hb ha ih =>
    obtain ⟨pieces, text, hfound, hpieces, hafter⟩ := ih h
    exact hcons hfound hpieces hafter (.unit ha hb hc hd)
  | case4 => cases h
  | case5 read e after hunit c he ih =>
    obtain ⟨pieces, text, hfound, hpieces, hafter⟩ := ih h
    exact hcons hfound hpieces hafter (.escape he)
  | case6 => cases h
  | case7 => cases h
  | case8 read c after hquote hunit hescape hcontrol ih =>
    obtain ⟨pieces, text, hfound, hpieces, hafter⟩ := ih h
    have hbackslash : c ≠ '\\' := by
      rintro rfl
      -- a backslash at the end of the text has no closing quote after it
      cases after with
      | nil => cases h
      | cons c after => exact hescape c after rfl rfl
    exact hcons hfound hpieces hafter (.plain c hquote hbackslash (Nat.le_of_not_lt hcontrol))

theorem stringBody?_complete {pieces : List Piece} (h : WritesPieces pieces text)
    (read : List Piece) :
    stringBody? read (text ++ '"' :: rest) = some (read.reverse ++ pieces, rest) := by
  induction h generalizing read with
  | nil => rw [List.append_nil]; rfl
  | @cons piece pieces text texts hpiece hpieces ih =>
    have hread : (piece :: read).reverse ++ pieces = read.reverse ++ piece :: pieces := by
      rw [List.reverse_cons, List.append_assoc]
      rfl
    rw [List.append_assoc, ← hread, ← ih]
    cases hpiece with
    | plain c hquote hbackslash hcontrol =>
      show stringBody? read (c :: (texts ++ '"' :: rest)) = _
      rw [stringBody?]
      · exact if_neg (Nat.not_lt.mpr hcontrol)
      · exact hquote
      · exact fun _ _ _ _ _ h => absurd h hbackslash
      · exact fun _ _ h => absurd h hbackslash
    | @escape e c he =>
      show stringBody? read ('\\' :: e :: (texts ++ '"' :: rest)) = _
      have hunit : e ≠ 'u' := by
        rintro rfl
        cases he
      rw [stringBody?, he]
      exact fun _ _ _ _ _ h => absurd h hunit
    | unit ha hb hc hd =>
      rw [List.cons_append, List.cons_append, List.cons_append, List.cons_append, List.cons_append,
        List.cons_append, List.nil_append, stringBody?, ha, hb, hc, hd]

/-- A string is read exactly up to the closing quote. -/
theorem stringBody?_iff {pieces : List Piece} : stringBody? [] s = some (pieces, rest) ↔
    ∃ text, WritesPieces pieces text ∧ s = text ++ '"' :: rest := by
  constructor
  · intro h
    obtain ⟨pieces, text, rfl, hpieces, rfl⟩ := stringBody?_sound h
    exact ⟨text, hpieces, rfl⟩
  · rintro ⟨text, hpieces, rfl⟩
    exact stringBody?_complete hpieces []

/-! ## Numbers -/

/-- How digits are written. -/
structure WritesDigits (digits : List Nat) (text : List Char) : Prop where
  digits_eq : digits = text.map digitValue
  all_digits : ∀ c ∈ text, isDigit c = true
  nonempty : digits ≠ []

/-- How a whole number is written: no further digit comes after a leading zero. -/
inductive WritesWhole : List Nat → List Char → Prop
  | zero : WritesWhole [0] ['0']
  | digits {digits : List Nat} {text : List Char} (h : WritesDigits digits text)
    (zero : text.head? ≠ some '0') : WritesWhole digits text

/-- How a fraction is written, when there is one. -/
inductive WritesFraction : Option (List Nat) → List Char → Prop
  | none : WritesFraction none []
  | digits {digits : List Nat} {text : List Char} (h : WritesDigits digits text) :
    WritesFraction (some digits) ('.' :: text)

/-- How the sign of an exponent is written; none is a plus. -/
inductive WritesSign : Bool → List Char → Prop
  | none : WritesSign false []
  | plus : WritesSign false ['+']
  | minus : WritesSign true ['-']

/-- How an exponent is written, when there is one. -/
inductive WritesExponent : Option (Bool × List Nat) → List Char → Prop
  | none : WritesExponent none []
  | digits {letter : Char} {negative : Bool} {sign : List Char} {digits : List Nat}
    {text : List Char} (letter_eq : letter = 'e' ∨ letter = 'E') (hsign : WritesSign negative sign)
    (h : WritesDigits digits text) :
    WritesExponent (some (negative, digits)) (letter :: (sign ++ text))

/-- How a number is written after its sign. -/
inductive WritesUnsigned : Numeral → List Char → Prop
  | intro {n : Numeral} {whole fraction exponent : List Char} (hwhole : WritesWhole n.whole whole)
    (hfraction : WritesFraction n.fraction fraction)
    (hexponent : WritesExponent n.exponent exponent) :
    WritesUnsigned n (whole ++ fraction ++ exponent)

/-- No digit comes next. -/
def NoDigit (rest : List Char) : Prop := ∀ c ∈ rest.head?, isDigit c = false

/-- A number ends here, since nothing that could belong to it comes next. -/
def NumberEnds (rest : List Char) : Prop :=
  ∀ c ∈ rest.head?, isDigit c = false ∧ c ≠ '.' ∧ c ≠ 'e' ∧ c ≠ 'E'

theorem WritesDigits.head {digits : List Nat} (h : WritesDigits digits text) :
    ∃ c tail, text = c :: tail ∧ isDigit c = true := by
  cases text with
  | nil => exact absurd h.digits_eq h.nonempty
  | cons c tail => exact ⟨c, tail, rfl, h.all_digits c List.mem_cons_self⟩

theorem takeDigits_sound {digits : List Nat} (h : takeDigits s = (digits, rest))
    (hne : digits ≠ []) : ∃ text, WritesDigits digits text ∧ s = text ++ rest := by
  obtain ⟨rfl, rfl⟩ := Prod.mk.inj h
  exact ⟨_, ⟨rfl, fun _ hc => List.mem_takeWhile_imp hc, hne⟩,
    List.takeWhile_append_dropWhile.symm⟩

theorem takeDigits_complete {digits : List Nat} (h : WritesDigits digits text)
    (hrest : NoDigit rest) : takeDigits (text ++ rest) = (digits, rest) := by
  have htake : rest.takeWhile isDigit = [] ∧ rest.dropWhile isDigit = rest := by
    cases rest with
    | nil => exact ⟨rfl, rfl⟩
    | cons c rest =>
      have hc := Bool.not_eq_true _ |>.mpr (hrest c rfl)
      exact ⟨List.takeWhile_cons_of_neg hc, List.dropWhile_cons_of_neg hc⟩
  unfold takeDigits
  rw [List.takeWhile_append_of_pos h.all_digits, List.dropWhile_append_of_pos h.all_digits, htake.1,
    htake.2, List.append_nil, h.digits_eq]

theorem wholeDigits?_sound {digits : List Nat} (h : wholeDigits? s = some (digits, rest)) :
    ∃ text, WritesWhole digits text ∧ s = text ++ rest := by
  unfold wholeDigits? at h
  split at h
  · cases h
    exact ⟨['0'], .zero, rfl⟩
  · rename_i hzero
    have htake : takeDigits s = (digits, rest) ∧ digits ≠ [] := by
      split at h
      · cases h
      · rename_i hne
        refine ⟨Option.some.inj h, ?_⟩
        rintro rfl
        exact hne rest (Option.some.inj h)
    obtain ⟨text, htext, rfl⟩ := takeDigits_sound htake.1 htake.2
    refine ⟨text, .digits htext ?_, rfl⟩
    obtain ⟨c, tail, rfl, -⟩ := htext.head
    rintro h
    cases h
    exact hzero _ rfl

theorem wholeDigits?_complete {digits : List Nat} (h : WritesWhole digits text)
    (hrest : NoDigit rest) : wholeDigits? (text ++ rest) = some (digits, rest) := by
  cases h with
  | zero => rfl
  | digits hdigits hzero =>
    have htake := takeDigits_complete hdigits hrest
    obtain ⟨c, tail, rfl, -⟩ := hdigits.head
    have hc : c ≠ '0' := fun hc => hzero (hc ▸ rfl)
    rw [List.cons_append] at htake ⊢
    rw [wholeDigits?, htake]
    · obtain ⟨d, ds, rfl⟩ := List.exists_cons_of_ne_nil hdigits.nonempty
      rfl
    · exact fun _ h => hc (List.cons.inj h).1

theorem fractionDigits?_sound {fraction : Option (List Nat)}
    (h : fractionDigits? s = some (fraction, rest)) :
    ∃ text, WritesFraction fraction text ∧ s = text ++ rest := by
  unfold fractionDigits? at h
  split at h
  · split at h
    · cases h
    · rename_i digits after hne htake
      cases h
      obtain ⟨text, htext, rfl⟩ := takeDigits_sound htake hne
      exact ⟨'.' :: text, .digits htext, rfl⟩
  · cases h
    exact ⟨[], .none, rfl⟩

theorem fractionDigits?_complete {fraction : Option (List Nat)} (h : WritesFraction fraction text)
    (hrest : ∀ c ∈ rest.head?, isDigit c = false ∧ c ≠ '.') :
    fractionDigits? (text ++ rest) = some (fraction, rest) := by
  cases h with
  | none =>
    cases rest with
    | nil => rfl
    | cons c rest =>
      show fractionDigits? (c :: rest) = _
      rw [fractionDigits?]
      exact fun _ h => (hrest c rfl).2 (List.cons.inj h).1
  | digits hdigits =>
    have htake := takeDigits_complete hdigits fun c hc => (hrest c hc).1
    show fractionDigits? ('.' :: (_ ++ rest)) = _
    rw [fractionDigits?, htake]
    obtain ⟨d, ds, rfl⟩ := List.exists_cons_of_ne_nil hdigits.nonempty
    rfl

theorem takeSign_sound (s : List Char) :
    ∃ sign, WritesSign (takeSign s).1 sign ∧ s = sign ++ (takeSign s).2 := by
  unfold takeSign
  split
  · exact ⟨_, .minus, rfl⟩
  · exact ⟨_, .plus, rfl⟩
  · exact ⟨_, .none, rfl⟩

theorem takeSign_complete {negative : Bool} {sign : List Char} (h : WritesSign negative sign)
    (hc : isDigit c = true) : takeSign (sign ++ c :: s) = (negative, c :: s) := by
  cases h with
  | none =>
    show takeSign (c :: s) = _
    unfold takeSign
    split
    · rename_i h
      obtain rfl := (List.cons.inj h).1
      exact absurd hc (by decide)
    · rename_i h
      obtain rfl := (List.cons.inj h).1
      exact absurd hc (by decide)
    · rfl
  | plus => rfl
  | minus => rfl

theorem exponentDigits?_sound {exponent : Option (Bool × List Nat)}
    (h : exponentDigits? s = some (exponent, rest)) :
    ∃ text, WritesExponent exponent text ∧ s = text ++ rest := by
  unfold exponentDigits? at h
  split at h
  · rename_i letter after
    split_ifs at h with hletter
    · split at h
      · cases h
      · rename_i digits after hne htake
        cases h
        obtain ⟨sign, hsign, hafter⟩ := takeSign_sound after
        obtain ⟨text, htext, hs⟩ := takeDigits_sound htake hne
        rw [Bool.or_eq_true, decide_eq_true_eq, decide_eq_true_eq] at hletter
        refine ⟨_, .digits hletter hsign htext, ?_⟩
        rw [hs] at hafter
        rw [List.cons_append, List.append_assoc, hafter]
    · cases h
      exact ⟨[], .none, rfl⟩
  · cases h
    exact ⟨[], .none, rfl⟩

theorem exponentDigits?_complete {exponent : Option (Bool × List Nat)}
    (h : WritesExponent exponent text)
    (hrest : ∀ c ∈ rest.head?, isDigit c = false ∧ c ≠ 'e' ∧ c ≠ 'E') :
    exponentDigits? (text ++ rest) = some (exponent, rest) := by
  cases h with
  | none =>
    cases rest with
    | nil => rfl
    | cons c rest =>
      obtain ⟨-, he, hE⟩ := hrest c rfl
      show exponentDigits? (c :: rest) = _
      unfold exponentDigits?
      simp [he, hE]
  | @digits letter negative sign digits text hletter hsign hdigits =>
    have htake := takeDigits_complete hdigits fun c hc => (hrest c hc).1
    obtain ⟨c, tail, rfl, hc⟩ := hdigits.head
    have hs := takeSign_complete hsign hc (s := tail ++ rest)
    have hletter : (letter = 'e' || letter = 'E') = true := by
      rw [Bool.or_eq_true, decide_eq_true_eq, decide_eq_true_eq]
      exact hletter
    rw [List.cons_append, List.append_assoc, exponentDigits?, if_pos hletter, List.cons_append, hs,
      ← List.cons_append, htake]
    obtain ⟨d, ds, rfl⟩ := List.exists_cons_of_ne_nil hdigits.nonempty
    rfl

theorem unsigned?_sound {negative : Bool} {v : Value}
    (h : unsigned? negative s = some (v, rest)) :
    ∃ n text, v = .number n ∧ n.negative = negative ∧ WritesUnsigned n text ∧ s = text ++ rest := by
  unfold unsigned? at h
  simp only [bind, pure, Option.bind_eq_some_iff, Option.some.injEq] at h
  obtain ⟨⟨whole, afterWhole⟩, hwhole, ⟨fraction, afterFraction⟩, hfraction,
    ⟨exponent, after⟩, hexponent, heq⟩ := h
  obtain ⟨rfl, rfl⟩ := Prod.mk.inj heq
  obtain ⟨wholeText, hwholeText, rfl⟩ := wholeDigits?_sound hwhole
  obtain ⟨fractionText, hfractionText, rfl⟩ := fractionDigits?_sound hfraction
  obtain ⟨exponentText, hexponentText, rfl⟩ := exponentDigits?_sound hexponent
  refine ⟨_, _, rfl, rfl, .intro hwholeText hfractionText hexponentText, ?_⟩
  rw [List.append_assoc, List.append_assoc]

theorem WritesFraction.noDigit {fraction : Option (List Nat)} (h : WritesFraction fraction text)
    (hrest : ∀ c ∈ rest.head?, isDigit c = false ∧ c ≠ '.') : NoDigit (text ++ rest) := by
  cases h with
  | none => exact fun c hc => (hrest c hc).1
  | digits => rintro _ ⟨⟩; decide

theorem WritesExponent.next {exponent : Option (Bool × List Nat)} (h : WritesExponent exponent text)
    (hrest : NumberEnds rest) : ∀ c ∈ (text ++ rest).head?, isDigit c = false ∧ c ≠ '.' := by
  cases h with
  | none => exact fun c hc => ⟨(hrest c hc).1, (hrest c hc).2.1⟩
  | digits hletter =>
    rintro _ ⟨⟩
    rcases hletter with rfl | rfl <;> decide

theorem unsigned?_complete {n : Numeral} (h : WritesUnsigned n text) (hrest : NumberEnds rest) :
    unsigned? n.negative (text ++ rest) = some (.number n, rest) := by
  obtain ⟨hwhole, hfraction, hexponent⟩ := h
  unfold unsigned?
  rw [List.append_assoc, List.append_assoc,
    wholeDigits?_complete hwhole (hfraction.noDigit (hexponent.next hrest))]
  show (fractionDigits? _).bind _ = _
  rw [fractionDigits?_complete hfraction (hexponent.next hrest)]
  show (exponentDigits? _).bind _ = _
  rw [exponentDigits?_complete hexponent fun c hc => ⟨(hrest c hc).1, (hrest c hc).2.2⟩]
  rfl

end JourneyPlanner.Json
