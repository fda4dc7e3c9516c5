import JourneyPlanner.Proofs.Json.Tokens

/-!
# The grammar of JSON

The texts that write a value, said without a reader (`Writes`). A text is read as a value exactly
when it writes it with blanks around it (`parse?_eq_some`): what is read has such a text
(`value?_sound`), and of any such text the reader takes all (`value?_complete`). So a text writes at
most one value (`Writes.unique`).
-/

namespace JourneyPlanner.Json

open JourneyPlanner.Decimal JourneyPlanner.Text

/-! ## Texts of values -/

/-- One or more elements with commas between them, and blanks around each. -/
inductive Separated {α : Type} (element : α → List Char → Prop) : List α → List Char → Prop
  | last {a : α} {before text after : List Char} (hbefore : Blanks before) (h : element a text)
    (hafter : Blanks after) : Separated element [a] (before ++ text ++ after)
  | more {a : α} {as : List α} {before text after texts : List Char} (hbefore : Blanks before)
    (h : element a text) (hafter : Blanks after) (rest : Separated element as texts) :
    Separated element (a :: as) (before ++ text ++ after ++ ',' :: texts)

/-- How a field is written: a key, a colon and a value. -/
inductive WritesField (value : Value → List Char → Prop) : List Piece × Value → List Char → Prop
  | intro {key : List Piece} {v : Value} {keyText before after text : List Char}
    (hkey : WritesPieces key keyText) (hbefore : Blanks before) (hafter : Blanks after)
    (h : value v text) :
    WritesField value (key, v) ('"' :: (keyText ++ '"' :: (before ++ ':' :: (after ++ text))))

/-- How a value is written, without blanks around it. -/
inductive Writes : Value → List Char → Prop
  | null : Writes .null ['n', 'u', 'l', 'l']
  | true : Writes (.bool true) ['t', 'r', 'u', 'e']
  | false : Writes (.bool false) ['f', 'a', 'l', 's', 'e']
  | positive {n : Numeral} {text : List Char} (sign : n.negative = false)
    (h : WritesUnsigned n text) : Writes (.number n) text
  | negative {n : Numeral} {text : List Char} (sign : n.negative = true)
    (h : WritesUnsigned n text) : Writes (.number n) ('-' :: text)
  | string {pieces : List Piece} {text : List Char} (h : WritesPieces pieces text) :
    Writes (.string pieces) ('"' :: (text ++ ['"']))
  | empty {blanks : List Char} (h : Blanks blanks) : Writes (.array []) ('[' :: (blanks ++ [']']))
  | array {vs : List Value} {text : List Char} (h : Separated Writes vs text) :
    Writes (.array vs) ('[' :: (text ++ [']']))
  | noFields {blanks : List Char} (h : Blanks blanks) :
    Writes (.object []) ('\x7b' :: (blanks ++ ['\x7d']))
  | object {fields : List (List Piece × Value)} {text : List Char}
    (h : Separated (WritesField Writes) fields text) :
    Writes (.object fields) ('\x7b' :: (text ++ ['\x7d']))

/-- A text is that of a value, with blanks around it. -/
def IsJson (octets : List Char) (v : Value) : Prop :=
  ∃ before text after, Blanks before ∧ Writes v text ∧ Blanks after ∧
    octets = before ++ (text ++ after)

variable {α : Type} {shape : α → List Char → Prop} {element : List Char → Option (α × List Char)}
  {close : Char} {s text rest : List Char}

/-! ## What is read -/

/-- What an element reader takes is an element after blanks. -/
def Sound (shape : α → List Char → Prop) (element : List Char → Option (α × List Char)) : Prop :=
  ∀ s a rest, element s = some (a, rest) → ∃ blanks text, Blanks blanks ∧ shape a text ∧
    s = blanks ++ (text ++ rest)

theorem elements?_sound (h : Sound shape element) {fuel : Nat} {read as : List α}
    (hread : elements? close element fuel read s = some (as, rest)) :
    ∃ new text, as = read.reverse ++ new ∧ Separated shape new text ∧
      s = text ++ close :: rest := by
  induction fuel generalizing read s with
  | zero => cases hread
  | succ fuel ih =>
    rw [elements?] at hread
    split at hread
    · cases hread
    · rename_i a after ha
      obtain ⟨before, text, hbefore, htext, rfl⟩ := h _ _ _ ha
      obtain ⟨blanks, hblanks, hafter⟩ := blanks_skipped after
      split at hread
      · cases hread
      · rename_i c more hc
        rw [hc] at hafter
        subst hafter
        split_ifs at hread with hcomma hclose
        · subst hcomma
          obtain ⟨new, texts, rfl, hnew, rfl⟩ := ih hread
          refine ⟨a :: new, _, ?_, .more hbefore htext hblanks hnew, ?_⟩
          · rw [List.reverse_cons, List.append_assoc]
            rfl
          · simp only [List.append_assoc, List.cons_append]
        · subst hclose
          cases hread
          refine ⟨[a], _, List.reverse_cons, .last hbefore htext hblanks, ?_⟩
          simp only [List.append_assoc]

theorem Separated.blanks {blanks : List Char} {as : List α} (hblanks : Blanks blanks)
    (h : Separated shape as text) : Separated shape as (blanks ++ text) := by
  have happend {before : List Char} (hbefore : Blanks before) : Blanks (blanks ++ before) :=
    fun c hc => (List.mem_append.mp hc).elim (hblanks c) (hbefore c)
  cases h with
  | last hbefore h hafter =>
    rw [← List.append_assoc, ← List.append_assoc]
    exact .last (happend hbefore) h hafter
  | more hbefore h hafter rest =>
    rw [← List.append_assoc, ← List.append_assoc, ← List.append_assoc]
    exact .more (happend hbefore) h hafter rest

/-- The same for a list that starts after a bracket, where the reader has looked past blanks. -/
theorem elements?_skipBlank_sound (h : Sound shape element) {fuel : Nat} {as : List α}
    (hread : elements? close element fuel [] (skipBlank s) = some (as, rest)) :
    ∃ text, Separated shape as text ∧ s = text ++ close :: rest := by
  obtain ⟨blanks, hblanks, hs⟩ := blanks_skipped s
  obtain ⟨as, text, rfl, has, htext⟩ := elements?_sound h hread
  refine ⟨_, has.blanks hblanks, ?_⟩
  rw [hs, htext, List.append_assoc]

theorem field?_sound {value : List Char → Option (Value × List Char)}
    {shape : Value → List Char → Prop} (h : Sound shape value) :
    Sound (WritesField shape) (field? value) := by
  intro s field rest hread
  obtain ⟨blanks, hblanks, hs⟩ := blanks_skipped s
  unfold field? at hread
  split at hread
  · rename_i inner hinner
    rw [hinner] at hs
    split at hread
    · cases hread
    · rename_i key after hkey
      obtain ⟨keyText, hkeyText, rfl⟩ := stringBody?_iff.mp hkey
      obtain ⟨before, hbefore, hafter⟩ := blanks_skipped after
      split at hread
      · rename_i more hmore
        rw [hmore] at hafter
        obtain ⟨⟨v, left⟩, hv, heq⟩ := Option.map_eq_some_iff.mp hread
        cases heq
        obtain ⟨between, text, hbetween, htext, rfl⟩ := h _ _ _ hv
        refine ⟨blanks, _, hblanks, .intro hkeyText hbefore hbetween htext, ?_⟩
        rw [hs, hafter]
        simp only [List.append_assoc, List.cons_append]
      · cases hread
  · cases hread

theorem value?_sound (fuel : Nat) : Sound Writes (value? fuel) := by
  induction fuel with
  | zero => exact nofun
  | succ fuel ih =>
    intro s v rest hread
    obtain ⟨blanks, hblanks, hs⟩ := blanks_skipped s
    -- each way to read a value is a way to write one, by what comes after the blanks
    suffices h : ∃ text, Writes v text ∧ skipBlank s = text ++ rest by
      obtain ⟨text, hv, htext⟩ := h
      exact ⟨blanks, text, hblanks, hv, htext ▸ hs⟩
    rw [value?] at hread
    split at hread
    · rename_i h
      cases hread
      exact ⟨_, .null, h⟩
    · rename_i h
      cases hread
      exact ⟨_, .true, h⟩
    · rename_i h
      cases hread
      exact ⟨_, .false, h⟩
    · rename_i h
      obtain ⟨⟨pieces, after⟩, hpieces, heq⟩ := Option.map_eq_some_iff.mp hread
      cases heq
      obtain ⟨text, htext, rfl⟩ := stringBody?_iff.mp hpieces
      refine ⟨_, .string htext, h.trans ?_⟩
      simp only [List.append_assoc, List.cons_append, List.nil_append]
    · rename_i inner h
      split at hread
      · rename_i hclose
        obtain ⟨before, hbefore, hinner⟩ := blanks_skipped inner
        cases hread
        refine ⟨_, .empty hbefore, h.trans ?_⟩
        rw [hinner, hclose]
        simp only [List.append_assoc, List.cons_append, List.nil_append]
      · obtain ⟨⟨vs, after⟩, hvs, heq⟩ := Option.map_eq_some_iff.mp hread
        cases heq
        obtain ⟨text, htext, rfl⟩ := elements?_skipBlank_sound ih hvs
        refine ⟨_, .array htext, h.trans ?_⟩
        simp only [List.append_assoc, List.cons_append, List.nil_append]
    · rename_i inner h
      split at hread
      · rename_i hclose
        obtain ⟨before, hbefore, hinner⟩ := blanks_skipped inner
        cases hread
        refine ⟨_, .noFields hbefore, h.trans ?_⟩
        rw [hinner, hclose]
        simp only [List.append_assoc, List.cons_append, List.nil_append]
      · obtain ⟨⟨fields, after⟩, hfields, heq⟩ := Option.map_eq_some_iff.mp hread
        cases heq
        obtain ⟨text, htext, rfl⟩ := elements?_skipBlank_sound (field?_sound ih) hfields
        refine ⟨_, .object htext, h.trans ?_⟩
        simp only [List.append_assoc, List.cons_append, List.nil_append]
    · rename_i h
      obtain ⟨n, text, rfl, hsign, htext, rfl⟩ := unsigned?_sound hread
      exact ⟨_, .negative hsign htext, h⟩
    · obtain ⟨n, text, rfl, hsign, htext, hs⟩ := unsigned?_sound hread
      exact ⟨_, .positive hsign htext, hs⟩

/-! ## What can be read -/

/-- A text that starts with no blank and closes nothing. -/
def Starts (text : List Char) : Prop :=
  ∃ c tail, text = c :: tail ∧ ¬ Blank c ∧ c ≠ ']' ∧ c ≠ '\x7d'

/-- An element reader takes all of an element of bounded length, when a number may end there. -/
def Complete (bound : Nat) (shape : α → List Char → Prop)
    (element : List Char → Option (α × List Char)) : Prop :=
  ∀ a text blanks rest, shape a text → text.length < bound → Blanks blanks → NumberEnds rest →
    element (blanks ++ (text ++ rest)) = some (a, rest)

theorem skipBlank_starts {blanks : List Char} (hblanks : Blanks blanks) (h : Starts text) :
    skipBlank (blanks ++ (text ++ rest)) = text ++ rest := by
  obtain ⟨c, tail, rfl, hc, -⟩ := h
  rw [skipBlank_append hblanks, List.cons_append, skipBlank_cons hc]

theorem NumberEnds.blanks {blanks : List Char} (h : Blanks blanks) (hrest : NumberEnds rest) :
    NumberEnds (blanks ++ rest) := by
  cases blanks with
  | nil => exact hrest
  | cons b blanks =>
    rintro _ ⟨⟩
    rcases h b List.mem_cons_self with rfl | rfl | rfl | rfl <;> decide

theorem elements?_complete {bound fuel : Nat} {as : List α} (h : Complete bound shape element)
    (hclose : close = ']' ∨ close = '\x7d') (has : Separated shape as text)
    (hbound : text.length < bound) (hfuel : text.length < fuel) (read : List α) :
    elements? close element fuel read (text ++ close :: rest) =
      some (read.reverse ++ as, rest) := by
  have hends : NumberEnds (close :: rest) := by
    rintro _ ⟨⟩
    rcases hclose with rfl | rfl <;> decide
  have hcomma : close ≠ ',' := by rcases hclose with rfl | rfl <;> decide
  have hblank : ¬ Blank close := by unfold Blank; rcases hclose with rfl | rfl <;> decide
  induction has generalizing fuel read with
  | @last a before text after hbefore ha hafter =>
    obtain ⟨fuel, rfl⟩ := Nat.exists_eq_succ_of_ne_zero (Nat.ne_zero_of_lt hfuel)
    simp only [List.length_append] at hbound
    have hread := h a text before (after ++ close :: rest) ha (by omega) hbefore
      (.blanks hafter hends)
    rw [List.append_assoc, List.append_assoc, elements?, hread]
    simp only [skipBlank_append hafter, skipBlank_cons hblank, if_neg hcomma, if_true,
      List.reverse_cons]
  | @more a as before text after texts hbefore ha hafter hrest ih =>
    obtain ⟨fuel, rfl⟩ := Nat.exists_eq_succ_of_ne_zero (Nat.ne_zero_of_lt hfuel)
    simp only [List.length_append, List.length_cons] at hbound hfuel
    have hcomma : NumberEnds (',' :: (texts ++ close :: rest)) := by rintro _ ⟨⟩; decide
    have hread := h a text before (after ++ ',' :: (texts ++ close :: rest)) ha (by omega) hbefore
      (.blanks hafter hcomma)
    have hnext : ¬ Blank ',' := by unfold Blank; decide
    have hassoc : before ++ text ++ after ++ ',' :: texts ++ close :: rest =
        before ++ (text ++ (after ++ ',' :: (texts ++ close :: rest))) := by
      simp only [List.append_assoc, List.cons_append]
    rw [hassoc, elements?, hread]
    simp only [skipBlank_append hafter, skipBlank_cons hnext, if_true]
    rw [ih (by omega) (by omega), List.reverse_cons, List.append_assoc]
    rfl

/-- A list can do without the blanks before it, which a reader skips after a bracket. -/
theorem Separated.starts {as : List α} (hstarts : ∀ a text, shape a text → Starts text)
    (h : Separated shape as text) : ∃ trimmed, Separated shape as trimmed ∧ Starts trimmed ∧
      trimmed.length ≤ text.length ∧ ∀ rest, skipBlank (text ++ rest) = trimmed ++ rest := by
  have happend {s : List Char} (h : Starts s) (t : List Char) : Starts (s ++ t) := by
    obtain ⟨c, tail, rfl, hc⟩ := h
    exact ⟨c, tail ++ t, rfl, hc⟩
  have hnone : Blanks [] := nofun
  cases h with
  | @last a before text after hbefore h hafter =>
    refine ⟨_, .last hnone h hafter, happend (hstarts a text h) after, ?_, fun rest => ?_⟩
    · simp only [List.length_append, List.length_nil]
      omega
    · simp only [List.append_assoc]
      rw [skipBlank_starts hbefore (hstarts a text h)]
      rfl
  | @more a as before text after texts hbefore h hafter rest =>
    refine ⟨_, .more hnone h hafter rest, happend (happend (hstarts a text h) _) _, ?_,
      fun rest => ?_⟩
    · simp only [List.length_append, List.length_nil]
      omega
    · simp only [List.append_assoc, List.cons_append]
      rw [skipBlank_starts hbefore (hstarts a text h)]
      rfl

/-- The same for a list after a bracket, where the reader looks past blanks for the closing one. -/
theorem elements?_skipBlank_complete {fuel : Nat} {as : List α} (h : Complete fuel shape element)
    (hstarts : ∀ a text, shape a text → Starts text) (hclose : close = ']' ∨ close = '\x7d')
    (has : Separated shape as text) (hfuel : text.length < fuel) (rest : List Char) :
    ∃ c tail, skipBlank (text ++ close :: rest) = c :: tail ∧ c ≠ ']' ∧ c ≠ '\x7d' ∧
      elements? close element fuel [] (c :: tail) = some (as, rest) := by
  obtain ⟨trimmed, htrimmed, ⟨c, tail, rfl, -, hc⟩, hlength, hskip⟩ := has.starts hstarts
  have hbound := Nat.lt_of_le_of_lt hlength hfuel
  exact ⟨c, tail ++ close :: rest, hskip _, hc.1, hc.2,
    elements?_complete h hclose htrimmed hbound hbound []⟩

theorem field?_complete {bound : Nat} {value : List Char → Option (Value × List Char)}
    {shape : Value → List Char → Prop} (h : Complete bound shape value) :
    Complete bound (WritesField shape) (field? value) := by
  intro _ _ blanks rest hfield hbound hblanks hrest
  cases hfield with
  | @intro key v keyText before after text hkey hbefore hafter hv =>
    have hquote : ¬ Blank '"' := by unfold Blank; decide
    have hcolon : ¬ Blank ':' := by unfold Blank; decide
    simp only [List.length_append, List.length_cons] at hbound
    have hread := h v text after rest hv (by omega) hafter hrest
    have hkey : stringBody? [] (keyText ++ '"' :: (before ++ ':' :: (after ++ (text ++ rest)))) =
        some (key, before ++ ':' :: (after ++ (text ++ rest))) :=
      stringBody?_iff.mpr ⟨keyText, hkey, rfl⟩
    simp only [List.append_assoc, List.cons_append]
    unfold field?
    simp only [skipBlank_append hblanks, skipBlank_cons hquote, hkey, skipBlank_append hbefore,
      skipBlank_cons hcolon, hread, Option.map_some]

theorem not_blank_of_isDigit {c : Char} (h : isDigit c = true) : ¬ Blank c := by
  rintro (rfl | rfl | rfl | rfl) <;> exact absurd h (by decide)

theorem WritesWhole.head {digits : List Nat} (h : WritesWhole digits text) :
    ∃ c tail, text = c :: tail ∧ isDigit c = true := by
  cases h with
  | zero => exact ⟨'0', [], rfl, rfl⟩
  | digits h => exact h.head

theorem WritesUnsigned.head {n : Numeral} (h : WritesUnsigned n text) :
    ∃ c tail, text = c :: tail ∧ isDigit c = true := by
  obtain ⟨hwhole, -, -⟩ := h
  obtain ⟨c, tail, rfl, hc⟩ := hwhole.head
  exact ⟨c, _, rfl, hc⟩

theorem Writes.starts {v : Value} (h : Writes v text) : Starts text := by
  have hplain {c : Char} {tail : List Char}
      (hc : c ∈ ['n', 't', 'f', '-', '"', '[', '\x7b']) : Starts (c :: tail) := by
    simp only [List.mem_cons, List.not_mem_nil, or_false] at hc
    rcases hc with rfl | rfl | rfl | rfl | rfl | rfl | rfl <;>
      exact ⟨_, tail, rfl, by unfold Blank; decide⟩
  cases h with
  | positive hsign h =>
    obtain ⟨c, tail, rfl, hc⟩ := h.head
    refine ⟨c, tail, rfl, not_blank_of_isDigit hc, ?_, ?_⟩ <;> rintro rfl <;>
      exact absurd hc (by decide)
  | _ => exact hplain (by decide)

theorem WritesField.starts {value : Value → List Char → Prop} {field : List Piece × Value}
    (h : WritesField value field text) : Starts text := by
  cases h
  exact ⟨'"', _, rfl, by unfold Blank; decide⟩

/-- What starts with a digit can only be a number. -/
theorem value?_digit {fuel : Nat} {c : Char} (hc : isDigit c = true)
    (hskip : skipBlank s = c :: rest) : value? (fuel + 1) s = unsigned? false (c :: rest) := by
  have hne {c' : Char} {tail : List Char} (h : c :: rest = c' :: tail) : isDigit c' = true :=
    (List.cons.inj h).1 ▸ hc
  unfold value?
  rw [hskip]
  split
  case h_8 => rfl
  all_goals
    rename_i h
    exact absurd (hne h) (by decide)

theorem value?_array {fuel : Nat} {inner : List Char} (hskip : skipBlank s = '[' :: inner) :
    value? (fuel + 1) s = match skipBlank inner with
      | ']' :: rest => some (.array [], rest)
      | rest => (elements? ']' (value? fuel) fuel [] rest).map fun (vs, rest) =>
        (.array vs, rest) := by
  rw [value?, hskip]
  rfl

theorem value?_object {fuel : Nat} {inner : List Char} (hskip : skipBlank s = '\x7b' :: inner) :
    value? (fuel + 1) s = match skipBlank inner with
      | '\x7d' :: rest => some (.object [], rest)
      | rest => (elements? '\x7d' (field? (value? fuel)) fuel [] rest).map fun (fs, rest) =>
        (.object fs, rest) := by
  rw [value?, hskip]
  rfl

theorem value?_complete (fuel : Nat) : Complete fuel Writes (value? fuel) := by
  induction fuel with
  | zero => exact fun _ _ _ _ _ hbound => absurd hbound (Nat.not_lt_zero _)
  | succ fuel ih =>
    intro v text blanks rest hv hbound hblanks hrest
    have hskip : skipBlank (blanks ++ (text ++ rest)) = text ++ rest :=
      skipBlank_starts hblanks hv.starts
    -- what stands between brackets is shorter than the fuel that is left for it
    cases hv with
    | null => rw [value?, hskip]; rfl
    | true => rw [value?, hskip]; rfl
    | false => rw [value?, hskip]; rfl
    | @positive n text hsign h =>
      have hread := unsigned?_complete h hrest
      obtain ⟨c, tail, rfl, hc⟩ := h.head
      rw [value?_digit hc hskip, ← hsign]
      exact hread
    | negative hsign h =>
      have hread := unsigned?_complete h hrest
      rw [hsign] at hread
      rw [value?, hskip]
      exact hread
    | @string pieces text h =>
      rw [value?, hskip]
      show (stringBody? [] (text ++ ['"'] ++ rest)).map _ = _
      rw [List.append_assoc, List.singleton_append, stringBody?_iff.mpr ⟨text, h, rfl⟩]
      rfl
    | @empty inner h =>
      have hclose : ¬ Blank ']' := by unfold Blank; decide
      simp only [List.cons_append, List.append_assoc, List.nil_append] at hskip ⊢
      rw [value?_array hskip, skipBlank_append h, skipBlank_cons hclose]
      rfl
    | @array vs inner h =>
      simp only [List.length_cons, List.length_append] at hbound
      obtain ⟨c, tail, hinner, hc, -, hread⟩ := elements?_skipBlank_complete ih
        (fun _ _ => Writes.starts) (.inl rfl) h (by omega) rest
      simp only [List.cons_append, List.append_assoc, List.nil_append] at hskip ⊢
      rw [value?_array hskip, hinner]
      split
      · rename_i heq
        exact absurd (List.cons.inj heq).1 hc
      · rw [hread]
        rfl
    | @noFields inner h =>
      have hclose : ¬ Blank '\x7d' := by unfold Blank; decide
      simp only [List.cons_append, List.append_assoc, List.nil_append] at hskip ⊢
      rw [value?_object hskip, skipBlank_append h, skipBlank_cons hclose]
      rfl
    | @object fields inner h =>
      simp only [List.length_cons, List.length_append] at hbound
      obtain ⟨c, tail, hinner, -, hc, hread⟩ := elements?_skipBlank_complete (field?_complete ih)
        (fun _ _ => WritesField.starts) (.inr rfl) h (by omega) rest
      simp only [List.cons_append, List.append_assoc, List.nil_append] at hskip ⊢
      rw [value?_object hskip, hinner]
      split
      · rename_i heq
        exact absurd (List.cons.inj heq).1 hc
      · rw [hread]
        rfl

/-! ## Whole texts -/

/-- A text is read as a value exactly when it is the text of that value. -/
theorem parse?_eq_some {octets : List Char} {v : Value} :
    parse? octets = some v ↔ IsJson octets v := by
  unfold parse? IsJson
  constructor
  · intro h
    split at h
    · rename_i v' rest hread
      split_ifs at h with hempty
      obtain rfl := Option.some.inj h
      obtain ⟨before, text, hbefore, htext, hoctets⟩ := value?_sound _ _ _ _ hread
      obtain ⟨after, hafter, hrest⟩ := blanks_skipped rest
      rw [List.isEmpty_iff.mp hempty, List.append_nil] at hrest
      exact ⟨before, text, after, hbefore, htext, hafter, hrest ▸ hoctets⟩
    · cases h
  · rintro ⟨before, text, after, hbefore, htext, hafter, rfl⟩
    have hends : NumberEnds after := by
      rw [← List.append_nil after]
      exact .blanks hafter nofun
    have hbound : text.length < (before ++ (text ++ after)).length + 1 := by
      simp only [List.length_append]
      omega
    have hempty : skipBlank after = [] := by
      rw [← List.append_nil after, skipBlank_append hafter]
      rfl
    rw [value?_complete _ v text before after htext hbound hbefore hends]
    simp only [hempty, List.isEmpty_nil, if_true]

/-- A text writes at most one value. -/
theorem Writes.unique {v v' : Value} (h : Writes v text) (h' : Writes v' text) : v = v' := by
  have hparse {v : Value} (h : Writes v text) : parse? text = some v :=
    parse?_eq_some.mpr ⟨[], text, [], nofun, h, nofun, (List.append_nil text).symm⟩
  exact Option.some.inj ((hparse h).symm.trans (hparse h'))

end JourneyPlanner.Json
