import JourneyPlanner.Json.Record
import JourneyPlanner.Proofs.Failures

/-!
# Shapes of values

Which text a string spells, with its escapes (`Spells`), and what a value has to be like to be taken
as a text, a number, a list or a record, said without a reader. Each reader takes exactly the values
of its shape (`Reader.Takes`): nothing is taken that has another shape, and nothing that has the
shape is refused or taken as something else.
-/

namespace JourneyPlanner.Json

open JourneyPlanner.Text

/-! ## Texts of strings -/

/-- A unit that stands for nothing but the first or the second half of a code point. -/
def IsHalf (n : Nat) : Prop := 0xd800 ≤ n ∧ n ≤ 0xdfff

/-- The octets that the pieces of a string stand for. Two halves stand for one code point. -/
inductive Decodes : List Piece → List Char → Prop
  | nil : Decodes [] []
  | octet (c : Char) {pieces : List Piece} {octets : List Char} (rest : Decodes pieces octets) :
    Decodes (.octet c :: pieces) (c :: octets)
  | unit {n : Nat} (whole : ¬ IsHalf n) {pieces : List Piece} {octets : List Char}
    (rest : Decodes pieces octets) : Decodes (.unit n :: pieces) (codePoint n ++ octets)
  | pair {high low : Nat} (first : 0xd800 ≤ high ∧ high ≤ 0xdbff)
    (second : 0xdc00 ≤ low ∧ low ≤ 0xdfff) {pieces : List Piece} {octets : List Char}
    (rest : Decodes pieces octets) : Decodes (.unit high :: .unit low :: pieces)
      (codePoint (0x10000 + (high - 0xd800) * 0x400 + (low - 0xdc00)) ++ octets)

theorem isHalf_iff {n : Nat} : (0xd800 ≤ n && n ≤ 0xdfff) = true ↔ IsHalf n := by
  rw [Bool.and_eq_true, decide_eq_true_eq, decide_eq_true_eq]
  exact Iff.rfl

/-- A unit that is no half stands for a code point, whatever comes after it. -/
theorem octets?_unit {n : Nat} (h : ¬ IsHalf n) (rest : List Piece) :
    octets? (.unit n :: rest) = (octets? rest).map (codePoint n ++ ·) := by
  unfold IsHalf at h
  have hhigh : ¬ (0xd800 ≤ n && n ≤ 0xdbff) = true := by
    rw [Bool.and_eq_true, decide_eq_true_eq, decide_eq_true_eq]
    omega
  have hlow : ¬ (0xdc00 ≤ n && n ≤ 0xdfff) = true := by
    rw [Bool.and_eq_true, decide_eq_true_eq, decide_eq_true_eq]
    omega
  rcases rest with - | ⟨c | low, rest⟩
  · exact if_neg (mt isHalf_iff.mp h)
  · exact if_neg (mt isHalf_iff.mp h)
  · rw [octets?, if_neg hhigh, if_neg hlow]

theorem octets?_eq_some {pieces : List Piece} {octets : List Char} :
    octets? pieces = some octets ↔ Decodes pieces octets := by
  constructor
  · intro h
    fun_induction octets? pieces generalizing octets with
    | case1 =>
      cases h
      exact .nil
    | case2 c rest ih =>
      obtain ⟨octets, hrest, rfl⟩ := Option.map_eq_some_iff.mp h
      exact .octet c (ih hrest)
    | case3 high low rest hhigh hlow ih =>
      obtain ⟨octets, hrest, rfl⟩ := Option.map_eq_some_iff.mp h
      rw [Bool.and_eq_true, decide_eq_true_eq, decide_eq_true_eq] at hhigh hlow
      exact .pair hhigh hlow (ih hrest)
    | case4 => cases h
    | case5 => cases h
    | case6 high low rest hhigh hlow ih =>
      obtain ⟨octets, hrest, rfl⟩ := Option.map_eq_some_iff.mp h
      rw [Bool.and_eq_true, decide_eq_true_eq, decide_eq_true_eq] at hhigh hlow
      refine .unit ?_ (ih hrest)
      unfold IsHalf
      omega
    | case7 => cases h
    | case8 n rest hne hhalf ih =>
      obtain ⟨octets, hrest, rfl⟩ := Option.map_eq_some_iff.mp h
      exact .unit (mt isHalf_iff.mpr hhalf) (ih hrest)
  · intro h
    induction h with
    | nil => rfl
    | octet c rest ih => rw [octets?, ih]; rfl
    | unit whole rest ih => rw [octets?_unit whole, ih]; rfl
    | pair first second rest ih =>
      have hfirst := decide_eq_true first
      have hsecond := decide_eq_true second
      rw [Bool.decide_and] at hfirst hsecond
      rw [octets?, if_pos hfirst, if_pos hsecond, ih]
      rfl

/-- A string spells a text: what it stands for is the text in UTF-8. -/
def Spells (pieces : List Piece) (s : String) : Prop :=
  ∃ octets, Decodes pieces octets ∧ ofUtf8? octets = some s

theorem text?_eq_some {pieces : List Piece} {s : String} :
    text? pieces = some s ↔ Spells pieces s := by
  unfold text? Spells
  simp only [Option.bind_eq_some_iff, octets?_eq_some]

/-! ## Shapes -/

/-- What a value that is taken as an `α` has to be like. -/
abbrev Shape (α : Type) := Value → α → Prop

/-- A reader takes the values of a shape, and no others. -/
def Reader.Takes {α : Type} (reader : Reader α) (shape : Shape α) : Prop :=
  ∀ v a, reader v = some a ↔ shape v a

/-- A string with a text. -/
inductive IsText : Shape String
  | intro {pieces : List Piece} {s : String} (h : Spells pieces s) : IsText (.string pieces) s

/-- A number that a double can hold. -/
inductive IsNumber : Shape Float
  | intro {n : Decimal.Numeral} {x : Float} (h : float? n = some x) : IsNumber (.number n) x

/-- An array each item of which has a shape. -/
inductive IsList {α : Type} (shape : Shape α) : Shape (List α)
  | intro {vs : List Value} {as : List α} (h : List.Forall₂ shape vs as) :
    IsList shape (.array vs) as

/-- A value gives the fields of a record. It is an object whose keys are texts, where the known
names do not come twice, or an array of the values in the order of the names, some of which may be
left out at the end. -/
inductive IsRecord (names : List String) : Value → Bool → (String → Option Value) → Prop
  | named {fields : List (List Piece × Value)} {decoded : List (String × Value)}
    {given : String → Option Value}
    (keys : List.Forall₂ (fun f d => Spells f.1 d.1 ∧ f.2 = d.2) fields decoded)
    (once : ((decoded.map Prod.fst).filter (· ∈ names)).Nodup)
    (given_iff : ∀ name v, given name = some v ↔ name ∈ names ∧ (name, v) ∈ decoded) :
    IsRecord names (.object fields) false given
  | listed {values : List Value} {given : String → Option Value}
    (few : values.length ≤ names.length)
    (given_iff : ∀ name v, given name = some v ↔ (name, v) ∈ names.zip values) :
    IsRecord names (.array values) true given

/-- A field that has to be there. -/
inductive Required {α : Type} (shape : Shape α) : Option Value → α → Prop
  | given {v : Value} {a : α} (h : shape v a) : Required shape (some v) a

/-- A field that stands for a default when it is not there. -/
inductive Defaulted {α : Type} (shape : Shape α) (default : α) : Option Value → α → Prop
  | given {v : Value} {a : α} (h : shape v a) : Defaulted shape default (some v) a
  | missing : Defaulted shape default none default

/-- A field that may be null, or not there unless the fields are listed. -/
inductive Nullable {α : Type} (shape : Shape α) (byPosition : Bool) :
    Option Value → Option α → Prop
  | given {v : Value} {a : α} (some_value : v ≠ .null) (h : shape v a) :
    Nullable shape byPosition (some v) (some a)
  | null : Nullable shape byPosition (some .null) none
  | missing (named : byPosition = false) : Nullable shape byPosition none none

/-! ## What readers take -/

theorem asText_takes : Reader.Takes asText IsText := by
  intro v s
  constructor
  · intro h
    unfold asText at h
    split at h
    · exact .intro (text?_eq_some.mp h)
    · cases h
  · rintro ⟨h⟩
    exact text?_eq_some.mpr h

theorem asFloat_takes : Reader.Takes asFloat IsNumber := by
  intro v x
  constructor
  · intro h
    unfold asFloat at h
    split at h
    · exact .intro h
    · cases h
  · rintro ⟨h⟩
    exact h

variable {α : Type} {reader : Reader α} {shape : Shape α} {names : List String} {v : Value}
  {r : Record} {name : String}

theorem asList_takes (hr : reader.Takes shape) : Reader.Takes (asList reader) (IsList shape) := by
  intro v as
  constructor
  · intro h
    unfold asList at h
    split at h
    · exact .intro ((mapM_eq_some_iff.mp h).imp fun v a => (hr v a).mp)
    · cases h
  · rintro ⟨h⟩
    exact mapM_eq_some_iff.mpr (h.imp fun v a => (hr v a).mpr)

/-! ## Records -/

theorem lookup_eq_some_iff_mem {l : List (String × Value)} (h : (l.map Prod.fst).Nodup) :
    l.lookup name = some v ↔ (name, v) ∈ l := by
  induction l with
  | nil => exact ⟨nofun, nofun⟩
  | cons first l ih =>
    obtain ⟨hfirst, hl⟩ := List.nodup_cons.mp h
    rw [List.lookup_cons, List.mem_cons]
    by_cases hname : name = first.1
    · subst hname
      rw [beq_self_eq_true]
      show some first.2 = some v ↔ _
      rw [Option.some.injEq]
      refine ⟨fun h => .inl (h ▸ rfl), fun h => h.elim (fun h => congrArg Prod.snd h.symm) ?_⟩
      exact fun h => absurd (List.mem_map.mpr ⟨_, h, rfl⟩) hfirst
    · rw [beq_eq_false_iff_ne.mpr hname]
      show l.lookup name = some v ↔ _
      rw [ih hl]
      exact ⟨.inr, fun h => h.elim (fun h => absurd (congrArg Prod.fst h) hname) id⟩

theorem isSome_lookup_filter {decoded : List (String × Value)} :
    ((decoded.filter (·.1 ∈ names)).lookup name).isSome = true ↔
      name ∈ (decoded.map Prod.fst).filter (· ∈ names) := by
  rw [← not_iff_not, Bool.not_eq_true, Option.isSome_eq_false_iff, Option.isNone_iff_eq_none,
    List.lookup_eq_none_iff, List.filter_map, List.mem_map]
  simp only [bne_iff_ne, not_exists, not_and]
  exact ⟨fun h d hd heq => h d hd heq.symm, fun h d hd heq => h d hd heq.symm⟩

theorem namedFields?_iff {fields : List (List Piece × Value)} {found : List (String × Value)} :
    namedFields? names fields = some found ↔ ∃ decoded,
      List.Forall₂ (fun f d => Spells f.1 d.1 ∧ f.2 = d.2) fields decoded ∧
        ((decoded.map Prod.fst).filter (· ∈ names)).Nodup ∧
        decoded.filter (·.1 ∈ names) = found := by
  induction fields generalizing found with
  | nil =>
    constructor
    · intro h
      exact ⟨[], .nil, List.nodup_nil, Option.some.inj h⟩
    · rintro ⟨decoded, hkeys, -, rfl⟩
      cases hkeys
      rfl
  | cons f rest ih =>
    obtain ⟨key, v⟩ := f
    constructor
    · intro h
      unfold namedFields? at h
      split at h
      · rename_i name later hname hlater
        obtain ⟨decoded, hkeys, honce, rfl⟩ := ih.mp hlater
        refine ⟨(name, v) :: decoded, .cons ⟨text?_eq_some.mp hname, rfl⟩ hkeys, ?_⟩
        rw [List.map_cons, List.filter_cons, List.filter_cons]
        by_cases hknown : name ∈ names
        · rw [if_pos hknown] at h
          rw [if_pos (decide_eq_true hknown), if_pos (decide_eq_true hknown), List.nodup_cons]
          split_ifs at h with htwice
          exact ⟨⟨fun hmem => htwice (isSome_lookup_filter.mpr hmem), honce⟩, Option.some.inj h⟩
        · rw [if_neg hknown] at h
          rw [if_neg (by simpa using hknown), if_neg (by simpa using hknown)]
          exact ⟨honce, Option.some.inj h⟩
      · cases h
    · rintro ⟨decoded, hkeys, honce, rfl⟩
      cases hkeys with
      | @cons _ d _ later hd hkeys =>
        obtain ⟨hname, rfl⟩ := hd
        rw [List.map_cons, List.filter_cons] at honce
        rw [List.filter_cons]
        unfold namedFields?
        by_cases hknown : d.1 ∈ names
        · rw [if_pos (decide_eq_true hknown), List.nodup_cons] at honce
          rw [text?_eq_some.mpr hname, ih.mpr ⟨later, hkeys, honce.2, rfl⟩]
          simp only [if_pos hknown, if_pos (decide_eq_true hknown)]
          rw [if_neg fun htwice => honce.1 (isSome_lookup_filter.mp htwice)]
        · rw [if_neg (by simpa using hknown)] at honce
          rw [text?_eq_some.mpr hname, ih.mpr ⟨later, hkeys, honce, rfl⟩]
          simp only [if_neg hknown]
          rw [if_neg (by simpa using hknown)]

theorem nodup_zip (hn : names.Nodup) (values : List Value) :
    ((names.zip values).map Prod.fst).Nodup := by
  rw [List.zip_eq_zip_take_min, List.map_fst_zip (by simp)]
  exact hn.sublist (List.take_sublist ..)

/-- A value gives the fields that are read from it. -/
theorem isRecord_iff (hn : names.Nodup) {byPosition : Bool} {given : String → Option Value} :
    IsRecord names v byPosition given ↔ ∃ r, Record.read? names v = some r ∧
      r.byPosition = byPosition ∧ (fun name => r.fields.lookup name) = given := by
  have hknown {decoded : List (String × Value)}
      (honce : ((decoded.map Prod.fst).filter (· ∈ names)).Nodup) (name : String) (v : Value) :
      (decoded.filter (·.1 ∈ names)).lookup name = some v ↔
        name ∈ names ∧ (name, v) ∈ decoded := by
    have honce : ((decoded.filter (·.1 ∈ names)).map Prod.fst).Nodup := by
      rwa [List.filter_map] at honce
    rw [lookup_eq_some_iff_mem honce, List.mem_filter, decide_eq_true_eq, and_comm]
  have hlisted (values : List Value) (name : String) (v : Value) :
      (names.zip values).lookup name = some v ↔ (name, v) ∈ names.zip values :=
    lookup_eq_some_iff_mem (nodup_zip hn values)
  constructor
  · rintro (⟨hkeys, honce, hgiven⟩ | ⟨hfew, hgiven⟩)
    · rename_i fields decoded
      have hfound := namedFields?_iff.mpr ⟨decoded, hkeys, honce, rfl⟩
      refine ⟨⟨false, decoded.filter (·.1 ∈ names)⟩, ?_, rfl, funext fun name => Option.ext fun v =>
        (hknown honce name v).trans (hgiven name v).symm⟩
      exact congrArg (Option.map fun fields => (⟨false, fields⟩ : Record)) hfound
    · rename_i values
      exact ⟨⟨true, names.zip values⟩, if_pos hfew, rfl, funext fun name => Option.ext fun v =>
        (hlisted values name v).trans (hgiven name v).symm⟩
  · rintro ⟨r, hr, rfl, rfl⟩
    unfold Record.read? at hr
    split at hr
    · obtain ⟨found, hfound, rfl⟩ := Option.map_eq_some_iff.mp hr
      obtain ⟨decoded, hkeys, honce, rfl⟩ := namedFields?_iff.mp hfound
      exact .named hkeys honce (hknown honce)
    · split_ifs at hr with hfew
      obtain rfl := Option.some.inj hr
      exact .listed hfew (hlisted _)
    · cases hr

theorem Record.required_iff (hr : reader.Takes shape) {a : α} :
    r.required name reader = some a ↔ Required shape (r.fields.lookup name) a := by
  unfold required
  cases r.fields.lookup name with
  | none => exact ⟨nofun, nofun⟩
  | some v => exact (hr v a).trans ⟨.given, fun ⟨h⟩ => h⟩

theorem Record.withDefault_iff (hr : reader.Takes shape) {default a : α} :
    r.withDefault name reader default = some a ↔
      Defaulted shape default (r.fields.lookup name) a := by
  unfold withDefault
  cases r.fields.lookup name with
  | none => exact ⟨fun h => Option.some.inj h ▸ .missing, fun h => by cases h; rfl⟩
  | some v => exact (hr v a).trans ⟨.given, fun h => by cases h; assumption⟩

theorem asOption_iff (hr : reader.Takes shape) {a? : Option α} :
    asOption reader v = some a? ↔
      v = .null ∧ a? = none ∨ v ≠ .null ∧ ∃ a, shape v a ∧ a? = some a := by
  unfold asOption
  split
  · exact ⟨fun h => .inl ⟨rfl, (Option.some.inj h).symm⟩,
      fun h => h.elim (fun h => congrArg some h.2.symm) fun h => absurd rfl h.1⟩
  · rename_i hne
    rw [Option.map_eq_some_iff]
    constructor
    · rintro ⟨a, ha, rfl⟩
      exact .inr ⟨hne, a, (hr _ _).mp ha, rfl⟩
    · rintro (⟨h, -⟩ | ⟨-, a, ha, rfl⟩)
      · exact absurd h hne
      · exact ⟨a, (hr _ _).mpr ha, rfl⟩

theorem Record.nullable_iff (hr : reader.Takes shape) {a? : Option α} :
    r.nullable name reader = some a? ↔
      Nullable shape r.byPosition (r.fields.lookup name) a? := by
  unfold nullable
  cases r.fields.lookup name with
  | none =>
    cases hp : r.byPosition with
    | true => exact ⟨nofun, fun h => by cases h; contradiction⟩
    | false => exact ⟨fun h => Option.some.inj h ▸ .missing rfl, fun h => by cases h; rfl⟩
  | some v =>
    refine (asOption_iff hr).trans ⟨?_, fun h => ?_⟩
    · rintro (⟨rfl, rfl⟩ | ⟨hne, a, ha, rfl⟩)
      · exact .null
      · exact .given hne ha
    · cases h with
      | given hne ha => exact .inr ⟨hne, _, ha, rfl⟩
      | null => exact .inl ⟨rfl, rfl⟩

/-- A reader of records takes what gives its fields. -/
theorem takes_record {β : Type} {names : List String} (hn : names.Nodup)
    {rest : Record → Option β} {shape : Bool → (String → Option Value) → β → Prop}
    (h : ∀ r b, rest r = some b ↔ shape r.byPosition (fun name => r.fields.lookup name) b) :
    Reader.Takes (fun v => (Record.read? names v).bind rest)
      fun v b => ∃ byPosition given, IsRecord names v byPosition given ∧
        shape byPosition given b := by
  intro v b
  simp only [Option.bind_eq_some_iff, isRecord_iff hn]
  constructor
  · rintro ⟨r, hr, hb⟩
    exact ⟨_, _, ⟨r, hr, rfl, rfl⟩, (h r b).mp hb⟩
  · rintro ⟨_, _, ⟨r, hr, rfl, rfl⟩, hb⟩
    exact ⟨r, hr, (h r b).mpr hb⟩

end JourneyPlanner.Json
