import Mathlib.Data.List.Induction
import Mathlib.Data.List.TakeWhile
import JourneyPlanner.Exposure.Threshold
import JourneyPlanner.Proofs.Text.Pieces

/-!
# Texts of thresholds

An entry is kept when it starts with one of six headings and goes on with a number
(`entry?_eq_formed?`), and the entries that are kept give a threshold for each kind, with the last
value for each limit (`foldl_merge`). The third word of a heading is not looked at: an entry that
says `MIN` there is kept like one that says `MAX` (`minimum_read_as_maximum`).
-/

namespace JourneyPlanner

namespace Decimal

open JourneyPlanner.Text

variable {cs : List Char}

/-! ## No number has an underscore -/

theorem underscore_mem_takeDigits (h : '_' ∈ cs) : '_' ∈ (takeDigits cs).2 := by
  rw [← List.takeWhile_append_dropWhile (p := isDigit) (l := cs)] at h
  rcases List.mem_append.mp h with h | h
  · exact absurd (List.mem_takeWhile_imp h) (by decide)
  · exact h

theorem underscore_mem_takeSign (h : '_' ∈ cs) : '_' ∈ (takeSign cs).2 := by
  unfold takeSign
  split
  · exact (List.mem_cons.mp h).resolve_left (by decide)
  · exact (List.mem_cons.mp h).resolve_left (by decide)
  · exact h

theorem readExponent?_of_underscore (h : '_' ∈ cs) : readExponent? cs = none := by
  cases cs with
  | nil => exact absurd h List.not_mem_nil
  | cons c rest =>
    rw [readExponent?]
    split_ifs with hc
    · have hrest : '_' ∈ rest := by
        refine (List.mem_cons.mp h).resolve_left ?_
        rintro rfl
        exact absurd hc (by decide)
      have hmem := underscore_mem_takeDigits (underscore_mem_takeSign hrest)
      generalize takeSign rest = signed at hmem ⊢
      obtain ⟨negative, digits⟩ := signed
      dsimp only at hmem ⊢
      generalize takeDigits digits = taken at hmem ⊢
      obtain ⟨digits, left⟩ := taken
      obtain ⟨c', left, rfl⟩ := List.exists_cons_of_ne_nil (List.ne_nil_of_mem hmem)
      cases digits <;> rfl
    · rfl

theorem readUnsigned?_of_underscore (negative : Bool) (h : '_' ∈ cs) :
    readUnsigned? negative cs = none := by
  have hrest := underscore_mem_takeDigits h
  unfold readUnsigned?
  generalize takeDigits cs = taken at hrest ⊢
  obtain ⟨whole, rest⟩ := taken
  dsimp only at hrest ⊢
  split
  · have hafter := underscore_mem_takeDigits ((List.mem_cons.mp hrest).resolve_left (by decide))
    dsimp only
    rw [readExponent?_of_underscore hafter, Option.map_none, ite_self]
  · dsimp only
    rw [readExponent?_of_underscore hrest, Option.map_none, ite_self]

theorem readFloat?_of_underscore (h : '_' ∈ cs) : readFloat? cs = none := by
  have hrest := underscore_mem_takeSign h
  have hlower : '_' ∈ lowerCase (takeSign cs).2 := List.mem_map.mpr ⟨'_', hrest, by decide⟩
  unfold readFloat?
  generalize takeSign cs = signed at hrest hlower ⊢
  obtain ⟨negative, rest⟩ := signed
  dsimp only at hrest hlower ⊢
  rw [readUnsigned?_of_underscore negative hrest]
  have hword {word : List Char} (hword : '_' ∉ word) : lowerCase rest ≠ word :=
    fun heq => hword (heq ▸ hlower)
  dsimp only
  rw [if_neg, if_neg (hword (by decide))]
  rw [Bool.or_eq_true, decide_eq_true_eq, decide_eq_true_eq]
  exact not_or.mpr ⟨hword (by decide), hword (by decide)⟩

theorem underscore_not_mem {x : Float} (h : readFloat? cs = some x) : '_' ∉ cs := by
  intro hmem
  rw [readFloat?_of_underscore hmem] at h
  cases h

end Decimal

namespace Threshold

open JourneyPlanner.Text JourneyPlanner.Decimal

variable {cs value third : List Char} {es : List Entry} {e : Entry}

/-! ## The form of an entry -/

/-- The word of a limit. -/
def Limit.word : Limit → String
  | .average => "AVERAGE"
  | .peak => "PEAK"

/-- What an entry says before its value, with some third word. -/
def heading (third : List Char) (kind : Exposure.Kind) (limit : Limit) : List Char :=
  "ENVIRONMENTAL_".toList ++ kind.word.toList ++ '_' :: third ++ '_' :: limit.word.toList ++ ['=']

example : heading "MAX".toList .noise .peak = "ENVIRONMENTAL_NOISE_MAX_PEAK=".toList := by decide

/-- The kinds with their limits. -/
def subjects : List (Exposure.Kind × Limit) :=
  Exposure.Kind.all.flatMap fun kind => [(kind, .average), (kind, .peak)]

/-- The entry that a text gives: one of the six headings, and a number. -/
def Entry.formed? (third : List Char) (cs : List Char) : Option Entry :=
  subjects.findSome? fun (kind, limit) =>
    (cs.dropPrefix? (heading third kind limit)).bind fun value =>
      (readFloat? value).map fun x => ⟨kind, limit, x⟩

/-- The word between the second underscore and the third. -/
def thirdWord (cs : List Char) : List Char := (cs.splitOn '_').getD 2 []

theorem mem_subjects (kind : Exposure.Kind) (limit : Limit) : (kind, limit) ∈ subjects := by
  cases kind <;> cases limit <;> decide

theorem lookup_words {κ : Type} {word : κ → String} (hword : Function.Injective word)
    (ks : List κ) {w : String} {k : κ} :
    (ks.map fun k => (word k, k)).lookup w = some k ↔ k ∈ ks ∧ w = word k := by
  induction ks with
  | nil => simp
  | cons k' ks ih =>
    rw [List.map_cons, List.lookup_cons, List.mem_cons]
    split
    · rename_i heq
      obtain rfl := eq_of_beq heq
      rw [Option.some.injEq]
      constructor
      · rintro rfl
        exact ⟨.inl rfl, rfl⟩
      · exact fun h => hword h.2
    · rename_i hne
      rw [ih]
      refine and_congr_left fun h => ⟨.inr, fun hk => hk.resolve_left ?_⟩
      rintro rfl
      rw [h, beq_self_eq_true] at hne
      exact Bool.noConfusion hne

theorem lookup_kind {word : String} {kind : Exposure.Kind} :
    Exposure.Kind.words.lookup word = some kind ↔ word = kind.word := by
  have hword : Function.Injective Exposure.Kind.word := by
    intro kind kind' h
    cases kind <;> cases kind' <;> first | rfl | exact absurd h (by decide)
  exact (lookup_words hword Exposure.Kind.all).trans (and_iff_right kind.mem_all)

theorem lookup_limit {word : String} {limit : Limit} :
    Limit.words.lookup word = some limit ↔ word = limit.word := by
  have hword : Function.Injective Limit.word := by
    intro limit limit' h
    cases limit <;> cases limit' <;> first | rfl | exact absurd h (by decide)
  exact (lookup_words hword [.average, .peak]).trans (and_iff_right (by cases limit <;> decide))

theorem assignment?_eq_some {limit : Limit} {x : Float} : assignment? cs = some (limit, x) ↔
    ∃ value, cs = limit.word.toList ++ '=' :: value ∧ readFloat? value = some x := by
  unfold assignment?
  dsimp only
  constructor
  · intro h
    split at h
    · cases h
    · rename_i c value heq
      have hc : c = '=' := by
        have hhead := List.head?_dropWhile_not (· != '=') cs
        rw [heq] at hhead
        simpa using hhead
      subst hc
      split at h
      · rename_i limit' x' hlimit hx
        cases h
        refine ⟨value, ?_, hx⟩
        rw [← lookup_limit.mp hlimit, String.toList_ofList, ← heq,
          List.takeWhile_append_dropWhile]
      · cases h
  · rintro ⟨value, rfl, hx⟩
    have hkeep : ∀ c ∈ limit.word.toList, (c != '=') = true := by
      refine List.all_eq_true.mp ?_
      cases limit <;> rfl
    rw [List.takeWhile_append_of_pos hkeep, List.dropWhile_append_of_pos hkeep,
      List.takeWhile_cons_of_neg (by decide), List.dropWhile_cons_of_neg (by decide),
      List.append_nil, String.ofList_toList]
    dsimp only
    rw [lookup_limit.mpr rfl, hx]

/-! ## Entries that are kept -/

theorem heading_append (third : List Char) (kind : Exposure.Kind) (limit : Limit)
    (value : List Char) : heading third kind limit ++ value =
      ['_'].intercalate ["ENVIRONMENTAL".toList, kind.word.toList, third,
        limit.word.toList ++ '=' :: value] := by
  have hfirst : "ENVIRONMENTAL_".toList = "ENVIRONMENTAL".toList ++ ['_'] := by decide
  unfold heading
  rw [hfirst]
  simp [List.intercalate]

theorem fields_heading (hthird : '_' ∉ third) (hvalue : '_' ∉ value) (kind : Exposure.Kind)
    (limit : Limit) : fields (· == '_') (heading third kind limit ++ value) =
      ["ENVIRONMENTAL".toList, kind.word.toList, third, limit.word.toList ++ '=' :: value] := by
  refine fields_eq_iff.mpr ⟨List.cons_ne_nil _ _, ?_, heading_append ..⟩
  have hkind : '_' ∉ kind.word.toList := by cases kind <;> decide
  have hlimit : '_' ∉ limit.word.toList := by cases limit <;> decide
  simp [hthird, hvalue, hkind, hlimit]

theorem thirdWord_heading (hthird : '_' ∉ third) (hvalue : '_' ∉ value) (kind : Exposure.Kind)
    (limit : Limit) : thirdWord (heading third kind limit ++ value) = third := by
  unfold thirdWord
  rw [← fields_eq_splitOn, fields_heading hthird hvalue]
  rfl

/-- An entry is a heading with any third word, and a number. -/
theorem entry?_eq_some : entry? cs = some e ↔ ∃ third value, '_' ∉ third ∧
    cs = heading third e.kind e.limit ++ value ∧ readFloat? value = some e.value := by
  unfold entry?
  constructor
  · intro h
    split at h
    · rename_i first kind third last heq
      obtain ⟨-, hpieces, hcs⟩ := fields_eq_iff.mp heq
      split_ifs at h with hfirst
      split at h
      · rename_i kind' limit x hkind hlast
        cases h
        obtain ⟨value, rfl, hvalue⟩ := assignment?_eq_some.mp hlast
        refine ⟨third, value, hpieces third (by simp), ?_, hvalue⟩
        rw [hcs, heading_append, ← hfirst, ← lookup_kind.mp hkind, String.toList_ofList,
          String.toList_ofList]
      · cases h
    · cases h
  · rintro ⟨third, value, hthird, rfl, hvalue⟩
    rw [fields_heading hthird (underscore_not_mem hvalue)]
    dsimp only
    rw [String.ofList_toList, String.ofList_toList, if_pos rfl, lookup_kind.mpr rfl,
      assignment?_eq_some.mpr ⟨value, rfl, hvalue⟩]

theorem formed?_eq_some (hthird : '_' ∉ third) : Entry.formed? third cs = some e ↔
    ∃ value, cs = heading third e.kind e.limit ++ value ∧ readFloat? value = some e.value := by
  have hsound {e' : Entry} (h : Entry.formed? third cs = some e') :
      ∃ value, cs = heading third e'.kind e'.limit ++ value ∧
        readFloat? value = some e'.value := by
    obtain ⟨⟨kind, limit⟩, -, h⟩ := List.exists_of_findSome?_eq_some h
    obtain ⟨value, hdrop, h⟩ := Option.bind_eq_some_iff.mp h
    obtain ⟨x, hx, rfl⟩ := Option.map_eq_some_iff.mp h
    obtain ⟨start, rfl, hstart⟩ := List.dropPrefix?_eq_some_iff.mp hdrop
    exact ⟨value, by rw [eq_of_beq hstart], hx⟩
  refine ⟨hsound, fun ⟨value, hcs, hvalue⟩ => ?_⟩
  have hsome : (Entry.formed? third cs).isSome := by
    refine List.findSome?_isSome_iff.mpr ⟨(e.kind, e.limit), mem_subjects _ _, ?_⟩
    have hdrop : cs.dropPrefix? (heading third e.kind e.limit) = some value :=
      List.dropPrefix?_eq_some_iff.mpr ⟨_, hcs, beq_self_eq_true _⟩
    dsimp only
    rw [hdrop, Option.bind_some, hvalue]
    rfl
  obtain ⟨e', he'⟩ := Option.isSome_iff_exists.mp hsome
  -- Both entries are what the text gives, so the six headings exclude each other.
  obtain ⟨value', hcs', hvalue'⟩ := hsound he'
  have hentry := entry?_eq_some.mpr ⟨third, value, hthird, hcs, hvalue⟩
  rw [entry?_eq_some.mpr ⟨third, value', hthird, hcs', hvalue'⟩] at hentry
  rw [he', hentry]

theorem underscore_not_mem_thirdWord (cs : List Char) : '_' ∉ thirdWord cs := by
  intro h
  unfold thirdWord at h
  rw [List.getD_eq_getElem?_getD] at h
  cases hword : (cs.splitOn '_')[2]? with
  | none =>
    rw [hword] at h
    exact absurd h List.not_mem_nil
  | some word =>
    rw [hword] at h
    have hmem := List.mem_of_getElem? hword
    rw [← fields_eq_splitOn] at hmem
    exact (fields_eq_iff.mp rfl).2.1 word hmem h

/-- An entry is read as one of the form, whatever its third word is. -/
theorem entry?_eq_formed? (cs : List Char) : entry? cs = Entry.formed? (thirdWord cs) cs := by
  refine Option.ext fun e => ?_
  rw [entry?_eq_some, formed?_eq_some (underscore_not_mem_thirdWord cs)]
  constructor
  · rintro ⟨third, value, hthird, rfl, hvalue⟩
    exact ⟨value, by rw [thirdWord_heading hthird (underscore_not_mem hvalue)], hvalue⟩
  · rintro ⟨value, hcs, hvalue⟩
    exact ⟨_, value, underscore_not_mem_thirdWord cs, hcs, hvalue⟩

/-! ## What entries make of thresholds -/

/-- The value of the last entry that sets this limit of this kind. -/
def lastValue? (es : List Entry) (kind : Exposure.Kind) (limit : Limit) : Option Float :=
  ((es.filter fun e => e.kind = kind ∧ e.limit = limit).map (·.value)).getLast?

/-- A threshold for each kind, in the order in which kinds first occur, with the last value for each
of its limits. -/
def ofEntries (es : List Entry) : List Threshold :=
  (es.map (·.kind)).eraseDups.map fun kind =>
    ⟨kind, lastValue? es kind .average, lastValue? es kind .peak⟩

theorem lastValue?_concat (es : List Entry) (e : Entry) (kind : Exposure.Kind) (limit : Limit) :
    lastValue? (es ++ [e]) kind limit =
      if e.kind = kind ∧ e.limit = limit then some e.value else lastValue? es kind limit := by
  unfold lastValue?
  rw [List.filter_append, List.map_append, List.getLast?_append]
  split_ifs with h
  · rw [List.filter_cons_of_pos (by simpa using h)]
    rfl
  · rw [List.filter_cons_of_neg (by simpa using h)]
    rfl

theorem lastValue?_filter (p : Entry → Bool) {kind : Exposure.Kind} (limit : Limit)
    (h : ∀ e ∈ es, e.kind = kind → p e = true) :
    lastValue? (es.filter p) kind limit = lastValue? es kind limit := by
  unfold lastValue?
  rw [List.filter_filter]
  congr 2
  refine List.filter_congr fun e he => ?_
  by_cases hkind : e.kind = kind
  · rw [h e he hkind, Bool.and_true]
  · simp [hkind]

/-- The threshold with the limit of an entry. -/
def setEntry (t : Threshold) (e : Entry) : Threshold := t.set e.limit e.value

theorem kind_setEntry (t : Threshold) (e : Entry) : (t.setEntry e).kind = t.kind := by
  unfold setEntry set
  split <;> rfl

theorem foldl_setEntry {kind : Exposure.Kind} (h : ∀ e ∈ es, e.kind = kind) :
    es.foldl setEntry ⟨kind, none, none⟩ =
      ⟨kind, lastValue? es kind .average, lastValue? es kind .peak⟩ := by
  induction es using List.reverseRecOn with
  | nil => rfl
  | append_singleton es e ih =>
    have hkind := h e (List.mem_append_right _ List.mem_cons_self)
    rw [List.foldl_concat, ih fun e he => h e (List.mem_append_left _ he), lastValue?_concat,
      lastValue?_concat]
    rcases e with ⟨kind', _ | _, x⟩ <;> simp_all [setEntry, set]

theorem foldl_merge_cons (es : List Entry) (t : Threshold) (ts : List Threshold) :
    es.foldl merge (t :: ts) = (es.filter fun e => t.kind = e.kind).foldl setEntry t ::
      (es.filter fun e => t.kind ≠ e.kind).foldl merge ts := by
  induction es generalizing t ts with
  | nil => rfl
  | cons e es ih =>
    rw [List.foldl_cons, merge]
    split_ifs with h
    · rw [List.filter_cons_of_pos (by simpa using h), List.filter_cons_of_neg (by simpa using h)]
      exact (ih (t.setEntry e) ts).trans (by rw [kind_setEntry]; rfl)
    · rw [ih, List.filter_cons_of_neg (by simpa using h),
        List.filter_cons_of_pos (by simpa using h)]
      rfl

/-- The first entry opens the threshold of its kind, which all entries of this kind go into. -/
theorem foldl_merge_entries (e : Entry) (es : List Entry) : (e :: es).foldl merge [] =
    ⟨e.kind, lastValue? (e :: es) e.kind .average, lastValue? (e :: es) e.kind .peak⟩ ::
      (es.filter fun e' => e.kind ≠ e'.kind).foldl merge [] := by
  have hsame : e :: es.filter (fun e' => e.kind = e'.kind) =
      (e :: es).filter fun e' => e.kind = e'.kind := (List.filter_cons_of_pos (by simp)).symm
  have hhead : (es.filter fun e' => e.kind = e'.kind).foldl setEntry
      (setEntry ⟨e.kind, none, none⟩ e) =
        ⟨e.kind, lastValue? (e :: es) e.kind .average, lastValue? (e :: es) e.kind .peak⟩ := by
    have hkind : ∀ e' ∈ (e :: es).filter (fun e' => e.kind = e'.kind), e'.kind = e.kind :=
      fun e' he' => (of_decide_eq_true (List.mem_filter.mp he').2).symm
    rw [← List.foldl_cons, hsame, foldl_setEntry hkind, lastValue?_filter, lastValue?_filter]
    all_goals exact fun e' _ h => decide_eq_true h.symm
  rw [List.foldl_cons, ← hhead]
  exact (foldl_merge_cons es (setEntry ⟨e.kind, none, none⟩ e) []).trans (by rw [kind_setEntry])

theorem ofEntries_cons (e : Entry) (es : List Entry) : ofEntries (e :: es) =
    ⟨e.kind, lastValue? (e :: es) e.kind .average, lastValue? (e :: es) e.kind .peak⟩ ::
      ofEntries (es.filter fun e' => e.kind ≠ e'.kind) := by
  have hother : (e :: es).filter (fun e' => e.kind ≠ e'.kind) =
      es.filter fun e' => e.kind ≠ e'.kind := List.filter_cons_of_neg (by simp)
  have hkinds : (es.map (·.kind)).filter (fun kind => !kind == e.kind) =
      (es.filter fun e' => e.kind ≠ e'.kind).map (·.kind) := by
    rw [List.filter_map]
    congr 1
    refine List.filter_congr fun e' _ => ?_
    by_cases h : e.kind = e'.kind
    · simp [h]
    · simp [h, Ne.symm h]
  unfold ofEntries
  rw [List.map_cons, List.eraseDups_cons, List.map_cons, hkinds]
  refine congrArg _ (List.map_congr_left fun kind hkind => ?_)
  obtain ⟨e', he', rfl⟩ := List.mem_map.mp (List.mem_eraseDups.mp hkind)
  have hne : e.kind ≠ e'.kind := of_decide_eq_true (List.mem_filter.mp he').2
  rw [← hother, lastValue?_filter, lastValue?_filter]
  all_goals
    rintro e'' - h
    simpa [h] using hne

/-- Merging entries one after the other gives each kind its last values. -/
theorem foldl_merge (es : List Entry) : es.foldl merge [] = ofEntries es := by
  induction hlength : es.length using Nat.strongRecOn generalizing es with
  | ind n ih =>
    subst hlength
    cases es with
    | nil => rfl
    | cons e es =>
      rw [foldl_merge_entries, ofEntries_cons, ih _ _ _ rfl]
      exact Nat.lt_succ_of_le (List.length_filter_le _ _)

/-! ## Texts -/

/-- The thresholds that the documented form gives a text: only headings that say `MAX` count. -/
def documented (text : String) : List Threshold :=
  ofEntries ((text.toList.splitOn '&').filterMap (Entry.formed? "MAX".toList))

theorem parse_eq (text : String) : parse text = ofEntries
    ((text.toList.splitOn '&').filterMap fun cs => Entry.formed? (thirdWord cs) cs) := by
  unfold parse
  rw [foldl_merge, fields_eq_splitOn]
  exact congrArg (fun f => ofEntries (List.filterMap f _)) (funext entry?_eq_formed?)

theorem thirdWord_of_formed? (hthird : '_' ∉ third) (h : Entry.formed? third cs = some e) :
    thirdWord cs = third := by
  obtain ⟨value, rfl, hvalue⟩ := (formed?_eq_some hthird).mp h
  exact thirdWord_heading hthird (underscore_not_mem hvalue) _ _

/-- An entry counts as one of the form exactly when it is none at all or has this third word. -/
theorem formed?_thirdWord_iff (hthird : '_' ∉ third) :
    Entry.formed? (thirdWord cs) cs = Entry.formed? third cs ↔
      (Entry.formed? (thirdWord cs) cs ≠ none → thirdWord cs = third) := by
  constructor
  · intro h hne
    obtain ⟨e, he⟩ := Option.ne_none_iff_exists'.mp hne
    exact thirdWord_of_formed? hthird (h ▸ he)
  · intro h
    by_cases hnone : Entry.formed? (thirdWord cs) cs = none
    · rw [hnone]
      refine (Option.eq_none_iff_forall_ne_some.mpr fun e he => ?_).symm
      rw [thirdWord_of_formed? hthird he, he] at hnone
      cases hnone
    · rw [h hnone]

/-- The thresholds of a text are those of the pieces that are one of the six headings and a number,
whatever the third word of the heading is. A piece is read as one that says `MAX` exactly when it
does or is not kept at all, and if this holds of all pieces, the thresholds are those of the
documented form. -/
theorem thresholds_of_text (text : String) :
    parse text = ofEntries
      ((text.toList.splitOn '&').filterMap fun cs => Entry.formed? (thirdWord cs) cs) ∧
    (∀ cs e, Entry.formed? "MAX".toList cs = some e ↔ ∃ value,
      cs = heading "MAX".toList e.kind e.limit ++ value ∧ readFloat? value = some e.value) ∧
    (∀ cs, Entry.formed? (thirdWord cs) cs = Entry.formed? "MAX".toList cs ↔
      (Entry.formed? (thirdWord cs) cs ≠ none → thirdWord cs = "MAX".toList)) ∧
    ((∀ cs ∈ text.toList.splitOn '&',
      Entry.formed? (thirdWord cs) cs ≠ none → thirdWord cs = "MAX".toList) →
        parse text = documented text) := by
  have hmax : '_' ∉ "MAX".toList := by decide
  refine ⟨parse_eq text, fun cs e => formed?_eq_some hmax, fun cs => formed?_thirdWord_iff hmax,
    fun h => ?_⟩
  rw [parse_eq]
  exact congrArg ofEntries (List.filterMap_congr fun cs hcs =>
    (formed?_thirdWord_iff hmax).mpr (h cs hcs))

/-- A limit that is set twice and another one between, followed by entries of no form: there is a
limit of another name, a value that is no number, and nothing. -/
def quietText : String :=
  "ENVIRONMENTAL_NOISE_MAX_PEAK=70&ENVIRONMENTAL_POLLUTION_MAX_AVERAGE=5" ++
    "&ENVIRONMENTAL_NOISE_MAX_PEAK=65&ENVIRONMENTAL_NOISE_MAX_MEDIAN=3" ++
    "&ENVIRONMENTAL_NOISE_MAX_PEAK=1=2&"

/-- The later value counts, and kinds come in the order of their first entries. -/
theorem quietText_documented : parse quietText = documented quietText ∧
    (parse quietText).map (fun t => (t.kind, t.maxAverage, t.maxPeak)) =
      [(.noise, none, some 65), (.pollution, some 5, none)] := by
  refine ⟨(thresholds_of_text quietText).2.2.2 ?_, ?_⟩
  · decide +kernel
  · decide +kernel

/-- An entry that does not say `MAX` sets a limit, against the documented form. -/
theorem minimum_read_as_maximum : (parse "ENVIRONMENTAL_NOISE_MIN_PEAK=70").length = 1 ∧
    (documented "ENVIRONMENTAL_NOISE_MIN_PEAK=70").length = 0 := by
  decide +kernel

end Threshold

end JourneyPlanner
