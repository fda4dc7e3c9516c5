import JourneyPlanner.Proofs.Journey.Chain
import JourneyPlanner.Proofs.Time.ServiceTimes

/-!
# Timetables

The times of a pattern do not go back, so no ride or dwell takes less than no time
(`Network.Wired.stay_nonneg`). Texts give times of up to forty-eight hours, so no two times in a
built pattern are further apart (`NetworkDescription.timely_of_build`), and what lies between them
fits in a word of 32 bits (`Network.Timely.staysFit`).
-/

namespace JourneyPlanner

/-! ## Times that do not go back -/

theorem firstDecrease_go {stops : List PatternStop} : ∀ {previous : Option Int} {index : Nat},
    firstDecrease?.go previous index stops = none →
      (∀ p, previous = some p → ∀ s, stops[0]? = some s → p ≤ s.arrival) ∧
      ∀ j s, stops[j]? = some s → s.arrival ≤ s.departure ∧
        ∀ s', stops[j + 1]? = some s' → s.departure ≤ s'.arrival := by
  induction stops with
  | nil =>
    refine fun _ => ⟨fun _ _ s hs => ?_, fun j s hs => ?_⟩
    · rw [List.getElem?_nil] at hs
      cases hs
    · rw [List.getElem?_nil] at hs
      cases hs
  | cons first rest ih =>
    intro previous index h
    unfold firstDecrease?.go at h
    split_ifs at h with hd
    obtain ⟨hnext, hrest⟩ := ih h
    rw [Bool.or_eq_true, not_or, Option.any_eq_true, decide_eq_true_eq, not_lt] at hd
    refine ⟨fun p hp s hs => ?_, fun j s hs => ?_⟩
    · rw [List.getElem?_cons_zero, Option.some.injEq] at hs
      by_contra hlt
      exact hd.1 ⟨p, hp, by rw [hs, decide_eq_true_eq]; omega⟩
    · cases j with
      | zero =>
        rw [List.getElem?_cons_zero, Option.some.injEq] at hs
        subst hs
        exact ⟨hd.2, fun s' hs' => hnext _ rfl s' hs'⟩
      | succ j => exact hrest j s hs

theorem VertexKind.Follows.le {p : FrequencyPattern} {k : Nat} {κ κ' : VertexKind} {t t' : Int}
    (h : κ.Follows κ') (ht : p.timeAt? k κ = some t) (ht' : p.timeAt? k κ' = some t') : t ≤ t' := by
  have hgo := (firstDecrease_go p.ordered).2
  cases h with
  | hop l i =>
    simp only [FrequencyPattern.timeAt?] at ht ht'
    split_ifs at ht ht'
    obtain ⟨s, hs, rfl⟩ := Option.map_eq_some_iff.mp ht
    obtain ⟨s', hs', rfl⟩ := Option.map_eq_some_iff.mp ht'
    exact (hgo i s hs).2 s' hs'
  | dwell l i =>
    simp only [FrequencyPattern.timeAt?] at ht ht'
    split_ifs at ht ht'
    obtain ⟨s, hs, rfl⟩ := Option.map_eq_some_iff.mp ht
    rw [hs] at ht'
    cases ht'
    exact (hgo i s hs).1

/-! ## Times that texts give -/

/-- A time within the forty-eight hours that a text can give. -/
def IsServiceTime (t : Int) : Prop := 0 ≤ t ∧ t ≤ ServiceTime.latest

theorem ServiceTime.isServiceTime_of_parse {text : String} {t : ServiceTime}
    (h : parse text = .ok t) : IsServiceTime t.seconds := by
  obtain ⟨f, -, rfl, hle⟩ := Face.exists_of_parse h
  exact ⟨Int.natCast_nonneg _, Int.ofNat_le.mpr hle⟩

theorem isServiceTime_of_read {text : String} {t : Int} (h : readServiceTime text = .ok t) :
    IsServiceTime t := by
  unfold readServiceTime at h
  split at h
  · rename_i time htime
    cases h
    exact ServiceTime.isServiceTime_of_parse htime
  · cases h

theorem Integers.holds_of_mem {k : Integers} {bits : Nat} {n : Int} (low : -2 ^ (bits - 1) ≤ n)
    (high : n < 2 ^ (bits - 1)) : k.Holds bits n :=
  fun _ => ⟨low, high⟩

theorem Integers.holds_sub (k : Integers) {t u : Int} (ht : IsServiceTime t)
    (hu : IsServiceTime u) : k.Holds 32 (u - t) := by
  unfold IsServiceTime at ht hu
  have hlatest : (ServiceTime.latest : Int) = 172800 := rfl
  exact Integers.holds_of_mem (by omega) (by omega)

/-! ## Timely patterns -/

/-- Whether every stop of a pattern is reached and left at times that texts can give. -/
def FrequencyPattern.Timely (p : FrequencyPattern) : Prop :=
  ∀ s ∈ p.stops, IsServiceTime s.arrival ∧ IsServiceTime s.departure

theorem FrequencyPattern.Timely.timeAt? {p : FrequencyPattern} (h : p.Timely) {k : Nat}
    {κ : VertexKind} {t : Int} (ht : p.timeAt? k κ = some t) : IsServiceTime t := by
  cases κ with
  | street | stop => cases ht
  | arrive l i =>
    simp only [FrequencyPattern.timeAt?] at ht
    split_ifs at ht
    obtain ⟨s, hs, rfl⟩ := Option.map_eq_some_iff.mp ht
    exact (h s (List.mem_of_getElem? hs)).1
  | depart l i =>
    simp only [FrequencyPattern.timeAt?] at ht
    split_ifs at ht
    obtain ⟨s, hs, rfl⟩ := Option.map_eq_some_iff.mp ht
    exact (h s (List.mem_of_getElem? hs)).2

theorem PatternStopDescription.isServiceTime {s : PatternStopDescription} {st : PatternStop}
    (h : s.patternStop = .ok st) : IsServiceTime st.arrival ∧ IsServiceTime st.departure := by
  unfold patternStop at h
  obtain ⟨arrival, harrival, h⟩ := bind_eq_ok.mp h
  have harrival := isServiceTime_of_read harrival
  obtain ⟨departure, hdeparture, h⟩ : ∃ departure, IsServiceTime departure ∧ (do
      let board ← readAccess s.pickupType
      let alight ← readAccess s.dropOffType
      return (⟨s.stop, arrival, departure, board, alight, s.zone, s.headsign, s.wheelchair⟩ :
        PatternStop)) = Except.ok st := by
    -- who gives no departure leaves at once
    cases hd : s.departure with
    | none =>
      rw [hd] at h
      exact ⟨arrival, harrival, h⟩
    | some text =>
      rw [hd] at h
      obtain ⟨departure, hdeparture, h⟩ := bind_eq_ok.mp h
      exact ⟨departure, isServiceTime_of_read hdeparture, h⟩
  obtain ⟨_, -, h⟩ := bind_eq_ok.mp h
  obtain ⟨_, -, h⟩ := bind_eq_ok.mp h
  cases h
  exact ⟨harrival, hdeparture⟩

theorem HeadwayWindow.stop_of_make {start stop headway : Int} {exact : Bool} {w : HeadwayWindow}
    (h : make start stop headway exact = .ok w) : w.stop = stop := by
  unfold make make? at h
  split_ifs at h
  cases h
  rfl

theorem FrequencyDescription.isServiceTime {f : FrequencyDescription} {w : HeadwayWindow}
    (h : f.window = .ok w) : IsServiceTime w.stop := by
  unfold window at h
  obtain ⟨start, -, h⟩ := bind_eq_ok.mp h
  obtain ⟨stop, hstop, h⟩ := bind_eq_ok.mp h
  cases hmake : HeadwayWindow.make start stop f.headway f.exact with
  | error e => rw [hmake] at h; cases h
  | ok w' =>
    rw [hmake] at h
    obtain rfl : w' = w := Except.ok.inj h
    rw [HeadwayWindow.stop_of_make hmake]
    exact isServiceTime_of_read hstop

theorem FrequencyPattern.stops_of_make {trip : Trip} {service : ServiceId} {mode : Mode}
    {stops : List PatternStop} {windows : List HeadwayWindow} {bikes wheelchair : Bool}
    {p : FrequencyPattern} (h : make trip service mode stops windows bikes wheelchair = .ok p) :
    p.stops = stops ∧ p.windows = windows := by
  unfold make at h
  split_ifs at h
  split at h
  · cases h
    exact ⟨rfl, rfl⟩
  · cases h

theorem PatternDescription.pattern_eq_ok {d : PatternDescription} {p : FrequencyPattern}
    (h : d.pattern = .ok p) : d.stops.mapM PatternStopDescription.patternStop = .ok p.stops ∧
      d.frequencies.mapM FrequencyDescription.window = .ok p.windows := by
  unfold pattern at h
  split at h
  · obtain ⟨stops, hstops, h⟩ := bind_eq_ok.mp h
    obtain ⟨windows, hwindows, h⟩ := bind_eq_ok.mp h
    cases hmake : FrequencyPattern.make ⟨d.trip, d.route⟩ d.service _ stops windows
      d.bikesAllowed d.wheelchair with
    | error e => rw [hmake] at h; cases h
    | ok q =>
      rw [hmake] at h
      obtain rfl : q = p := Except.ok.inj h
      obtain ⟨hs, hw⟩ := FrequencyPattern.stops_of_make hmake
      exact ⟨hs ▸ hstops, hw ▸ hwindows⟩
  · cases h

theorem PatternDescription.timely {d : PatternDescription} {p : FrequencyPattern}
    (h : d.pattern = .ok p) : p.Timely := fun s hs => by
  obtain ⟨sd, -, hsd⟩ := exists_of_mapM_eq_ok (pattern_eq_ok h).1 s hs
  exact PatternStopDescription.isServiceTime hsd

theorem PatternDescription.isServiceTime_of_runStarts {d : PatternDescription}
    {p : FrequencyPattern} (h : d.pattern = .ok p) {start : Int} (hs : p.RunStarts start) :
    IsServiceTime start := by
  obtain ⟨w, hw, hlow, hhigh, -⟩ := hs
  obtain ⟨f, -, hf⟩ := exists_of_mapM_eq_ok (pattern_eq_ok h).2 w hw
  obtain ⟨-, hstop⟩ := FrequencyDescription.isServiceTime hf
  have := w.start_nonneg
  exact ⟨by omega, by omega⟩

/-! ## Patterns of built networks -/

namespace Draft

variable {d d' : Draft}

/-- What a draft has of a calendar and some descriptions of patterns: the calendar, and patterns
that are each read from one of them. -/
structure ReadFrom (d : Draft) (calendar : ServiceCalendar) (patterns : List PatternDescription) :
    Prop where
  calendar_eq : d.calendar = calendar
  read : ∀ p ∈ d.patterns, ∃ x ∈ patterns, x.pattern = .ok p

end Draft

namespace NetworkDescription

open Draft

variable {d d' : Draft} {u : Unit} {calendar : ServiceCalendar}
  {patterns : List PatternDescription}

theorem readFrom_addStop {s : StopDescription} (h : (addStop s).Gives d u d')
    (hd : d.ReadFrom calendar patterns) : d'.ReadFrom calendar patterns := by
  unfold addStop at h
  simp only [Step.gives_bind] at h
  obtain ⟨_, d₁, h₁, h⟩ := h
  obtain ⟨-, -, rfl⟩ := gives_addStop h₁
  cases hp : s.parent with
  | none =>
    rw [hp] at h
    obtain ⟨-, rfl⟩ := Step.gives_pure.mp h
    exact ⟨hd.calendar_eq, hd.read⟩
  | some parent =>
    rw [hp] at h
    unfold setParent at h
    obtain rfl := Step.gives_modify.mp h
    exact ⟨hd.calendar_eq, hd.read⟩

theorem readFrom_addStreetVertex {v : StreetVertexDescription}
    (h : (addStreetVertex v).Gives d u d') (hd : d.ReadFrom calendar patterns) :
    d'.ReadFrom calendar patterns := by
  unfold addStreetVertex Draft.addStreetVertex at h
  simp only [Step.gives_bind, Step.gives_pure, gives_addVertex] at h
  obtain ⟨_, _, ⟨-, -, rfl⟩, -, rfl⟩ := h
  exact ⟨hd.calendar_eq, hd.read⟩

theorem readFrom_addStreet {s : StreetDescription} (h : (addStreet s).Gives d u d')
    (hd : d.ReadFrom calendar patterns) : d'.ReadFrom calendar patterns := by
  unfold addStreet at h
  simp only [Step.gives_bind, Step.gives_pure, gives_vertexNamed] at h
  obtain ⟨_, _, ⟨-, rfl⟩, _, _, ⟨-, rfl⟩, _, d₁, h₁, -, rfl⟩ := h
  obtain ⟨_, links, -, rfl, -⟩ := gives_addStreet h₁
  rw [withEdges_eq]
  exact ⟨hd.calendar_eq, hd.read⟩

theorem readFrom_addPattern {p : PatternDescription} (hp : p ∈ patterns)
    (h : (addPattern p).Gives d u d') (hd : d.ReadFrom calendar patterns) :
    d'.ReadFrom calendar patterns := by
  unfold addPattern at h
  simp only [Step.gives_bind, Step.gives_pure, Step.gives_lift] at h
  obtain ⟨pattern, _, ⟨hread, rfl⟩, _, d₁, h₁, -, rfl⟩ := h
  obtain ⟨_, _, _, -, hplatforms, rfl⟩ := gives_addPattern h₁
  constructor
  · rw [withEdges_eq]
    exact (gives_addPlatforms hplatforms).1.calendar_eq.trans hd.calendar_eq
  · intro q hq
    rcases Array.mem_push.mp hq with hq | rfl
    · exact hd.read q hq
    · exact ⟨p, hp, hread⟩

theorem readFrom_addTransfer {t : TransferDescription} (h : (addTransfer t).Gives d u d')
    (hd : d.ReadFrom calendar patterns) : d'.ReadFrom calendar patterns := by
  unfold addTransfer Draft.addTransfer at h
  simp only [Step.gives_bind, Step.gives_modify, Step.gives_lift] at h
  obtain ⟨rule, _, ⟨-, rfl⟩, rfl⟩ := h
  exact ⟨hd.calendar_eq, hd.read⟩

theorem readFrom_addTimedTransfer {t : TimedTransferDescription}
    (h : (addTimedTransfer t).Gives d u d') (hd : d.ReadFrom calendar patterns) :
    d'.ReadFrom calendar patterns := by
  unfold addTimedTransfer Draft.addTimedTransfer at h
  simp only [Step.gives_bind, Step.gives_pure, gives_vertexOfStop, gives_addEdge] at h
  obtain ⟨_, d₁, ⟨_, _, ⟨-, rfl⟩, _, _, ⟨-, rfl⟩, -, rfl⟩, -, rfl⟩ := h
  exact ⟨hd.calendar_eq, hd.read⟩

theorem readFrom_addAll {description : NetworkDescription}
    (h : description.addAll.Gives d u d') (hd : d.ReadFrom calendar description.patterns) :
    d'.ReadFrom calendar description.patterns := by
  let I (d : Draft) : Prop := d.ReadFrom calendar description.patterns
  unfold addAll at h
  simp only [Step.gives_bind] at h
  obtain ⟨_, d₁, h₁, _, d₂, h₂, _, d₃, h₃, _, d₄, h₄, _, d₅, h₅, h₆⟩ := h
  have g₁ := Step.gives_forM (I := I) (fun _ _ _ _ _ => readFrom_addStop) h₁ hd
  have g₂ := Step.gives_forM (I := I) (fun _ _ _ _ _ => readFrom_addStreetVertex) h₂ g₁
  have g₃ := Step.gives_forM (I := I) (fun _ _ _ _ _ => readFrom_addStreet) h₃ g₂
  have g₄ := Step.gives_forM (I := I) (fun _ hx _ _ _ => readFrom_addPattern hx) h₄ g₃
  have g₅ := Step.gives_forM (I := I) (fun _ _ _ _ _ => readFrom_addTransfer) h₅ g₄
  exact Step.gives_forM (I := I) (fun _ _ _ _ _ => readFrom_addTimedTransfer) h₆ g₅

theorem readFrom_empty (calendar : ServiceCalendar) (patterns : List PatternDescription) :
    (Draft.empty calendar).ReadFrom calendar patterns :=
  ⟨rfl, by simp [Draft.empty]⟩

variable {description : NetworkDescription} {zones : ZoneDatabase} {n : Network}

theorem exists_pattern_of_build (h : description.build zones = .ok n) {p : FrequencyPattern}
    (hp : p ∈ n.patterns) : ∃ x ∈ description.patterns, x.pattern = .ok p := by
  obtain ⟨calendar, draft, -, hdraft, rfl⟩ := build_eq_ok h
  exact (readFrom_addAll hdraft (readFrom_empty _ _)).read p hp

theorem zone_of_build (h : description.build zones = .ok n) :
    zones description.timezone = some n.calendar.zone := by
  obtain ⟨calendar, draft, hc, hdraft, rfl⟩ := build_eq_ok h
  rw [show draft.toNetwork.calendar = calendar from
    (readFrom_addAll hdraft (readFrom_empty _ _)).calendar_eq]
  unfold NetworkDescription.calendar NetworkDescription.zone ServiceCalendar.ofRules at hc
  obtain ⟨rules, -, hc⟩ := bind_eq_ok.mp hc
  obtain ⟨zone, hz, hc⟩ := bind_eq_ok.mp hc
  split at hz
  · rename_i hf
    cases hz
    split at hc
    · cases hc
    · cases hc
      exact hf
  · cases hz

end NetworkDescription

/-- Whether the patterns of a network are timely. -/
def Network.Timely (n : Network) : Prop := ∀ p ∈ n.patterns, p.Timely

/-- A network that a description builds is timely. -/
theorem NetworkDescription.timely_of_build {description : NetworkDescription}
    {zones : ZoneDatabase} {n : Network} (h : description.build zones = .ok n) : n.Timely :=
  fun _ hp => by
    obtain ⟨x, -, hx⟩ := exists_pattern_of_build h hp
    exact PatternDescription.timely hx

/-! ## Edges that stay on board -/

theorem Network.Wired.stay_nonneg {n : Network} (hn : n.Wired) {e : Edge} (he : e ∈ n.edges)
    {k : Integers} {p : FrequencyPattern} {seconds : Int} (hs : e.stay? k = some (p, seconds)) :
    0 ≤ seconds := by
  obtain ⟨_, _, _, _, _, -, -, -, hnext, ht, ht', rfl⟩ := hn.stay he hs
  exact sub_nonneg.mpr (hnext.le ht ht')

/-- Whether the seconds between the times of a pattern are held. -/
def FrequencyPattern.TimesFit (p : FrequencyPattern) (k : Integers) : Prop :=
  ∀ a ∈ p.stops, k.Holds 32 (a.departure - a.arrival) ∧
    ∀ b ∈ p.stops, k.Holds 32 (b.arrival - a.departure)

theorem FrequencyPattern.timesFit_unbounded (p : FrequencyPattern) : p.TimesFit .unbounded :=
  fun _ _ => ⟨Integers.holds_unbounded, fun _ _ => Integers.holds_unbounded⟩

theorem FrequencyPattern.Timely.timesFit {p : FrequencyPattern} (h : p.Timely) (k : Integers) :
    p.TimesFit k :=
  fun a ha => ⟨k.holds_sub (h a ha).1 (h a ha).2, fun b hb => k.holds_sub (h a ha).2 (h b hb).1⟩

theorem Edge.exists_staySeconds {e : Edge} {k : Integers}
    (h : ∀ p, ((∃ i j, e.link = .hop p i j) ∨ ∃ i, e.link = .dwell p i) → p.TimesFit k) :
    ∃ seconds, e.staySeconds k = .ok seconds := by
  unfold staySeconds
  cases hl : e.link with
  | hop p i j =>
    have hfit := h p (.inl ⟨i, j, hl⟩)
    suffices hride : ∃ ride?, p.rideTime? k i j = .ok ride? by
      obtain ⟨ride?, hride⟩ := hride
      exact ⟨_, bind_eq_ok.mpr ⟨_, hride, rfl⟩⟩
    unfold FrequencyPattern.rideTime?
    cases ha : p.stops[i]? with
    | none => exact ⟨none, rfl⟩
    | some a =>
      cases hb : p.stops[j]? with
      | none => exact ⟨none, rfl⟩
      | some b =>
        exact ⟨_, bind_eq_ok.mpr ⟨_, Integers.fit_of_holds ((hfit a (List.mem_of_getElem? ha)).2 b
          (List.mem_of_getElem? hb)), rfl⟩⟩
  | dwell p i =>
    have hfit := h p (.inr ⟨i, hl⟩)
    suffices hwait : ∃ wait?, p.dwellTime? k i = .ok wait? by
      obtain ⟨wait?, hwait⟩ := hwait
      exact ⟨_, bind_eq_ok.mpr ⟨_, hwait, rfl⟩⟩
    unfold FrequencyPattern.dwellTime?
    cases ha : p.stops[i]? with
    | none => exact ⟨none, rfl⟩
    | some a =>
      exact ⟨_, optionMapM_eq_ok.mpr (.inr ⟨a, _, rfl,
        Integers.fit_of_holds (hfit a (List.mem_of_getElem? ha)).1, rfl⟩)⟩
  | board | alight | timedTransfer | street => exact ⟨0, rfl⟩

/-- Whether the seconds of every edge are held. -/
def Context.StaysFit (c : Context) : Prop :=
  ∀ e ∈ c.network.edges, ∃ seconds, e.staySeconds c.integers = .ok seconds

variable {c : Context}

theorem Context.staysFit_of_unbounded (hk : c.integers = .unbounded) : c.StaysFit :=
  fun _ _ => Edge.exists_staySeconds fun p _ => hk ▸ p.timesFit_unbounded

theorem Network.Timely.staysFit (h : c.network.Timely) (hn : c.network.Wired) : c.StaysFit := by
  intro e he
  refine Edge.exists_staySeconds fun p hl => ?_
  obtain ⟨k, hp⟩ : ∃ k, c.network.patternAt? k = some p := by
    have hj := hn.joins e he
    rcases hl with ⟨i, j, hl⟩ | ⟨i, hl⟩
    · rw [hl] at hj
      cases hj with
      | hop hp => exact ⟨_, hp⟩
    · rw [hl] at hj
      cases hj with
      | dwell hp => exact ⟨_, hp⟩
  exact (h p (Array.mem_of_getElem? hp)).timesFit c.integers

end JourneyPlanner
