import JourneyPlanner.Proofs.Network.DraftStep

/-!
# How built networks are wired

Every link of a built network joins vertices of the kinds it is for, streets and timed transfers
stay on the ground, and no two patterns serve the same trip. A draft keeps this (`Draft.Wired`)
through every operation that a description asks for.
-/

namespace JourneyPlanner

/-- Whether a vertex of the kind is off every vehicle. -/
def VertexKind.isGround : VertexKind → Bool
  | .street | .stop _ => true
  | .arrive .. | .depart .. => false

/-- The links that may lead from one vertex to another, given the kinds of vertices and the
patterns. -/
inductive Link.Joins (kind : VertexId → Option VertexKind) (pattern : Nat → Option FrequencyPattern)
    (tail head : VertexId) : Link → Prop
  | board {k i : Nat} {p : FrequencyPattern} {s : PatternStop} (pattern_eq : pattern k = some p)
      (stop_eq : p.stops[i]? = some s) (before_last : i + 1 < p.stops.length)
      (tail_kind : kind tail = some (.stop s.stop)) (head_kind : kind head = some (.depart k i)) :
      Joins kind pattern tail head (.board p i)
  | hop {k i : Nat} {p : FrequencyPattern} (pattern_eq : pattern k = some p)
      (before_last : i + 1 < p.stops.length)
      (tail_kind : kind tail = some (.depart k i))
      (head_kind : kind head = some (.arrive k (i + 1))) :
      Joins kind pattern tail head (.hop p i (i + 1))
  | alight {k i : Nat} {p : FrequencyPattern} {s : PatternStop} (pattern_eq : pattern k = some p)
      (stop_eq : p.stops[i]? = some s) (after_first : 0 < i)
      (tail_kind : kind tail = some (.arrive k i)) (head_kind : kind head = some (.stop s.stop)) :
      Joins kind pattern tail head (.alight p i)
  | dwell {k i : Nat} {p : FrequencyPattern} (pattern_eq : pattern k = some p)
      (after_first : 0 < i) (before_last : i + 1 < p.stops.length)
      (tail_kind : kind tail = some (.arrive k i)) (head_kind : kind head = some (.depart k i)) :
      Joins kind pattern tail head (.dwell p i)
  | timedTransfer {a b : StopId} (tail_kind : kind tail = some (.stop a))
      (head_kind : kind head = some (.stop b)) : Joins kind pattern tail head .timedTransfer
  | street {street : Street} {a b : VertexKind} (tail_kind : kind tail = some a)
      (tail_ground : a.isGround = true) (head_kind : kind head = some b)
      (head_ground : b.isGround = true)
      (length_eq : 0.0 ≤ street.length ∨ ∃ x y : Point, street.length = x.distance y) :
      Joins kind pattern tail head (.street street)

variable {kind kind' : VertexId → Option VertexKind}
  {pattern pattern' : Nat → Option FrequencyPattern}

theorem Link.Joins.mono {tail head : VertexId} {link : Link}
    (h : link.Joins kind pattern tail head)
    (hk : ∀ v κ, kind v = some κ → kind' v = some κ)
    (hp : ∀ k p, pattern k = some p → pattern' k = some p) :
    link.Joins kind' pattern' tail head := by
  cases h with
  | board h₁ h₂ h₃ h₄ h₅ => exact .board (hp _ _ h₁) h₂ h₃ (hk _ _ h₄) (hk _ _ h₅)
  | hop h₁ h₂ h₃ h₄ => exact .hop (hp _ _ h₁) h₂ (hk _ _ h₃) (hk _ _ h₄)
  | alight h₁ h₂ h₃ h₄ h₅ => exact .alight (hp _ _ h₁) h₂ h₃ (hk _ _ h₄) (hk _ _ h₅)
  | dwell h₁ h₂ h₃ h₄ h₅ => exact .dwell (hp _ _ h₁) h₂ h₃ (hk _ _ h₄) (hk _ _ h₅)
  | timedTransfer h₁ h₂ => exact .timedTransfer (hk _ _ h₁) (hk _ _ h₂)
  | street h₁ h₂ h₃ h₄ h₅ => exact .street (hk _ _ h₁) h₂ (hk _ _ h₃) h₄ h₅

namespace Draft

/-- The kind of a vertex. -/
def kindOf? (d : Draft) (v : VertexId) : Option VertexKind := d.vertices[v]?.map (·.kind)

/-- The pattern at a position. -/
def patternAt? (d : Draft) (k : Nat) : Option FrequencyPattern := d.patterns[k]?

/-- What holds of every draft that a description builds. -/
structure Wired (d : Draft) : Prop where
  edge_id : ∀ (i : Nat) (e : Edge), d.edges[i]? = some e → e.id = i
  joins : ∀ e ∈ d.edges, e.link.Joins d.kindOf? d.patternAt? e.tail e.head
  stop_kind : ∀ (text : String) v, d.stops[text]? = some v →
    ∃ stop : StopId, stop.text = text ∧ d.kindOf? v = some (.stop stop)
  trip_label : ∀ k p, d.patternAt? k = some p →
    d.labels.contains (onBoardLabel p.trip.id 0 "arrive") = true
  trip_inj : ∀ k l p q, d.patternAt? k = some p → d.patternAt? l = some q →
    p.trip.id = q.trip.id → k = l

/-- No vertex is on board yet, and labels name vertices. -/
structure OnGround (d : Draft) : Prop where
  ground : ∀ v κ, d.kindOf? v = some κ → κ.isGround = true
  label_lt : ∀ (label : String) v, d.labels[label]? = some v → v < d.vertices.size

/-- One draft has become another by new vertices alone. -/
structure Grown (d d' : Draft) : Prop where
  edges_eq : d'.edges = d.edges
  patterns_eq : d'.patterns = d.patterns
  stops_eq : d'.stops = d.stops
  calendar_eq : d'.calendar = d.calendar
  kept : ∀ v κ, d.kindOf? v = some κ → d'.kindOf? v = some κ
  label_kept : ∀ label, d.labels.contains label = true → d'.labels.contains label = true

variable {d d' : Draft}

theorem Grown.refl (d : Draft) : d.Grown d :=
  ⟨rfl, rfl, rfl, rfl, fun _ _ h => h, fun _ h => h⟩

theorem Grown.trans {d'' : Draft} (h : d.Grown d') (h' : d'.Grown d'') : d.Grown d'' :=
  ⟨h'.edges_eq.trans h.edges_eq, h'.patterns_eq.trans h.patterns_eq, h'.stops_eq.trans h.stops_eq,
    h'.calendar_eq.trans h.calendar_eq, fun v κ hv => h'.kept v κ (h.kept v κ hv),
    fun l hl => h'.label_kept l (h.label_kept l hl)⟩

theorem kindOf?_withVertex (d : Draft) (label : String) (κ : VertexKind) (point : Point)
    (v : VertexId) :
    (d.withVertex label κ point).kindOf? v =
      if v = d.vertices.size then some κ else d.kindOf? v := by
  unfold kindOf? withVertex
  rw [Array.getElem?_push]
  split_ifs <;> rfl

theorem lt_of_kindOf? {v : Nat} {κ : VertexKind} (h : d.kindOf? v = some κ) :
    v < d.vertices.size := by
  unfold kindOf? at h
  obtain ⟨x, hx, -⟩ := Option.map_eq_some_iff.mp h
  exact (Array.getElem?_eq_some_iff.mp hx).1

theorem exists_kindOf? {v : Nat} (h : v < d.vertices.size) : ∃ κ, d.kindOf? v = some κ :=
  ⟨_, by unfold kindOf?; rw [Array.getElem?_eq_getElem h]; rfl⟩

theorem grown_withVertex (d : Draft) (label : String) (κ : VertexKind) (point : Point) :
    d.Grown (d.withVertex label κ point) := by
  refine ⟨rfl, rfl, rfl, rfl, fun v κ' h => ?_, fun l h => ?_⟩
  · rw [kindOf?_withVertex, if_neg (Nat.ne_of_lt (lt_of_kindOf? h)), h]
  · show (d.labels.insert label d.vertices.size).contains l = true
    rw [Std.TreeMap.contains_insert, h, Bool.or_true]

theorem Wired.grown (hd : d.Wired) (h : d.Grown d') : d'.Wired := by
  have hp : d'.patternAt? = d.patternAt? := by
    funext k
    unfold patternAt?
    rw [h.patterns_eq]
  refine ⟨?_, ?_, ?_, ?_, ?_⟩
  · rw [h.edges_eq]
    exact hd.edge_id
  · rw [h.edges_eq, hp]
    exact fun e he => (hd.joins e he).mono h.kept fun _ _ hk => hk
  · rw [h.stops_eq]
    intro text v hv
    obtain ⟨stop, hs, hκ⟩ := hd.stop_kind text v hv
    exact ⟨stop, hs, h.kept v _ hκ⟩
  · rw [hp]
    exact fun k p hk => h.label_kept _ (hd.trip_label k p hk)
  · rw [hp]
    exact hd.trip_inj

theorem OnGround.withVertex (hd : d.OnGround) (label : String) {κ : VertexKind} (point : Point)
    (hκ : κ.isGround = true) : (d.withVertex label κ point).OnGround := by
  constructor
  · intro v κ' h
    rw [kindOf?_withVertex] at h
    split_ifs at h with hv
    · exact Option.some.inj h ▸ hκ
    · exact hd.ground v κ' h
  · intro l v h
    have h' : (d.labels.insert label d.vertices.size)[l]? = some v := h
    rw [Std.TreeMap.getElem?_insert] at h'
    show v < (d.vertices.push _).size
    rw [Array.size_push]
    split_ifs at h' with hl
    · exact Option.some.inj h' ▸ Nat.lt_succ_self _
    · exact Nat.lt_succ_of_lt (hd.label_lt l v h')

/-! ## Ground vertices and streets -/

theorem Wired.addVertex {label : String} {κ : VertexKind} {point : Point} {v : VertexId}
    (h : (addVertex label κ point).Gives d v d') (hd : d.Wired) : d'.Wired := by
  obtain ⟨-, -, rfl⟩ := gives_addVertex.mp h
  exact hd.grown (grown_withVertex d label κ point)

theorem gives_addStop {stop : StopId} {point : Point} {v : VertexId}
    (h : (addStop stop point).Gives d v d') :
    d.stops.contains stop.text = false ∧ d.labels.contains stop.text = false ∧
      d' = { d.withVertex stop.text (.stop stop) point with
        stops := d.stops.insert stop.text d.vertices.size } := by
  unfold Draft.addStop at h
  rw [Step.gives_get_bind] at h
  cases hs : d.stops.contains stop.text with
  | true =>
    rw [hs, if_pos rfl] at h
    simp only [Step.gives_throw, Step.gives_bind, false_and, exists_false] at h
  | false =>
    rw [hs, if_neg Bool.false_ne_true] at h
    simp only [Step.gives_bind, Step.gives_pure, Step.gives_modify, gives_addVertex] at h
    obtain ⟨w, _, ⟨hlabel, rfl, rfl⟩, _, _, rfl, -, rfl⟩ := h
    exact ⟨rfl, hlabel, rfl⟩

theorem Wired.addStop {stop : StopId} {point : Point} {v : VertexId}
    (h : (Draft.addStop stop point).Gives d v d') (hd : d.Wired) : d'.Wired := by
  obtain ⟨-, -, rfl⟩ := gives_addStop h
  have hw := hd.grown (grown_withVertex d stop.text (.stop stop) point)
  refine ⟨hw.edge_id, hw.joins, ?_, hw.trip_label, hw.trip_inj⟩
  intro text v hv
  have hv' : (d.stops.insert stop.text d.vertices.size)[text]? = some v := hv
  rw [Std.TreeMap.getElem?_insert] at hv'
  split_ifs at hv' with ht
  · refine ⟨stop, Std.LawfulEqCmp.eq_of_compare ht, ?_⟩
    show (d.withVertex stop.text (.stop stop) point).kindOf? v = _
    rw [kindOf?_withVertex, if_pos (Option.some.inj hv').symm]
  · exact hw.stop_kind text v hv'

theorem OnGround.addStop {stop : StopId} {point : Point} {v : VertexId}
    (h : (Draft.addStop stop point).Gives d v d') (hd : d.OnGround) : d'.OnGround := by
  obtain ⟨-, -, rfl⟩ := gives_addStop h
  have hg := hd.withVertex stop.text point (κ := .stop stop) rfl
  exact ⟨hg.ground, hg.label_lt⟩

theorem Wired.withEdge (hd : d.Wired) {tail head : VertexId} {link : Link}
    (h : link.Joins d.kindOf? d.patternAt? tail head) : (d.withEdge tail head link).Wired := by
  refine ⟨?_, ?_, hd.stop_kind, hd.trip_label, hd.trip_inj⟩
  · intro i e he
    have he' : (d.edges.push ⟨d.edges.size, tail, head, link⟩)[i]? = some e := he
    rw [Array.getElem?_push] at he'
    split_ifs at he' with hi
    · rw [← Option.some.inj he', hi]
    · exact hd.edge_id i e he'
  · intro e he
    rcases Array.mem_push.mp he with he | rfl
    · exact hd.joins e he
    · exact h

theorem Wired.withEdges {links : List (VertexId × VertexId × Link)} : ∀ {d : Draft}, d.Wired →
    (∀ x ∈ links, x.2.2.Joins d.kindOf? d.patternAt? x.1 x.2.1) → (d.withEdges links).Wired := by
  induction links with
  | nil => exact fun hd _ => hd
  | cons x rest ih =>
    exact fun hd h => ih (hd.withEdge (h x List.mem_cons_self)) fun y hy =>
      h y (List.mem_cons_of_mem x hy)

theorem gives_streetLength {tail head : VertexId} {given : Option Float} {length : Float}
    (h : (streetLength tail head given).Gives d length d') :
    d' = d ∧ (0.0 ≤ length ∨ ∃ x y : Point, length = x.distance y) := by
  unfold streetLength at h
  cases given with
  | some given =>
    by_cases hg : given ≥ 0.0
    · simp only [if_pos hg, Step.gives_pure] at h
      obtain ⟨rfl, rfl⟩ := h
      exact ⟨rfl, .inl hg⟩
    · simp only [if_neg hg, Step.gives_throw] at h
  | none =>
    simp only [Step.gives_bind, Step.gives_pure, gives_pointOf] at h
    obtain ⟨x, _, ⟨-, rfl⟩, y, _, ⟨-, rfl⟩, rfl, rfl⟩ := h
    exact ⟨rfl, .inr ⟨x, y, rfl⟩⟩

/-- The edges of a street: one, or one for each way. -/
def streetLinks (tail head : VertexId) (street : Street) (bothWays : Bool) :
    List (VertexId × VertexId × Link) :=
  (tail, head, .street street) :: if bothWays then [(head, tail, .street street)] else []

theorem gives_addStreet_eq {tail head : VertexId} {name : String} {length : Option Float}
    {modes : ModeSet} {bothWays : Bool} {edges : List EdgeId}
    (h : (addStreet tail head name length modes bothWays).Gives d edges d') :
    ∃ len, (streetLength tail head length).Gives d len d ∧
      d' = d.withEdges (streetLinks tail head ⟨name, len, modes⟩ bothWays) := by
  unfold Draft.addStreet at h
  simp only [Step.gives_bind, gives_addEdge] at h
  obtain ⟨len, d₁, h₁, _, d₂, ⟨-, rfl⟩, h⟩ := h
  obtain ⟨rfl, -⟩ := gives_streetLength h₁
  refine ⟨len, h₁, ?_⟩
  cases bothWays with
  | false =>
    simp only [Bool.false_eq_true, if_false, Step.gives_pure] at h
    exact h.2.symm
  | true =>
    simp only [if_true, Step.gives_bind, Step.gives_pure, gives_addEdge] at h
    obtain ⟨_, d₃, ⟨-, rfl⟩, -, rfl⟩ := h
    rfl

/-- A street is an edge, or one for each way. -/
theorem gives_addStreet {tail head : VertexId} {name : String} {length : Option Float}
    {modes : ModeSet} {bothWays : Bool} {edges : List EdgeId}
    (h : (addStreet tail head name length modes bothWays).Gives d edges d') :
    ∃ street links, (0.0 ≤ street.length ∨ ∃ x y : Point, street.length = x.distance y) ∧
      d' = d.withEdges links ∧ ∀ x ∈ links, x.2.2 = .street street ∧
        (x.1 = tail ∧ x.2.1 = head ∨ x.1 = head ∧ x.2.1 = tail) := by
  obtain ⟨len, hlen, rfl⟩ := gives_addStreet_eq h
  refine ⟨⟨name, len, modes⟩, _, (gives_streetLength hlen).2, rfl, ?_⟩
  cases bothWays <;> simp [streetLinks]

theorem Wired.addStreet {tail head : VertexId} {name : String} {length : Option Float}
    {modes : ModeSet} {bothWays : Bool} {edges : List EdgeId}
    (h : (addStreet tail head name length modes bothWays).Gives d edges d') (hd : d.Wired)
    (hg : d.OnGround) (ht : tail < d.vertices.size) (hh : head < d.vertices.size) :
    d'.Wired ∧ d'.OnGround := by
  obtain ⟨street, links, hlen, rfl, hlinks⟩ := gives_addStreet h
  obtain ⟨a, ha⟩ := exists_kindOf? ht
  obtain ⟨b, hb⟩ := exists_kindOf? hh
  refine ⟨hd.withEdges ?_, ?_⟩
  · rintro ⟨v, w, link⟩ hx
    obtain ⟨rfl, ⟨rfl, rfl⟩ | ⟨rfl, rfl⟩⟩ := hlinks _ hx
    · exact .street ha (hg.ground _ _ ha) hb (hg.ground _ _ hb) hlen
    · exact .street hb (hg.ground _ _ hb) ha (hg.ground _ _ ha) hlen
  · rw [withEdges_eq]
    exact ⟨hg.ground, hg.label_lt⟩

/-! ## Patterns -/

/-- Platforms stand at the stops from a position on, with their on-board vertices. -/
structure Platforms (d : Draft) (k i : Nat) (stops : List VertexId) (platforms : List Platform) :
    Prop where
  stop_eq : platforms.map (·.stop) = stops
  arrive_kind : ∀ m pl, platforms[m]? = some pl → d.kindOf? pl.arrive = some (.arrive k (i + m))
  depart_kind : ∀ m pl, platforms[m]? = some pl → d.kindOf? pl.depart = some (.depart k (i + m))

/-- The two vertices of a stop of a pattern are new, and so are their labels. -/
theorem gives_addOnBoard_eq {trip : TripId} {k i : Nat} {stop arrive depart : VertexId}
    (h : (addOnBoard trip k i stop).Gives d (arrive, depart) d') :
    arrive = d.vertices.size ∧ depart = d.vertices.size + 1 ∧ ∃ point,
      d.labels.contains (onBoardLabel trip i "arrive") = false ∧
      (d.withVertex (onBoardLabel trip i "arrive") (.arrive k i) point).labels.contains
        (onBoardLabel trip i "depart") = false ∧
      d' = (d.withVertex (onBoardLabel trip i "arrive") (.arrive k i) point).withVertex
        (onBoardLabel trip i "depart") (.depart k i) point := by
  unfold addOnBoard at h
  simp only [Step.gives_bind, gives_pointOf, gives_addVertex, Step.gives_pure] at h
  obtain ⟨point, _, ⟨-, rfl⟩, _, _, ⟨ha, rfl, rfl⟩, _, _, ⟨hd, rfl, rfl⟩, heq, rfl⟩ := h
  obtain ⟨rfl, rfl⟩ := Prod.mk.inj heq
  exact ⟨rfl, Array.size_push _, point, ha, hd, rfl⟩

theorem gives_addOnBoard {trip : TripId} {k i : Nat} {stop : VertexId} {arrive depart : VertexId}
    (h : (addOnBoard trip k i stop).Gives d (arrive, depart) d') :
    d.Grown d' ∧ d'.kindOf? arrive = some (.arrive k i) ∧ d'.kindOf? depart = some (.depart k i) ∧
      d.labels.contains (onBoardLabel trip i "arrive") = false ∧
      d'.labels.contains (onBoardLabel trip i "arrive") = true := by
  obtain ⟨rfl, rfl, point, hl, -, rfl⟩ := gives_addOnBoard_eq h
  have h₁ := d.grown_withVertex (onBoardLabel trip i "arrive") (.arrive k i) point
  have h₂ := (d.withVertex (onBoardLabel trip i "arrive") (.arrive k i) point).grown_withVertex
    (onBoardLabel trip i "depart") (.depart k i) point
  refine ⟨h₁.trans h₂, h₂.kept _ _ ?_, ?_, hl, h₂.label_kept _ ?_⟩
  · rw [kindOf?_withVertex, if_pos rfl]
  · rw [kindOf?_withVertex]
    exact if_pos (Array.size_push _).symm
  · show (d.labels.insert (onBoardLabel trip i "arrive") d.vertices.size).contains _ = true
    rw [Std.TreeMap.contains_insert_self]

theorem gives_addPlatforms {trip : TripId} {k : Nat} {stops : List VertexId} :
    ∀ {i : Nat} {d d' : Draft} {platforms : List Platform},
      (addPlatforms trip k i stops).Gives d platforms d' →
        d.Grown d' ∧ d'.Platforms k i stops platforms ∧
          (stops ≠ [] → d.labels.contains (onBoardLabel trip i "arrive") = false ∧
            d'.labels.contains (onBoardLabel trip i "arrive") = true) := by
  induction stops with
  | nil =>
    intro i d d' platforms h
    unfold addPlatforms at h
    obtain ⟨rfl, rfl⟩ := Step.gives_pure.mp h
    exact ⟨.refl d, ⟨rfl, by simp, by simp⟩, by simp⟩
  | cons stop rest ih =>
    intro i d d' platforms h
    unfold addPlatforms at h
    simp only [Step.gives_bind, Step.gives_pure] at h
    obtain ⟨⟨arrive, depart⟩, d₁, h₁, others, d₂, h₂, rfl, rfl⟩ := h
    obtain ⟨hg, ha, hb, hfresh, hlabel⟩ := gives_addOnBoard h₁
    obtain ⟨hg', hp, -⟩ := ih h₂
    refine ⟨hg.trans hg', ⟨?_, ?_, ?_⟩, fun _ => ⟨hfresh, hg'.label_kept _ hlabel⟩⟩
    · rw [List.map_cons, hp.stop_eq]
    · rintro (_ | m) pl hpl
      · rw [List.getElem?_cons_zero, Option.some.injEq] at hpl
        exact hpl ▸ hg'.kept _ _ ha
      · have := hp.arrive_kind m pl hpl
        rwa [show i + 1 + m = i + (m + 1) by omega] at this
    · rintro (_ | m) pl hpl
      · rw [List.getElem?_cons_zero, Option.some.injEq] at hpl
        exact hpl ▸ hg'.kept _ _ hb
      · have := hp.depart_kind m pl hpl
        rwa [show i + 1 + m = i + (m + 1) by omega] at this

/-- The links of a pattern from a position on join its platforms. -/
theorem joins_patternLinks {p : FrequencyPattern} {k : Nat}
    {pattern : Nat → Option FrequencyPattern}
    (hk : pattern k = some p) (d : Draft) {platforms : List Platform} :
    ∀ {i : Nat}, p.stops.length = i + platforms.length →
      (∀ m pl, platforms[m]? = some pl → ∃ s, p.stops[i + m]? = some s ∧
        d.kindOf? pl.stop = some (.stop s.stop) ∧ d.kindOf? pl.arrive = some (.arrive k (i + m)) ∧
        d.kindOf? pl.depart = some (.depart k (i + m))) →
      ∀ x ∈ patternLinks p i platforms, x.2.2.Joins d.kindOf? pattern x.1 x.2.1 := by
  induction platforms with
  | nil =>
    intro i _ _ x hx
    simp [patternLinks] at hx
  | cons here rest ih =>
    intro i hlen hpl x hx
    rw [List.length_cons] at hlen
    obtain ⟨s, hs, hstop, harrive, hdepart⟩ := hpl 0 here rfl
    rw [Nat.add_zero] at hs harrive hdepart
    have hrest : ∀ m pl, rest[m]? = some pl → ∃ s, p.stops[i + 1 + m]? = some s ∧
        d.kindOf? pl.stop = some (.stop s.stop) ∧
        d.kindOf? pl.arrive = some (.arrive k (i + 1 + m)) ∧
        d.kindOf? pl.depart = some (.depart k (i + 1 + m)) := by
      intro m pl hm
      have := hpl (m + 1) pl hm
      rwa [show i + (m + 1) = i + 1 + m by omega] at this
    unfold patternLinks at hx
    simp only [List.mem_append] at hx
    rcases hx with ((hx | hx) | hx) | hx
    · cases rest with
      | nil => simp at hx
      | cons next others =>
        rw [List.length_cons] at hlen
        obtain ⟨-, -, -, hnext, -⟩ := hrest 0 next rfl
        rw [Nat.add_zero] at hnext
        simp only [List.mem_cons, List.not_mem_nil, or_false] at hx
        rcases hx with rfl | rfl
        · exact .board hk hs (by omega) hstop hdepart
        · exact .hop hk (by omega) hdepart hnext
    · split_ifs at hx with hi
      · simp at hx
      · rw [List.mem_singleton] at hx
        subst hx
        exact .alight hk hs (by omega) harrive hstop
    · split_ifs at hx with hi
      · simp at hx
      · rw [List.mem_singleton] at hx
        subst hx
        rw [not_or, List.isEmpty_iff] at hi
        have := List.length_pos_of_ne_nil hi.2
        exact .dwell hk (by omega) (by omega) harrive hdepart
    · exact ih (by omega) hrest x hx

theorem gives_vertexOfStops {stops : List PatternStop} {vs : List VertexId}
    (h : Step.Gives (stops.mapM fun s => vertexOfStop s.stop) d vs d') :
    d' = d ∧ List.Forall₂ (fun s v => d.stops[s.stop.text]? = some v) stops vs := by
  refine Step.gives_mapM (I := fun x => x = d)
    (R := fun (s : PatternStop) v => d.stops[s.stop.text]? = some v) ?_ h rfl
  rintro s - _ d₂ v hs rfl
  obtain ⟨hv, rfl⟩ := gives_vertexOfStop.mp hs
  exact ⟨rfl, hv⟩

/-- A pattern gets its platforms and links when the vertices of its stops are known. -/
theorem gives_addPattern {p : FrequencyPattern} {k : Nat} (h : (addPattern p).Gives d k d') :
    ∃ stops platforms d₁, List.Forall₂ (fun s v => d.stops[s.stop.text]? = some v) p.stops stops ∧
      (addPlatforms p.trip.id d.patterns.size 0 stops).Gives d platforms d₁ ∧
      d' = { d₁.withEdges (patternLinks p 0 platforms) with patterns := d.patterns.push p } := by
  unfold Draft.addPattern at h
  simp only [Step.gives_bind, Step.gives_get, Step.gives_modify, Step.gives_pure,
    gives_addEdges] at h
  obtain ⟨stops, d₁, h₁, _, _, ⟨rfl, rfl⟩, platforms, d₂, h₂, _, d₃, rfl, _, d₄, rfl, -, rfl⟩ := h
  obtain ⟨rfl, hstops⟩ := gives_vertexOfStops h₁
  refine ⟨stops, platforms, d₂, hstops, h₂, ?_⟩
  rw [patterns_withEdges, (gives_addPlatforms h₂).1.patterns_eq]

theorem patternAt?_push {p q : FrequencyPattern} {l : Nat}
    (h : d'.patterns = d.patterns.push p) : d'.patternAt? l = some q ↔
      (l = d.patterns.size ∧ q = p) ∨ d.patternAt? l = some q := by
  unfold patternAt?
  rw [h, Array.getElem?_push]
  split_ifs with hl
  · rw [Option.some.injEq, hl, Array.getElem?_eq_none (Nat.le_refl _)]
    simp [eq_comm]
  · simp [hl]

/-- A draft stays wired with one more pattern, when the trip of this one is new and its first label
is there. -/
theorem Wired.withPattern (hd : d.Wired) {p : FrequencyPattern}
    (hlabel : d.labels.contains (onBoardLabel p.trip.id 0 "arrive") = true)
    (hnew : ∀ l q, d.patternAt? l = some q → q.trip.id ≠ p.trip.id) :
    Wired { d with patterns := d.patterns.push p } where
  edge_id := hd.edge_id
  joins e he := (hd.joins e he).mono (fun _ _ h => h) fun _ _ h =>
    (patternAt?_push (d := d) rfl).mpr (.inr h)
  stop_kind := hd.stop_kind
  trip_label l q hq := by
    rcases (patternAt?_push (d := d) rfl).mp hq with ⟨-, rfl⟩ | hq
    · exact hlabel
    · exact hd.trip_label l q hq
  trip_inj l m q r hq hr he := by
    rcases (patternAt?_push (d := d) rfl).mp hq with ⟨rfl, rfl⟩ | hq' <;>
      rcases (patternAt?_push (d := d) rfl).mp hr with ⟨rfl, rfl⟩ | hr'
    · rfl
    · exact absurd he.symm (hnew m r hr')
    · exact absurd he (hnew l q hq')
    · exact hd.trip_inj l m q r hq' hr' he

/-- The platforms of a pattern stand at its stops. -/
theorem Wired.exists_platform {p : FrequencyPattern} {stops : List VertexId}
    {platforms : List Platform} {k : Nat} (hd : d.Wired) (hgrown : d.Grown d')
    (hpl : d'.Platforms k 0 stops platforms)
    (hstops : List.Forall₂ (fun s v => d.stops[s.stop.text]? = some v) p.stops stops) {i : Nat}
    {s : PatternStop} (hs : p.stops[i]? = some s) :
    ∃ pl, platforms[i]? = some pl ∧ d'.kindOf? pl.stop = some (.stop s.stop) := by
  obtain ⟨hi, rfl⟩ := List.getElem?_eq_some_iff.mp hs
  have hi' : i < stops.length := hstops.length_eq ▸ hi
  have hv := hstops.get hi hi'
  rw [List.get_eq_getElem, List.get_eq_getElem] at hv
  obtain ⟨stop, htext, hκ⟩ := hd.stop_kind _ _ hv
  have hat : (platforms.map (·.stop))[i]? = some stops[i] :=
    hpl.stop_eq ▸ List.getElem?_eq_getElem hi'
  rw [List.getElem?_map] at hat
  obtain ⟨pl, hpl', hstop⟩ := Option.map_eq_some_iff.mp hat
  exact ⟨pl, hpl', hgrown.kept _ _ (Identifier.ext htext ▸ hstop ▸ hκ)⟩

/-- A new pattern leaves a draft wired, and its trip is new. -/
theorem Wired.addPattern {p : FrequencyPattern} {k : Nat} (h : (addPattern p).Gives d k d')
    (hd : d.Wired) : d'.Wired := by
  obtain ⟨stops, platforms, d₁, hstops, hplatforms, rfl⟩ := gives_addPattern h
  obtain ⟨hg, hp, hfresh⟩ := gives_addPlatforms hplatforms
  have hlen : p.stops.length = platforms.length := by
    rw [hstops.length_eq, ← hp.stop_eq, List.length_map]
  obtain ⟨hnew, hlabel⟩ := hfresh fun hnil => by
    have := p.two_le_length
    rw [hstops.length_eq, hnil] at this
    simp at this
  have hw : Wired { d₁ with patterns := d₁.patterns.push p } :=
    (hd.grown hg).withPattern hlabel fun l q hq he => by
      -- an old pattern of the same trip has taken the label
      unfold patternAt? at hq
      rw [hg.patterns_eq] at hq
      have := hd.trip_label l q hq
      rw [he, hnew] at this
      cases this
  rw [← hg.patterns_eq, ← withEdges_patterns]
  refine hw.withEdges (joins_patternLinks (k := d₁.patterns.size) ?_ d₁ (by omega) ?_)
  · exact (patternAt?_push rfl).mpr (.inl ⟨rfl, rfl⟩)
  · intro m pl hm
    have hm' : m < p.stops.length := hlen ▸ (List.getElem?_eq_some_iff.mp hm).1
    have hs : p.stops[m]? = some p.stops[m] := List.getElem?_eq_getElem hm'
    obtain ⟨pl', hpl', hstop⟩ := hd.exists_platform hg hp hstops hs
    obtain rfl := Option.some.inj (hm.symm.trans hpl')
    rw [hg.patterns_eq]
    exact ⟨p.stops[m], by rw [Nat.zero_add, hs], hstop, hp.arrive_kind m pl hm,
      hp.depart_kind m pl hm⟩

end Draft

end JourneyPlanner
