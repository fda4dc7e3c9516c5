import JourneyPlanner.Proofs.Network.Built

/-!
# How vertices are named

A draft numbers its vertices in order, and its tables of labels and stops name each vertex that has
a label or is a stop, and no other (`Draft.Named`). Every operation that a description asks for
keeps this, since no label is given twice.
-/

namespace JourneyPlanner

/-- The ends of an edge with what joins them. -/
def Edge.ends (e : Edge) : VertexId × VertexId × Link := (e.tail, e.head, e.link)

/-- The label of a vertex. -/
def Network.labelOf? (n : Network) (v : VertexId) : Option String := n.vertices[v]?.map (·.label)

namespace Draft

variable {d d' : Draft}

theorem edges_withEdges : ∀ (links : List (VertexId × VertexId × Link)) (d : Draft),
    ∃ added : List Edge, (d.withEdges links).edges.toList = d.edges.toList ++ added ∧
      added.map Edge.ends = links
  | [], d => ⟨[], (List.append_nil _).symm, rfl⟩
  | x :: rest, d => by
    obtain ⟨added, hedges, hends⟩ := edges_withEdges rest (d.withEdge x.1 x.2.1 x.2.2)
    refine ⟨⟨d.edges.size, x.1, x.2.1, x.2.2⟩ :: added, ?_, congrArg (x :: ·) hends⟩
    refine hedges.trans ?_
    show (d.edges.push _).toList ++ added = _
    rw [Array.toList_push, List.append_assoc, List.singleton_append]

/-! ## Names -/

/-- The label of a vertex. -/
def labelOf? (d : Draft) (v : VertexId) : Option String := d.vertices[v]?.map (·.label)

/-- Numbers and labels name the vertices of a draft. -/
structure Labelled (d : Draft) : Prop where
  vertex_id : ∀ (v : Nat) x, d.vertices[v]? = some x → x.id = v
  label_iff : ∀ (label : String) v, d.labels[label]? = some v ↔ d.labelOf? v = some label

/-- Numbers, labels and stops name the vertices of a draft. -/
structure Named (d : Draft) : Prop extends d.Labelled where
  stop_iff : ∀ (stop : StopId) v, d.stops[stop.text]? = some v ↔ d.kindOf? v = some (.stop stop)

theorem labelOf?_withVertex (d : Draft) (label : String) (κ : VertexKind) (point : Point)
    (v : VertexId) : (d.withVertex label κ point).labelOf? v =
      if v = d.vertices.size then some label else d.labelOf? v := by
  unfold labelOf? withVertex
  rw [Array.getElem?_push]
  split_ifs <;> rfl

theorem lt_of_labelOf? {v : VertexId} {label : String} (h : d.labelOf? v = some label) :
    v < d.vertices.size := by
  obtain ⟨x, hx, -⟩ := Option.map_eq_some_iff.mp h
  exact (Array.getElem?_eq_some_iff.mp hx).1

theorem compare_eq_iff {a b : String} : compare a b = .eq ↔ a = b :=
  ⟨Std.LawfulEqCmp.eq_of_compare, fun h => h ▸ Std.ReflCmp.compare_self⟩

theorem Labelled.withVertex (hd : d.Labelled) {label : String}
    (hfresh : d.labels.contains label = false) (κ : VertexKind) (point : Point) :
    (d.withVertex label κ point).Labelled := by
  refine ⟨fun v x h => ?_, fun l v => ?_⟩
  · have h' : (d.vertices.push ⟨d.vertices.size, label, κ, point⟩)[v]? = some x := h
    rw [Array.getElem?_push] at h'
    split_ifs at h' with hv
    · rw [← Option.some.inj h', hv]
    · exact hd.vertex_id v x h'
  · show (d.labels.insert label d.vertices.size)[l]? = some v ↔ _
    rw [Std.TreeMap.getElem?_insert, labelOf?_withVertex]
    simp only [compare_eq_iff]
    by_cases hl : label = l
    · subst hl
      rw [if_pos rfl, Option.some.injEq]
      by_cases hv : v = d.vertices.size
      · rw [if_pos hv, hv]
        simp
      · -- the label is not that of an old vertex
        rw [if_neg hv, ← hd.label_iff]
        refine ⟨fun h => absurd h.symm hv, fun h => ?_⟩
        rw [Std.TreeMap.contains_eq_isSome_getElem?, h] at hfresh
        cases hfresh
    · rw [if_neg hl, hd.label_iff]
      split_ifs with hv
      · refine ⟨fun h => absurd hv (Nat.ne_of_lt (lt_of_labelOf? h)), fun h => ?_⟩
        exact absurd (Option.some.inj h) hl
      · rfl

theorem Named.withVertex (hd : d.Named) {label : String}
    (hfresh : d.labels.contains label = false) {κ : VertexKind} (hκ : ∀ stop, κ ≠ .stop stop)
    (point : Point) : (d.withVertex label κ point).Named := by
  refine ⟨hd.toLabelled.withVertex hfresh κ point, fun stop v => ?_⟩
  show d.stops[stop.text]? = some v ↔ _
  rw [hd.stop_iff, kindOf?_withVertex]
  split_ifs with hv
  · refine ⟨fun h => absurd hv (Nat.ne_of_lt (lt_of_kindOf? h)), fun h => ?_⟩
    exact absurd (Option.some.inj h) (hκ stop)
  · rfl

theorem Named.addStop (hd : d.Named) {stop : StopId} {point : Point} {v : VertexId}
    (h : (Draft.addStop stop point).Gives d v d') : d'.Named := by
  obtain ⟨hstop, hlabel, rfl⟩ := gives_addStop h
  have hl := hd.toLabelled.withVertex hlabel (.stop stop) point
  refine ⟨⟨hl.vertex_id, hl.label_iff⟩, fun s v => ?_⟩
  show (d.stops.insert stop.text d.vertices.size)[s.text]? = some v ↔
    (d.withVertex stop.text (.stop stop) point).kindOf? v = _
  rw [Std.TreeMap.getElem?_insert, kindOf?_withVertex]
  simp only [compare_eq_iff]
  by_cases hs : stop.text = s.text
  · obtain rfl := Identifier.ext hs
    rw [if_pos rfl, Option.some.injEq]
    by_cases hv : v = d.vertices.size
    · rw [if_pos hv, hv]
      simp
    · -- no old vertex is the stop
      rw [if_neg hv, ← hd.stop_iff]
      refine ⟨fun h => absurd h.symm hv, fun h => ?_⟩
      rw [Std.TreeMap.contains_eq_isSome_getElem?, h] at hstop
      cases hstop
  · rw [if_neg hs, hd.stop_iff]
    split_ifs with hv
    · refine ⟨fun h => absurd hv (Nat.ne_of_lt (lt_of_kindOf? h)), fun h => ?_⟩
      exact absurd (congrArg Identifier.text (VertexKind.stop.inj (Option.some.inj h))) hs
    · rfl

theorem Named.addPlatforms {trip : TripId} {k : Nat} {stops : List VertexId} :
    ∀ {i : Nat} {d d' : Draft} {platforms : List Platform},
      (Draft.addPlatforms trip k i stops).Gives d platforms d' → d.Named → d'.Named := by
  induction stops with
  | nil =>
    intro i d d' platforms h hd
    obtain ⟨-, rfl⟩ := Step.gives_pure.mp h
    exact hd
  | cons stop rest ih =>
    intro i d d' platforms h hd
    unfold Draft.addPlatforms at h
    simp only [Step.gives_bind, Step.gives_pure] at h
    obtain ⟨⟨arrive, depart⟩, d₁, h₁, _, d₂, h₂, -, rfl⟩ := h
    obtain ⟨-, -, point, harrive, hdepart, rfl⟩ := gives_addOnBoard_eq h₁
    exact ih h₂ ((hd.withVertex harrive (by simp) point).withVertex hdepart (by simp) point)

theorem Named.withEdges (hd : d.Named) (links : List (VertexId × VertexId × Link)) :
    (d.withEdges links).Named := by
  rw [withEdges_eq]
  exact ⟨⟨hd.vertex_id, hd.label_iff⟩, hd.stop_iff⟩

theorem Named.addPattern {p : FrequencyPattern} {k : Nat} (h : (Draft.addPattern p).Gives d k d')
    (hd : d.Named) : d'.Named := by
  obtain ⟨_, platforms, d₁, -, hplatforms, rfl⟩ := gives_addPattern h
  have hn := (hd.addPlatforms hplatforms).withEdges (patternLinks p 0 platforms)
  exact ⟨⟨hn.vertex_id, hn.label_iff⟩, hn.stop_iff⟩

theorem named_empty (calendar : ServiceCalendar) : (empty calendar).Named where
  vertex_id := by simp [empty]
  label_iff := by simp [empty, labelOf?]
  stop_iff := by simp [empty, kindOf?]

end Draft

end JourneyPlanner
