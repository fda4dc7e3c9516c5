import JourneyPlanner.Proofs.Failures
import JourneyPlanner.Proofs.Network.Wiring
import JourneyPlanner.Time.ZoneRule

/-!
# Built networks

A description that builds gives a network that is wired (`NetworkDescription.wired_of_build`): its
adjacency lists hold exactly the edges at each vertex, and its links join the vertices that they
are for.
-/

namespace JourneyPlanner

/-- The database with UTC alone. -/
def onlyUtc : ZoneDatabase := Zone.database [("UTC", .fixed 0)]

/-- The kind of a vertex. -/
def Network.kindOf? (n : Network) (v : VertexId) : Option VertexKind := n.vertices[v]?.map (·.kind)

/-- The pattern at a position. -/
def Network.patternAt? (n : Network) (k : Nat) : Option FrequencyPattern := n.patterns[k]?

/-- What holds of every network that a description builds. -/
structure Network.Wired (n : Network) : Prop where
  joins : ∀ e ∈ n.edges, e.link.Joins n.kindOf? n.patternAt? e.tail e.head
  trip_inj : ∀ k l p q, n.patternAt? k = some p → n.patternAt? l = some q →
    p.trip.id = q.trip.id → k = l
  edgesFrom_eq : ∀ v arriveBy,
    n.edgesFrom v arriveBy = n.edges.toList.filter fun e => e.source arriveBy == v

theorem Network.Wired.mem_edgesFrom {n : Network} (hn : n.Wired) {e : Edge} {v : VertexId}
    {arriveBy : Bool} : e ∈ n.edgesFrom v arriveBy ↔ e ∈ n.edges ∧ e.source arriveBy = v := by
  rw [hn.edgesFrom_eq, List.mem_filter, Array.mem_toList_iff, beq_iff_eq]

/-- A network stays wired whatever is measured along its edges. -/
theorem Network.Wired.withConditions {n : Network} (hn : n.Wired)
    (conditions : Std.TreeMap EdgeId (List Exposure)) :
    Network.Wired { n with conditions := conditions } :=
  ⟨hn.joins, hn.trip_inj, hn.edgesFrom_eq⟩

namespace Draft

variable {d d' : Draft}

/-! ## Adjacency -/

/-- Each list gets the edges that end at its vertex, in order. -/
theorem getElem?_foldr_modify (endpoint : Edge → VertexId) (edges : List Edge)
    (lists : Array (List EdgeId)) (v : Nat) :
    (edges.foldr (fun e lists => lists.modify (endpoint e) (e.id :: ·)) lists)[v]? =
      lists[v]?.map fun ids => (edges.filter fun e => endpoint e == v).map (·.id) ++ ids := by
  induction edges with
  | nil => simp
  | cons e rest ih =>
    rw [List.foldr_cons, Array.getElem?_modify, ih]
    by_cases h : endpoint e = v
    · rw [if_pos h, List.filter_cons_of_pos (by simp [h]), Option.map_map]
      rfl
    · rw [if_neg h, List.filter_cons_of_neg (by simp [h])]

theorem getElem?_adjacency (d : Draft) (endpoint : Edge → VertexId) (v : VertexId) :
    (d.adjacency endpoint)[v]? = if v < d.vertices.size then
      some ((d.edges.toList.filter fun e => endpoint e == v).map (·.id)) else none := by
  unfold adjacency
  rw [← Array.foldr_toList, getElem?_foldr_modify, Array.getElem?_replicate]
  split_ifs
  · rw [Option.map_some, List.append_nil]
  · rfl

theorem Wired.getElem?_id (hd : d.Wired) {e : Edge} (he : e ∈ d.edges) :
    d.edges[e.id]? = some e := by
  obtain ⟨i, hi, rfl⟩ := Array.mem_iff_getElem.mp he
  rw [hd.edge_id i _ (Array.getElem?_eq_getElem hi), Array.getElem?_eq_getElem hi]

theorem Wired.tail_lt (hd : d.Wired) {e : Edge} (he : e ∈ d.edges) :
    e.tail < d.vertices.size := by
  rcases e with ⟨id, tail, head, link⟩
  cases hd.joins _ he with
  | board _ _ _ h _ => exact lt_of_kindOf? h
  | hop _ _ h _ => exact lt_of_kindOf? h
  | alight _ _ _ h _ => exact lt_of_kindOf? h
  | dwell _ _ _ h _ => exact lt_of_kindOf? h
  | timedTransfer h _ => exact lt_of_kindOf? h
  | street h _ _ _ _ => exact lt_of_kindOf? h

theorem Wired.head_lt (hd : d.Wired) {e : Edge} (he : e ∈ d.edges) :
    e.head < d.vertices.size := by
  rcases e with ⟨id, tail, head, link⟩
  cases hd.joins _ he with
  | board _ _ _ _ h => exact lt_of_kindOf? h
  | hop _ _ _ h => exact lt_of_kindOf? h
  | alight _ _ _ _ h => exact lt_of_kindOf? h
  | dwell _ _ _ _ h => exact lt_of_kindOf? h
  | timedTransfer _ h => exact lt_of_kindOf? h
  | street _ _ h _ _ => exact lt_of_kindOf? h

/-- An adjacency list holds the edges at its vertex. -/
theorem Wired.adjacent_eq (hd : d.Wired) (endpoint : Edge → VertexId)
    (hlt : ∀ e ∈ d.edges, endpoint e < d.vertices.size) (v : VertexId) :
    d.toNetwork.adjacent (d.adjacency endpoint) v =
      d.edges.toList.filter fun e => endpoint e == v := by
  have hself : ∀ es : List Edge, (∀ e ∈ es, e ∈ d.edges) →
      (es.map (·.id)).filterMap (fun e => d.edges[e]?) = es := by
    intro es hes
    induction es with
    | nil => rfl
    | cons e rest ih =>
      rw [List.map_cons, List.filterMap_cons, hd.getElem?_id (hes e List.mem_cons_self)]
      exact congrArg (e :: ·) (ih fun x hx => hes x (List.mem_cons_of_mem _ hx))
  show ((d.adjacency endpoint)[v]?.getD []).filterMap (fun e => d.edges[e]?) = _
  rw [getElem?_adjacency]
  by_cases hv : v < d.vertices.size
  · rw [if_pos hv, Option.getD_some]
    exact hself _ fun e he => Array.mem_toList_iff.mp (List.mem_of_mem_filter he)
  · rw [if_neg hv, Option.getD_none, eq_comm, List.filterMap_nil, List.filter_eq_nil_iff]
    intro e he h
    exact hv (beq_iff_eq.mp h ▸ hlt e (Array.mem_toList_iff.mp he))

theorem Wired.toNetwork (hd : d.Wired) : d.toNetwork.Wired where
  joins := hd.joins
  trip_inj := hd.trip_inj
  edgesFrom_eq := by
    rintro v (_ | _)
    · exact hd.adjacent_eq (·.tail) (fun e he => hd.tail_lt he) v
    · exact hd.adjacent_eq (·.head) (fun e he => hd.head_lt he) v

theorem wired_empty (calendar : ServiceCalendar) : (empty calendar).Wired where
  edge_id := by simp [empty]
  joins := by simp [empty]
  stop_kind := by simp [empty]
  trip_label := by simp [empty, patternAt?]
  trip_inj := by simp [empty, patternAt?]

theorem onGround_empty (calendar : ServiceCalendar) : (empty calendar).OnGround where
  ground := by simp [empty, kindOf?]
  label_lt := by simp [empty]

end Draft

/-! ## Descriptions -/

namespace NetworkDescription

open Draft

variable {d d' : Draft}

/-- The draft is wired and still on the ground. -/
def Grounded (d : Draft) : Prop := d.Wired ∧ d.OnGround

theorem grounded_addStop {s : StopDescription} {u : Unit}
    (h : (addStop s).Gives d u d') (hd : Grounded d) : Grounded d' := by
  unfold addStop at h
  simp only [Step.gives_bind] at h
  obtain ⟨_, d₁, h₁, h⟩ := h
  have hw := hd.1.addStop h₁
  have hg := hd.2.addStop h₁
  cases hp : s.parent with
  | none =>
    rw [hp] at h
    obtain ⟨-, rfl⟩ := Step.gives_pure.mp h
    exact ⟨hw, hg⟩
  | some parent =>
    rw [hp] at h
    unfold setParent at h
    obtain rfl := Step.gives_modify.mp h
    exact ⟨⟨hw.edge_id, hw.joins, hw.stop_kind, hw.trip_label, hw.trip_inj⟩,
      ⟨hg.ground, hg.label_lt⟩⟩

theorem grounded_addStreetVertex {v : StreetVertexDescription} {u : Unit}
    (h : (addStreetVertex v).Gives d u d') (hd : Grounded d) : Grounded d' := by
  unfold addStreetVertex Draft.addStreetVertex at h
  simp only [Step.gives_bind, Step.gives_pure] at h
  obtain ⟨w, d₁, h₁, -, rfl⟩ := h
  refine ⟨hd.1.addVertex h₁, ?_⟩
  obtain ⟨-, -, rfl⟩ := gives_addVertex.mp h₁
  exact hd.2.withVertex _ _ rfl

theorem grounded_addStreet {s : StreetDescription} {u : Unit}
    (h : (addStreet s).Gives d u d') (hd : Grounded d) : Grounded d' := by
  unfold addStreet at h
  simp only [Step.gives_bind, Step.gives_pure, gives_vertexNamed] at h
  obtain ⟨tail, _, ⟨ht, rfl⟩, head, _, ⟨hh, rfl⟩, _, d₁, h₁, -, rfl⟩ := h
  exact hd.1.addStreet h₁ hd.2 (hd.2.label_lt _ _ ht) (hd.2.label_lt _ _ hh)

theorem wired_addPattern {p : PatternDescription} {u : Unit}
    (h : (addPattern p).Gives d u d') (hd : d.Wired) : d'.Wired := by
  unfold addPattern at h
  simp only [Step.gives_bind, Step.gives_pure, Step.gives_lift] at h
  obtain ⟨pattern, _, ⟨-, rfl⟩, _, d₁, h₁, -, rfl⟩ := h
  exact hd.addPattern h₁

theorem wired_addTransfer {t : TransferDescription} {u : Unit}
    (h : (addTransfer t).Gives d u d') (hd : d.Wired) : d'.Wired := by
  unfold addTransfer Draft.addTransfer at h
  simp only [Step.gives_bind, Step.gives_modify, Step.gives_lift] at h
  obtain ⟨rule, _, ⟨-, rfl⟩, rfl⟩ := h
  exact ⟨hd.edge_id, hd.joins, hd.stop_kind, hd.trip_label, hd.trip_inj⟩

theorem wired_addTimedTransfer {t : TimedTransferDescription} {u : Unit}
    (h : (addTimedTransfer t).Gives d u d') (hd : d.Wired) : d'.Wired := by
  unfold addTimedTransfer Draft.addTimedTransfer at h
  simp only [Step.gives_bind, Step.gives_pure, gives_vertexOfStop, gives_addEdge] at h
  obtain ⟨_, d₁, ⟨tail, _, ⟨ht, rfl⟩, head, _, ⟨hh, rfl⟩, -, rfl⟩, -, rfl⟩ := h
  obtain ⟨a, -, ha⟩ := hd.stop_kind _ _ ht
  obtain ⟨b, -, hb⟩ := hd.stop_kind _ _ hh
  exact hd.withEdge (.timedTransfer ha hb)

theorem wired_addAll {description : NetworkDescription} {u : Unit}
    (h : description.addAll.Gives d u d') (hd : Grounded d) : d'.Wired := by
  unfold addAll at h
  simp only [Step.gives_bind] at h
  obtain ⟨_, d₁, h₁, _, d₂, h₂, _, d₃, h₃, _, d₄, h₄, _, d₅, h₅, h₆⟩ := h
  have g₁ := Step.gives_forM (I := Grounded) (fun _ _ _ _ _ => grounded_addStop) h₁ hd
  have g₂ := Step.gives_forM (I := Grounded) (fun _ _ _ _ _ => grounded_addStreetVertex) h₂ g₁
  have g₃ := Step.gives_forM (I := Grounded) (fun _ _ _ _ _ => grounded_addStreet) h₃ g₂
  have g₄ := Step.gives_forM (I := Wired) (fun _ _ _ _ _ => wired_addPattern) h₄ g₃.1
  have g₅ := Step.gives_forM (I := Wired) (fun _ _ _ _ _ => wired_addTransfer) h₅ g₄
  exact Step.gives_forM (I := Wired) (fun _ _ _ _ _ => wired_addTimedTransfer) h₆ g₅

/-- A network that a description builds is a draft to which everything has been added. -/
theorem build_eq_ok {description : NetworkDescription} {zones : ZoneDatabase} {n : Network}
    (h : description.build zones = .ok n) :
    ∃ calendar draft, description.calendar zones = .ok calendar ∧
      description.addAll.Gives (.empty calendar) () draft ∧ n = draft.toNetwork := by
  unfold build at h
  obtain ⟨calendar, hc, h⟩ := bind_eq_ok.mp h
  split at h
  · rename_i draft hr
    cases h
    exact ⟨calendar, draft, hc, hr, rfl⟩
  · cases h

theorem wired_of_build {description : NetworkDescription} {zones : ZoneDatabase} {n : Network}
    (h : description.build zones = .ok n) : n.Wired := by
  obtain ⟨calendar, draft, -, hdraft, rfl⟩ := build_eq_ok h
  exact (wired_addAll hdraft ⟨wired_empty calendar, onGround_empty calendar⟩).toNetwork

end NetworkDescription

end JourneyPlanner
