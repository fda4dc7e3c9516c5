import JourneyPlanner.Proofs.Network.Indices
import JourneyPlanner.Proofs.Network.Operations

/-!
# The ends of edges

A draft is finished exactly when both ends of every edge are vertices, and then each edge stands
once in the lists of its ends. Every operation lays edges between vertices that are there, but one:
a street whose length is given is laid without a look at its ends (`Draft.accepted_edges`).
-/

namespace JourneyPlanner

/-- Edges are numbered in order, and each one stands once in the list of the vertex where it starts,
once in that of the vertex where it ends, and in no other list. -/
structure Network.EachListedOnce (n : Network) : Prop where
  edge_id : ∀ (i : Nat) e, n.edges[i]? = some e → e.id = i
  count_outgoing : ∀ e ∈ n.edges, ∀ v : VertexId,
    (n.outgoing[v]?.getD []).count e.id = if e.tail = v then 1 else 0
  count_incoming : ∀ e ∈ n.edges, ∀ v : VertexId,
    (n.incoming[v]?.getD []).count e.id = if e.head = v then 1 else 0

namespace Draft

variable {d d' : Draft}

/-- Edges are numbered in order. -/
def Numbered (d : Draft) : Prop := ∀ (i : Nat) e, d.edges[i]? = some e → e.id = i

/-- The edges that an operation adds. -/
def accepted (d : Draft) (op : Operation) : List Edge :=
  (d.carryOut op).edges.toList.drop d.edges.size

/-! ## What an operation adds -/

theorem Numbered.withEdge (hd : d.Numbered) (tail head : VertexId) (link : Link) :
    (d.withEdge tail head link).Numbered := by
  intro i e he
  unfold Draft.withEdge at he
  rw [Array.getElem?_push] at he
  split_ifs at he with hi
  · exact Option.some.inj he ▸ hi.symm
  · exact hd i e he

theorem Numbered.withEdges {links : List (VertexId × VertexId × Link)} :
    ∀ {d : Draft}, d.Numbered → (d.withEdges links).Numbered := by
  induction links with
  | nil => exact id
  | cons x rest ih =>
    intro d hd
    exact ih (hd.withEdge x.1 x.2.1 x.2.2)

theorem Extends.numbered {links : List (VertexId × VertexId × Link)} (h : d.Extends d' links)
    (hd : d.Numbered) : d'.Numbered := by
  intro i e he
  rw [h.edges_eq] at he
  exact hd.withEdges i e he

theorem numbered_after (calendar : ServiceCalendar) (ops : List Operation) :
    (after calendar ops).Numbered := by
  refine (after_induction (I := fun d => d.StopsInRange ∧ d.Numbered) ?_ ?_ ops).2
  · exact ⟨stopsInRange_after calendar [], fun i e he => by simp [empty] at he⟩
  · intro d op hd
    obtain ⟨links, hextends, -⟩ := hd.1.carryOut op
    exact ⟨hextends.stopsInRange hd.1, hextends.numbered hd.2⟩

theorem Extends.accepted {op : Operation} {links : List (VertexId × VertexId × Link)}
    (h : d.Extends (d.carryOut op) links) :
    (d.carryOut op).edges.toList = d.edges.toList ++ d.accepted op ∧
      (d.accepted op).map Edge.ends = links := by
  obtain ⟨added, hedges, hends⟩ := edges_withEdges links d
  rw [← h.edges_eq] at hedges
  have hadded : d.accepted op = added := by
    unfold Draft.accepted
    rw [hedges, ← Array.length_toList, List.drop_left]
  rw [hadded]
  exact ⟨hedges, hends⟩

theorem StopsInRange.ends_accepted (hd : d.StopsInRange) (op : Operation) :
    (∀ e ∈ d.accepted op, (d.carryOut op).Ends e) ↔ d.Anchors op := by
  obtain ⟨links, hextends, hanchors⟩ := hd.carryOut op
  obtain ⟨-, hlinks⟩ := hextends.accepted
  rw [← hanchors, ← hlinks]
  unfold Spans
  rw [List.forall_mem_map]
  rfl

/-- A draft stays closed when the operation is anchored. -/
theorem Closed.carryOut (hclosed : d.Closed) (hd : d.StopsInRange) {op : Operation}
    (hop : d.Anchors op) : (d.carryOut op).Closed := by
  intro e he
  obtain ⟨links, hextends, -⟩ := hd.carryOut op
  obtain ⟨hedges, -⟩ := hextends.accepted
  rw [← Array.mem_toList_iff, hedges, List.mem_append] at he
  rcases he with hold | hnew
  · obtain ⟨ht, hh⟩ := hclosed e (Array.mem_toList_iff.mp hold)
    exact ⟨Nat.lt_of_lt_of_le ht hextends.size_le, Nat.lt_of_lt_of_le hh hextends.size_le⟩
  · exact (hd.ends_accepted op).mpr hop e hnew

/-- A sequence of operations of which each one is anchored in the draft that it meets. -/
def AnchorsAll (d : Draft) : List Operation → Prop
  | [] => True
  | op :: rest => d.Anchors op ∧ (d.carryOut op).AnchorsAll rest

theorem closed_foldl_carryOut {ops : List Operation} :
    ∀ {d : Draft}, d.Closed → d.StopsInRange → d.AnchorsAll ops →
      (ops.foldl carryOut d).Closed := by
  induction ops with
  | nil => exact fun hclosed _ _ => hclosed
  | cons op rest ih =>
    intro d hclosed hd hops
    obtain ⟨hop, hrest⟩ := hops
    obtain ⟨links, hextends, -⟩ := hd.carryOut op
    exact ih (hclosed.carryOut hd hop) (hextends.stopsInRange hd) hrest

/-! ## Finishing -/

theorem endpoint_lt_of_foldlM {endpoint : Edge → VertexId} {edges : List Edge} :
    ∀ {lists lists' : Array (List EdgeId)}, edges.foldlM (pushEdge? endpoint) lists = some lists' →
      ∀ e ∈ edges, endpoint e < lists.size := by
  induction edges with
  | nil => exact fun _ e he => nomatch he
  | cons x rest ih =>
    intro lists lists' h e he
    rw [List.foldlM_cons] at h
    obtain ⟨next, hx, hrest⟩ := Option.bind_eq_some_iff.mp h
    obtain ⟨ids, hids, hnext⟩ := Option.bind_eq_some_iff.mp hx
    obtain rfl := Option.some.inj hnext
    have hlt := (Array.getElem?_eq_some_iff.mp hids).1
    rcases List.mem_cons.mp he with rfl | he
    · exact hlt
    · have hrest := ih hrest e he
      rwa [Array.size_modify] at hrest

theorem endpoint_lt_of_adjacency? {endpoint : Edge → VertexId} {lists : Array (List EdgeId)}
    (h : d.adjacency? endpoint = some lists) : ∀ e ∈ d.edges, endpoint e < d.vertices.size := by
  intro e he
  have hlt := endpoint_lt_of_foldlM h e (Array.mem_toList_iff.mpr he)
  rwa [Array.size_replicate] at hlt

theorem closed_of_toNetwork? {n : Network} (h : d.toNetwork? = some n) : d.Closed := by
  unfold toNetwork? at h
  obtain ⟨outgoing, hout, h⟩ := Option.bind_eq_some_iff.mp h
  obtain ⟨incoming, hin, -⟩ := Option.bind_eq_some_iff.mp h
  intro e he
  exact ⟨endpoint_lt_of_adjacency? hout e he, endpoint_lt_of_adjacency? hin e he⟩

theorem Numbered.map_id (hd : d.Numbered) :
    d.edges.toList.map (·.id) = List.range d.edges.size := by
  refine List.ext_getElem (by simp) fun i hi _ => ?_
  rw [List.length_map, Array.length_toList] at hi
  rw [List.getElem_map, List.getElem_range, Array.getElem_toList]
  exact hd i _ (Array.getElem?_eq_getElem hi)

theorem Numbered.eq_of_id (hd : d.Numbered) {e f : Edge} (he : e ∈ d.edges) (hf : f ∈ d.edges)
    (h : e.id = f.id) : e = f := by
  obtain ⟨i, hi, rfl⟩ := Array.mem_iff_getElem.mp he
  obtain ⟨j, hj, rfl⟩ := Array.mem_iff_getElem.mp hf
  rw [hd i _ (Array.getElem?_eq_getElem hi), hd j _ (Array.getElem?_eq_getElem hj)] at h
  subst h
  rfl

/-- An edge stands once in the list of its end, and in no other one. -/
theorem Numbered.count_adjacency (hd : d.Numbered) {endpoint : Edge → VertexId} {e : Edge}
    (he : e ∈ d.edges) (hlt : endpoint e < d.vertices.size) (v : VertexId) :
    ((d.adjacency endpoint)[v]?.getD []).count e.id = if endpoint e = v then 1 else 0 := by
  rw [getElem?_adjacency]
  by_cases hv : v < d.vertices.size
  · rw [if_pos hv, Option.getD_some]
    have hnodup : ((d.edges.toList.filter fun e => endpoint e == v).map (·.id)).Nodup := by
      refine List.Nodup.sublist (List.filter_sublist.map _) ?_
      rw [hd.map_id]
      exact List.nodup_range
    rw [hnodup.count]
    refine if_congr ?_ rfl rfl
    simp only [List.mem_map, List.mem_filter, Array.mem_toList_iff, beq_iff_eq]
    constructor
    · rintro ⟨f, ⟨hf, hend⟩, hid⟩
      exact hd.eq_of_id hf he hid ▸ hend
    · intro hend
      exact ⟨e, ⟨he, hend⟩, rfl⟩
  · have hne : endpoint e ≠ v := fun h => hv (h ▸ hlt)
    rw [if_neg hv, if_neg hne]
    rfl

theorem Numbered.eachListedOnce (hd : d.Numbered) (hclosed : d.Closed) :
    d.toNetwork.EachListedOnce where
  edge_id := hd
  count_outgoing _ he := hd.count_adjacency he (hclosed _ he).1
  count_incoming _ he := hd.count_adjacency he (hclosed _ he).2

/-- Whatever is asked of a draft, an operation adds only edges between vertices exactly when it is
not a street of given length with an end that is no vertex. A draft is finished exactly when all of
its edges join vertices, with each edge once in the lists of its ends; so it is after operations
that are all anchored. -/
theorem accepted_edges (calendar : ServiceCalendar) (ops : List Operation) :
    (∀ op, (∀ e ∈ (after calendar ops).accepted op, ((after calendar ops).carryOut op).Ends e) ↔
      (after calendar ops).Anchors op) ∧
    ((∃ n, (after calendar ops).toNetwork? = some n) ↔ (after calendar ops).Closed) ∧
    (∀ n, (after calendar ops).toNetwork? = some n →
      n = (after calendar ops).toNetwork ∧ n.EachListedOnce) ∧
    ((empty calendar).AnchorsAll ops →
      (after calendar ops).toNetwork? = some (after calendar ops).toNetwork) := by
  have hnumbered := numbered_after calendar ops
  refine ⟨fun op => (stopsInRange_after calendar ops).ends_accepted op, ?_, ?_, ?_⟩
  · constructor
    · rintro ⟨n, hn⟩
      exact closed_of_toNetwork? hn
    · intro hclosed
      exact ⟨_, hclosed.toNetwork?_eq⟩
  · intro n hn
    have hclosed := closed_of_toNetwork? hn
    obtain rfl := Option.some.inj (hn.symm.trans hclosed.toNetwork?_eq)
    exact ⟨rfl, hnumbered.eachListedOnce hclosed⟩
  · intro hops
    have hempty : (empty calendar).Closed := fun e he => by simp [empty] at he
    exact (closed_foldl_carryOut hempty (stopsInRange_after calendar []) hops).toNetwork?_eq

/-- A lane of ten metres. -/
def lane : Operation := .street 0 1 "lane" (some 10.0) ⟨fun m => m == .walk⟩ false

/-- The lane is accepted without its corners, and the draft cannot be finished. -/
theorem lane_without_corners : (¬ ∀ e ∈ (empty noService).accepted lane,
    ((empty noService).carryOut lane).Ends e) ∧ (after noService [lane]).toNetwork? = none := by
  have hanchors : ¬ (empty noService).Anchors lane := by
    intro h
    have hlt := (h (by decide +kernel)).1
    exact absurd hlt (by decide)
  refine ⟨fun h => hanchors ?_, ?_⟩
  · exact ((stopsInRange_after noService []).ends_accepted lane).mp h
  · have h : (after noService [lane]).toNetwork?.isNone = true := by decide +kernel
    exact Option.isNone_iff_eq_none.mp h

/-- The lane is anchored between two stops. -/
theorem lane_between_stops : ∃ n, (after noService (shore ++ [lane])).toNetwork? = some n ∧
    n.EachListedOnce ∧ n.edges.size = 1 := by
  have hanchors : (empty noService).AnchorsAll (shore ++ [lane]) := by
    refine ⟨trivial, trivial, trivial, fun _ => ?_, trivial⟩
    decide +kernel
  obtain ⟨-, -, hlisted, hfinished⟩ := accepted_edges noService (shore ++ [lane])
  exact ⟨_, hfinished hanchors, (hlisted _ (hfinished hanchors)).2, by decide +kernel⟩

end Draft

end JourneyPlanner
