import Mathlib.Data.List.Nodup
import JourneyPlanner.Proofs.Network.Indices

/-!
# Well-formed networks

The tables of a built network agree with each other (`Network.WellFormed`): numbers, labels and
stops name its vertices, its adjacency lists hold each edge once at each end, and its patterns are
laid out side by side. Search takes all of this for granted.
-/

namespace JourneyPlanner

/-- The tables of a network agree with each other. -/
structure Network.WellFormed (n : Network) : Prop where
  vertex_id : ∀ (v : Nat) x, n.vertices[v]? = some x → x.id = v
  edge_id : ∀ (i : Nat) e, n.edges[i]? = some e → e.id = i
  labels_nodup : (n.vertices.toList.map (·.label)).Nodup
  label_iff : ∀ label v, n.vertexByLabel? label = some v ↔ n.labelOf? v = some label
  stop_iff : ∀ stop v, n.stopVertex? stop = some v ↔ n.kindOf? v = some (.stop stop)
  ends_lt : ∀ e ∈ n.edges, e.tail < n.vertices.size ∧ e.head < n.vertices.size
  mem_edgesOut : ∀ e v, e ∈ n.edgesOut v ↔ e ∈ n.edges ∧ e.tail = v
  mem_edgesIn : ∀ e v, e ∈ n.edgesIn v ↔ e ∈ n.edges ∧ e.head = v
  edgesOut_ascending : ∀ v, ((n.edgesOut v).map (·.id)).Pairwise (· < ·)
  edgesIn_ascending : ∀ v, ((n.edgesIn v).map (·.id)).Pairwise (· < ·)
  trip_inj : ∀ k l p q, n.patternAt? k = some p → n.patternAt? l = some q →
    p.trip.id = q.trip.id → k = l
  on_board : ∀ v κ k, n.kindOf? v = some κ → κ.pattern? = some k → k < n.patterns.size
  laid_out : ∀ k p, n.patternAt? k = some p →
    ∃ stop arrive depart, p.LaidOut n.kindOf? n.edges k stop arrive depart

namespace Draft

variable {d d' : Draft}

theorem Labelled.nodup (hd : d.Labelled) : (d.vertices.toList.map (·.label)).Nodup := by
  rw [List.nodup_iff_getElem?_ne_getElem?]
  intro i j hij hj heq
  have hlabel (v : Nat) : (d.vertices.toList.map (·.label))[v]? = d.labelOf? v := by
    rw [List.getElem?_map, Array.getElem?_toList]
    rfl
  obtain ⟨label, hl⟩ : ∃ label, d.labelOf? j = some label :=
    ⟨_, (hlabel j).symm.trans (List.getElem?_eq_getElem hj)⟩
  rw [hlabel, hlabel, hl] at heq
  have hi := (hd.label_iff label i).mpr heq
  rw [(hd.label_iff label j).mpr hl] at hi
  exact absurd (Option.some.inj hi) (Nat.ne_of_gt hij)

theorem Wired.ascending (hd : d.Wired) (v : VertexId) (arriveBy : Bool) :
    ((d.toNetwork.edgesFrom v arriveBy).map (·.id)).Pairwise (· < ·) := by
  have hall : (d.edges.toList.map (·.id)).Pairwise (· < ·) := by
    rw [List.pairwise_iff_getElem]
    intro i j hi hj hij
    have hid (m : Nat) (hm : m < (d.edges.toList.map (·.id)).length) :
        (d.edges.toList.map (·.id))[m] = m := by
      rw [List.length_map, Array.length_toList] at hm
      rw [List.getElem_map, Array.getElem_toList]
      exact hd.edge_id m _ (Array.getElem?_eq_getElem hm)
    rwa [hid, hid]
  rw [hd.toNetwork.edgesFrom_eq]
  exact hall.sublist (List.filter_sublist.map _)

/-- A draft that is wired, named and serves its patterns is finished as a well-formed network. -/
theorem Wired.wellFormed (hd : d.Wired) (hn : d.Named) (hs : d.Served) :
    d.toNetwork.WellFormed where
  vertex_id := hn.vertex_id
  edge_id := hd.edge_id
  labels_nodup := hn.nodup
  label_iff := hn.label_iff
  stop_iff := hn.stop_iff
  ends_lt _ he := ⟨hd.tail_lt he, hd.head_lt he⟩
  mem_edgesOut e v := show e ∈ d.toNetwork.edgesFrom v false ↔ _ from hd.toNetwork.mem_edgesFrom
  mem_edgesIn e v := show e ∈ d.toNetwork.edgesFrom v true ↔ _ from hd.toNetwork.mem_edgesFrom
  edgesOut_ascending v := hd.ascending v false
  edgesIn_ascending v := hd.ascending v true
  trip_inj := hd.trip_inj
  on_board := hs.pattern_lt
  laid_out := hs.laidOut

/-- The ground of a network, before its patterns. -/
structure Early (d : Draft) : Prop where
  wired : d.Wired
  ground : d.OnGround
  named : d.Named
  no_patterns : d.patterns = #[]

/-- All that makes a draft a well-formed network. -/
structure Formed (d : Draft) : Prop where
  wired : d.Wired
  named : d.Named
  served : d.Served

theorem Early.formed (hd : d.Early) : d.Formed :=
  ⟨hd.wired, hd.named, hd.ground.served hd.no_patterns⟩

end Draft

/-! ## Descriptions -/

namespace NetworkDescription

open Draft

variable {d d' : Draft} {u : Unit}

theorem early_addStop {s : StopDescription} (h : (addStop s).Gives d u d') (hd : d.Early) :
    d'.Early := by
  have hg := grounded_addStop h ⟨hd.wired, hd.ground⟩
  unfold addStop at h
  simp only [Step.gives_bind] at h
  obtain ⟨_, d₁, h₁, h⟩ := h
  have hn := hd.named.addStop h₁
  obtain ⟨-, -, rfl⟩ := gives_addStop h₁
  cases hp : s.parent with
  | none =>
    rw [hp] at h
    obtain ⟨-, rfl⟩ := Step.gives_pure.mp h
    exact ⟨hg.1, hg.2, hn, hd.no_patterns⟩
  | some parent =>
    rw [hp] at h
    unfold setParent at h
    obtain rfl := Step.gives_modify.mp h
    exact ⟨hg.1, hg.2, ⟨⟨hn.vertex_id, hn.label_iff⟩, hn.stop_iff⟩, hd.no_patterns⟩

theorem early_addStreetVertex {v : StreetVertexDescription} (h : (addStreetVertex v).Gives d u d')
    (hd : d.Early) : d'.Early := by
  have hg := grounded_addStreetVertex h ⟨hd.wired, hd.ground⟩
  unfold addStreetVertex Draft.addStreetVertex at h
  simp only [Step.gives_bind, Step.gives_pure, gives_addVertex] at h
  obtain ⟨_, _, ⟨hfresh, -, rfl⟩, -, rfl⟩ := h
  exact ⟨hg.1, hg.2, hd.named.withVertex hfresh (by simp) v.point, hd.no_patterns⟩

theorem early_addStreet {s : StreetDescription} (h : (addStreet s).Gives d u d') (hd : d.Early) :
    d'.Early := by
  have hg := grounded_addStreet h ⟨hd.wired, hd.ground⟩
  unfold addStreet at h
  simp only [Step.gives_bind, Step.gives_pure, gives_vertexNamed] at h
  obtain ⟨_, _, ⟨-, rfl⟩, _, _, ⟨-, rfl⟩, _, d₁, h₁, -, rfl⟩ := h
  obtain ⟨street, links, -, rfl, -⟩ := gives_addStreet h₁
  exact ⟨hg.1, hg.2, hd.named.withEdges links, (patterns_withEdges links d).trans hd.no_patterns⟩

theorem formed_addPattern {p : PatternDescription} (h : (addPattern p).Gives d u d')
    (hd : d.Formed) : d'.Formed := by
  unfold addPattern at h
  simp only [Step.gives_bind, Step.gives_pure, Step.gives_lift] at h
  obtain ⟨pattern, _, ⟨-, rfl⟩, _, d₁, h₁, -, rfl⟩ := h
  exact ⟨hd.wired.addPattern h₁, hd.named.addPattern h₁, hd.served.addPattern h₁ hd.wired⟩

theorem formed_addTransfer {t : TransferDescription} (h : (addTransfer t).Gives d u d')
    (hd : d.Formed) : d'.Formed := by
  have hw := wired_addTransfer h hd.wired
  unfold addTransfer Draft.addTransfer at h
  simp only [Step.gives_bind, Step.gives_modify, Step.gives_lift] at h
  obtain ⟨rule, _, ⟨-, rfl⟩, rfl⟩ := h
  exact ⟨hw, ⟨⟨hd.named.vertex_id, hd.named.label_iff⟩, hd.named.stop_iff⟩,
    ⟨hd.served.pattern_lt, hd.served.laidOut⟩⟩

theorem formed_addTimedTransfer {t : TimedTransferDescription}
    (h : (addTimedTransfer t).Gives d u d') (hd : d.Formed) : d'.Formed := by
  have hw := wired_addTimedTransfer h hd.wired
  unfold addTimedTransfer Draft.addTimedTransfer at h
  simp only [Step.gives_bind, Step.gives_pure, gives_vertexOfStop, gives_addEdge] at h
  obtain ⟨_, d₁, ⟨tail, _, ⟨ht, rfl⟩, head, _, ⟨hh, rfl⟩, -, rfl⟩, -, rfl⟩ := h
  exact ⟨hw, hd.named.withEdges [(tail, head, .timedTransfer)],
    hd.served.addTimedTransfer hd.named ht hh⟩

theorem formed_addAll {description : NetworkDescription} (h : description.addAll.Gives d u d')
    (hd : d.Early) : d'.Formed := by
  unfold addAll at h
  simp only [Step.gives_bind] at h
  obtain ⟨_, d₁, h₁, _, d₂, h₂, _, d₃, h₃, _, d₄, h₄, _, d₅, h₅, h₆⟩ := h
  have g₁ := Step.gives_forM (I := Early) (fun _ _ _ _ _ => early_addStop) h₁ hd
  have g₂ := Step.gives_forM (I := Early) (fun _ _ _ _ _ => early_addStreetVertex) h₂ g₁
  have g₃ := Step.gives_forM (I := Early) (fun _ _ _ _ _ => early_addStreet) h₃ g₂
  have g₄ := Step.gives_forM (I := Formed) (fun _ _ _ _ _ => formed_addPattern) h₄ g₃.formed
  have g₅ := Step.gives_forM (I := Formed) (fun _ _ _ _ _ => formed_addTransfer) h₅ g₄
  exact Step.gives_forM (I := Formed) (fun _ _ _ _ _ => formed_addTimedTransfer) h₆ g₅

/-- A description that builds gives a well-formed network, and no description, whether it builds or
not, takes an index out of range. -/
theorem built_network_is_well_formed (description : NetworkDescription) (zones : ZoneDatabase) :
    description.build? zones = some (description.build zones) ∧
      ∀ n, description.build zones = .ok n → n.WellFormed := by
  refine ⟨build?_eq description zones, fun n h => ?_⟩
  obtain ⟨calendar, draft, -, hdraft, rfl⟩ := build_eq_ok h
  have hd := formed_addAll hdraft ⟨wired_empty calendar, onGround_empty calendar,
    named_empty calendar, rfl⟩
  exact hd.wired.wellFormed hd.named hd.served

end NetworkDescription

/-- A line that comes back to where it starts, with a lane and a timed transfer between its two
stops. -/
def circleLine : NetworkDescription where
  timezone := "UTC"
  calendars := [⟨1, "20240101", "20241231", CalendarRule.everyDay, [], []⟩]
  stops := [⟨⟨"A", by decide⟩, ⟨0.0, 0.0⟩, none⟩, ⟨⟨"B", by decide⟩, ⟨0.0, 0.0⟩, none⟩]
  streetVertices := []
  streets := [⟨"A", "B", "lane", some 100.0, [.walk], true⟩]
  patterns := [⟨⟨"circle", by decide⟩, ⟨"R1", by decide⟩, 1, some .bus, none, true, true,
    [⟨⟨"A", by decide⟩, "00:00:00", none, 0, 0, none, none, true⟩,
      ⟨⟨"B", by decide⟩, "00:05:00", some "00:06:00", 0, 0, none, none, true⟩,
      ⟨⟨"A", by decide⟩, "00:10:00", none, 0, 0, none, none, true⟩],
    [⟨"06:00:00", "10:00:00", 600, true⟩]⟩]
  transfers := []
  timedTransfers := [⟨⟨"B", by decide⟩, ⟨"A", by decide⟩⟩]

/-- The network of the line has eight vertices and ten edges, seven of them on board. -/
theorem circleLine_well_formed :
    circleLine.build? onlyUtc = some (circleLine.build onlyUtc) ∧
    ∃ n, circleLine.build onlyUtc = .ok n ∧ n.vertices.size = 8 ∧ n.edges.size = 10 ∧
      (touching n.kindOf? n.edges 0).length = 7 ∧ n.WellFormed := by
  obtain ⟨hindices, hformed⟩ := NetworkDescription.built_network_is_well_formed circleLine onlyUtc
  have h : ((circleLine.build onlyUtc).toOption.any fun n => n.vertices.size == 8 &&
      n.edges.size == 10 && (touching n.kindOf? n.edges 0).length == 7) = true := by
    decide +kernel
  obtain ⟨n, hn, h⟩ := (Option.any_eq_true _ _).mp h
  rw [Bool.and_eq_true, Bool.and_eq_true, beq_iff_eq, beq_iff_eq, beq_iff_eq] at h
  have hb := eq_ok_of_toOption hn
  exact ⟨hindices, n, hb, h.1.1, h.1.2, h.2, hformed n hb⟩

end JourneyPlanner
