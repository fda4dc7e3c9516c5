import JourneyPlanner.Proofs.Network.FailedSteps
import JourneyPlanner.Time.ZoneRule

/-!
# Operations on a draft

A caller may build up a draft by any sequence of operations, those that fail among them
(`Draft.after`). One that fails leaves the draft as it was, unless it is a pattern whose stops are
all known and whose first label is free: then the vertices before the first label that is taken stay
behind (`Draft.failed_operation`).
-/

namespace JourneyPlanner

/-- What a caller may ask of a draft. -/
inductive Operation where
  | streetVertex (label : String) (point : Point)
  | stop (stop : StopId) (point : Point)
  | parent (stop parent : StopId)
  | transfers (change : TransferTable → TransferTable)
  | street (tail head : VertexId) (name : String) (length : Option Float) (permission : ModeSet)
      (bothWays : Bool)
  | timedTransfer (fromStop toStop : StopId)
  | pattern (p : FrequencyPattern)

/-- The step that does what is asked, without its answer. -/
def Operation.step : Operation → Draft.Step Unit
  | .streetVertex label point => do let _ ← Draft.addStreetVertex label point
  | .stop s point => do let _ ← Draft.addStop s point
  | .parent s station => Draft.setParent s station
  | .transfers change => modify fun d => { d with transfers := change d.transfers }
  | .street tail head name length permission bothWays => do
    let _ ← Draft.addStreet tail head name length permission bothWays
  | .timedTransfer fromStop toStop => do let _ ← Draft.addTimedTransfer fromStop toStop
  | .pattern p => do let _ ← Draft.addPattern p

namespace Draft

variable {α β : Type} {d d' : Draft} {e : NetworkError}

/-- The draft after an operation, whether or not it failed. -/
def carryOut (d : Draft) (op : Operation) : Draft := (op.step.run.run d).run.2

/-- The draft after a sequence of operations. -/
def after (calendar : ServiceCalendar) (ops : List Operation) : Draft :=
  ops.foldl carryOut (empty calendar)

/-- What an empty draft has and each operation keeps holds after all of them. -/
theorem after_induction {calendar : ServiceCalendar} {I : Draft → Prop}
    (start : I (empty calendar)) (keep : ∀ d op, I d → I (d.carryOut op)) (ops : List Operation) :
    I (after calendar ops) :=
  List.foldlRecOn ops carryOut start fun d hd op _ => keep d op hd

theorem carryOut_cases (d : Draft) (op : Operation) :
    op.step.Gives d () (d.carryOut op) ∨ ∃ e, op.step.Fails d e (d.carryOut op) := by
  rcases op.step.gives_or_fails d with ⟨_, d', h⟩ | ⟨e, d', h⟩
  · have hd : d.carryOut op = d' := congrArg Prod.snd h
    exact .inl (hd ▸ h)
  · have hd : d.carryOut op = d' := congrArg Prod.snd h
    exact .inr ⟨e, hd ▸ h⟩

theorem Step.fails_discard {m : Step α} :
    Step.Fails (do let _ ← m : Step Unit) d e d' ↔ m.Fails d e d' := by
  simp only [fails_bind, not_fails_pure, and_false, exists_false, or_false]

theorem Step.gives_discard {m : Step α} {u : Unit} :
    Step.Gives (do let _ ← m : Step Unit) d u d' ↔ ∃ a, m.Gives d a d' := by
  simp only [gives_bind, gives_pure, true_and]
  constructor
  · rintro ⟨a, _, h, rfl⟩
    exact ⟨a, h⟩
  · rintro ⟨a, h⟩
    exact ⟨a, d', h, rfl⟩

/-! ## What an operation does -/

/-- One draft has become another by these edges, and perhaps by vertices, stops, patterns and
transfer rules. -/
structure Extends (d d' : Draft) (links : List (VertexId × VertexId × Link)) : Prop where
  edges_eq : d'.edges = (d.withEdges links).edges
  size_le : d.vertices.size ≤ d'.vertices.size
  stopsInRange : d.StopsInRange → d'.StopsInRange

theorem StopsInRange.mono (hd : d.StopsInRange) (hstops : d'.stops = d.stops)
    (hsize : d.vertices.size ≤ d'.vertices.size) : d'.StopsInRange := by
  intro text v hv
  rw [hstops] at hv
  exact Nat.lt_of_lt_of_le (hd text v hv) hsize

theorem Grown.size_le (h : d.Grown d') : d.vertices.size ≤ d'.vertices.size := by
  by_contra hlt
  obtain ⟨κ, hκ⟩ := exists_kindOf? (d := d) (Nat.lt_of_not_le hlt)
  exact absurd (lt_of_kindOf? (h.kept _ _ hκ)) (Nat.lt_irrefl _)

theorem Grown.extends (h : d.Grown d') : d.Extends d' [] :=
  ⟨h.edges_eq, h.size_le, fun hd => hd.mono h.stops_eq h.size_le⟩

theorem extends_withEdges (d : Draft) (links : List (VertexId × VertexId × Link)) :
    d.Extends (d.withEdges links) links := by
  have hsize : d.vertices.size ≤ (d.withEdges links).vertices.size :=
    Nat.le_of_eq (congrArg Array.size (vertices_withEdges links d).symm)
  refine ⟨rfl, hsize, fun hd => hd.mono ?_ hsize⟩
  rw [withEdges_eq]

theorem extends_withVertices (d : Draft) (vs : List (String × VertexKind × Point)) :
    d.Extends (d.withVertices vs) [] := by
  have hsize : d.vertices.size ≤ (d.withVertices vs).vertices.size := by
    rw [size_withVertices]
    exact Nat.le_add_right _ _
  refine ⟨?_, hsize, fun hd => hd.mono ?_ hsize⟩
  · rw [withVertices_eq]
    rfl
  · rw [withVertices_eq]

theorem extends_addStop {stop : StopId} {point : Point} {v : VertexId}
    (h : (addStop stop point).Gives d v d') : d.Extends d' [] := by
  obtain ⟨-, -, rfl⟩ := gives_addStop h
  have hsize : d.vertices.size <
      (d.vertices.push ⟨d.vertices.size, stop.text, .stop stop, point⟩).size := by
    rw [Array.size_push]
    exact Nat.lt_succ_self _
  refine ⟨rfl, Nat.le_of_lt hsize, fun hd text v hv => ?_⟩
  have hv' : (d.stops.insert stop.text d.vertices.size)[text]? = some v := hv
  rw [Std.TreeMap.getElem?_insert] at hv'
  split_ifs at hv' with ht
  · exact Option.some.inj hv' ▸ hsize
  · exact Nat.lt_trans (hd text v hv') hsize

theorem forall_patternLinks {p : FrequencyPattern} {P : VertexId → Prop}
    {platforms : List Platform} :
    ∀ {i : Nat}, (∀ pl ∈ platforms, P pl.stop ∧ P pl.arrive ∧ P pl.depart) →
      ∀ x ∈ patternLinks p i platforms, P x.1 ∧ P x.2.1 := by
  induction platforms with
  | nil =>
    intro i _ x hx
    simp [patternLinks] at hx
  | cons here rest ih =>
    intro i h x hx
    obtain ⟨hstop, harrive, hdepart⟩ := h here List.mem_cons_self
    unfold patternLinks at hx
    simp only [List.mem_append] at hx
    rcases hx with ((hx | hx) | hx) | hx
    · cases rest with
      | nil => simp at hx
      | cons next others =>
        obtain ⟨-, hnext, -⟩ := h next (List.mem_cons_of_mem _ List.mem_cons_self)
        simp only [List.mem_cons, List.not_mem_nil, or_false] at hx
        rcases hx with rfl | rfl
        · exact ⟨hstop, hdepart⟩
        · exact ⟨hdepart, hnext⟩
    · split_ifs at hx
      · simp at hx
      · obtain rfl := List.mem_singleton.mp hx
        exact ⟨harrive, hstop⟩
    · split_ifs at hx
      · simp at hx
      · obtain rfl := List.mem_singleton.mp hx
        exact ⟨harrive, hdepart⟩
    · exact ih (fun pl hpl => h pl (List.mem_cons_of_mem _ hpl)) x hx

theorem edges_withEdges_congr {links : List (VertexId × VertexId × Link)} :
    ∀ {d d' : Draft}, d.edges = d'.edges →
      (d.withEdges links).edges = (d'.withEdges links).edges := by
  induction links with
  | nil => exact id
  | cons x rest ih =>
    intro d d' h
    have hnext : (d.withEdge x.1 x.2.1 x.2.2).edges = (d'.withEdge x.1 x.2.1 x.2.2).edges := by
      unfold withEdge
      rw [h]
    exact ih hnext

/-- The ends of these links are vertices. -/
def Spans (d : Draft) (links : List (VertexId × VertexId × Link)) : Prop :=
  ∀ x ∈ links, x.1 < d.vertices.size ∧ x.2.1 < d.vertices.size

theorem extends_addPattern {p : FrequencyPattern} {k : Nat} (hd : d.StopsInRange)
    (h : (addPattern p).Gives d k d') : ∃ links, d.Extends d' links ∧ d'.Spans links := by
  obtain ⟨stops, platforms, d₁, hstops, hplatforms, rfl⟩ := gives_addPattern h
  obtain ⟨hgrown, hpl, -⟩ := gives_addPlatforms hplatforms
  have hextends := d₁.extends_withEdges (patternLinks p 0 platforms)
  refine ⟨patternLinks p 0 platforms, ⟨?_, ?_, ?_⟩, ?_⟩
  · exact edges_withEdges_congr hgrown.edges_eq
  · exact Nat.le_trans hgrown.size_le hextends.size_le
  · intro hd
    exact hextends.stopsInRange (hgrown.extends.stopsInRange hd)
  · refine forall_patternLinks (P := (· < (d₁.withEdges _).vertices.size)) fun pl hmem => ?_
    obtain ⟨m, hm⟩ := List.mem_iff_getElem?.mp hmem
    have hlt (v : VertexId) (hv : v < d₁.vertices.size) :
        v < (d₁.withEdges (patternLinks p 0 platforms)).vertices.size :=
      Nat.lt_of_lt_of_le hv hextends.size_le
    refine ⟨hlt _ ?_, hlt _ (lt_of_kindOf? (hpl.arrive_kind m pl hm)),
      hlt _ (lt_of_kindOf? (hpl.depart_kind m pl hm))⟩
    -- the stop of a platform is one of those that were looked up
    have hat : stops[m]? = some pl.stop := by
      rw [← hpl.stop_eq, List.getElem?_map, hm]
      rfl
    obtain ⟨hi, hstop⟩ := List.getElem?_eq_some_iff.mp hat
    have hv := hstops.get (hstops.length_eq ▸ hi) hi
    rw [List.get_eq_getElem, List.get_eq_getElem, hstop] at hv
    exact Nat.lt_of_lt_of_le (hd _ _ hv) hgrown.size_le

/-- Whether an operation names vertices that are there, when it is one that does not look: a street
whose length is given and not refused. -/
def Anchors (d : Draft) : Operation → Prop
  | .street tail head _ (some length) _ _ =>
    length ≥ 0.0 → tail < d.vertices.size ∧ head < d.vertices.size
  | _ => True

theorem lt_of_gives_streetLength {tail head : VertexId} {len : Float}
    (h : (streetLength tail head none).Gives d len d') :
    tail < d.vertices.size ∧ head < d.vertices.size := by
  unfold streetLength at h
  simp only [Step.gives_bind, Step.gives_pure, gives_pointOf] at h
  obtain ⟨x, _, ⟨ht, rfl⟩, y, _, ⟨hh, rfl⟩, -⟩ := h
  obtain ⟨a, ha, -⟩ := Option.map_eq_some_iff.mp ht
  obtain ⟨b, hb, -⟩ := Option.map_eq_some_iff.mp hh
  exact ⟨(Array.getElem?_eq_some_iff.mp ha).1, (Array.getElem?_eq_some_iff.mp hb).1⟩

theorem spans_streetLinks {tail head : VertexId} {street : Street} {bothWays : Bool} :
    d.Spans (streetLinks tail head street bothWays) ↔
      tail < d.vertices.size ∧ head < d.vertices.size := by
  unfold Spans streetLinks
  cases bothWays <;> simp [and_comm]

/-- A street joins vertices exactly when it is anchored. -/
theorem extends_addStreet {tail head : VertexId} {name : String} {length : Option Float}
    {modes : ModeSet} {bothWays : Bool} {edges : List EdgeId}
    (h : (addStreet tail head name length modes bothWays).Gives d edges d') :
    ∃ links, d.Extends d' links ∧
      (d'.Spans links ↔ d.Anchors (.street tail head name length modes bothWays)) := by
  obtain ⟨len, hlen, rfl⟩ := gives_addStreet_eq h
  refine ⟨_, d.extends_withEdges _, ?_⟩
  rw [spans_streetLinks, vertices_withEdges]
  cases length with
  | none => exact ⟨fun _ => trivial, fun _ => lt_of_gives_streetLength hlen⟩
  | some given =>
    by_cases hg : given ≥ 0.0
    · exact ⟨fun hlt _ => hlt, fun hlt => hlt hg⟩
    · unfold streetLength at hlen
      simp only [if_neg hg, Step.gives_throw] at hlen

/-- What an operation adds joins vertices exactly when the operation is anchored. -/
theorem extends_of_gives (hd : d.StopsInRange) {op : Operation} {u : Unit}
    (h : op.step.Gives d u d') :
    ∃ links, d.Extends d' links ∧ (d'.Spans links ↔ d.Anchors op) := by
  have hnone : d'.Spans [] ↔ True := by simp [Spans]
  cases op with
  | streetVertex label point =>
    obtain ⟨v, h⟩ := Step.gives_discard.mp h
    obtain ⟨-, -, rfl⟩ := gives_addVertex.mp h
    exact ⟨[], (grown_withVertex d _ _ _).extends, hnone⟩
  | stop s point =>
    obtain ⟨v, h⟩ := Step.gives_discard.mp h
    exact ⟨[], extends_addStop h, hnone⟩
  | parent s station =>
    obtain rfl := Step.gives_modify.mp h
    exact ⟨[], ⟨rfl, Nat.le_refl _, id⟩, hnone⟩
  | transfers change =>
    obtain rfl := Step.gives_modify.mp h
    exact ⟨[], ⟨rfl, Nat.le_refl _, id⟩, hnone⟩
  | street tail head name length permission bothWays =>
    obtain ⟨edges, h⟩ := Step.gives_discard.mp h
    exact extends_addStreet h
  | timedTransfer fromStop toStop =>
    obtain ⟨e, h⟩ := Step.gives_discard.mp h
    unfold addTimedTransfer at h
    simp only [Step.gives_bind, gives_vertexOfStop, gives_addEdge] at h
    obtain ⟨tail, _, ⟨ht, rfl⟩, head, _, ⟨hh, rfl⟩, -, rfl⟩ := h
    refine ⟨_, d.extends_withEdges [(tail, head, .timedTransfer)], ?_⟩
    exact ⟨fun _ => trivial, fun _ x hx => List.mem_singleton.mp hx ▸ ⟨hd _ _ ht, hd _ _ hh⟩⟩
  | pattern p =>
    obtain ⟨k, h⟩ := Step.gives_discard.mp h
    obtain ⟨links, hextends, hspans⟩ := extends_addPattern hd h
    exact ⟨links, hextends, fun _ => trivial, fun _ => hspans⟩

/-! ## Operations that fail -/

/-- What a failed operation leaves behind. -/
theorem StopsInRange.of_fails (hd : d.StopsInRange) {op : Operation} (h : op.step.Fails d e d') :
    match op with
    | .pattern p => ∃ added, d.Refused p added e ∧ d' = d.withVertices added
    | _ => d' = d := by
  cases op with
  | streetVertex label point => exact (fails_addVertex.mp (Step.fails_discard.mp h)).2.2
  | stop s point => exact eq_of_fails_addStop (Step.fails_discard.mp h)
  | parent s station => exact absurd h Step.not_fails_modify
  | transfers change => exact absurd h Step.not_fails_modify
  | street tail head name length permission bothWays =>
    exact (eq_of_fails_streetLength (fails_addStreet.mp (Step.fails_discard.mp h))).1
  | timedTransfer fromStop toStop => exact eq_of_fails_addTimedTransfer (Step.fails_discard.mp h)
  | pattern p => exact hd.fails_addPattern.mp (Step.fails_discard.mp h)

theorem StopsInRange.extends_of_fails (hd : d.StopsInRange) {op : Operation}
    (h : op.step.Fails d e d') : d.Extends d' [] ∧ d.Anchors op := by
  have hleft := hd.of_fails h
  cases op with
  | pattern p =>
    obtain ⟨added, -, rfl⟩ := hleft
    exact ⟨d.extends_withVertices added, trivial⟩
  | street tail head name length permission bothWays =>
    obtain rfl : d' = d := hleft
    refine ⟨extends_withEdges _ [], ?_⟩
    cases length with
    | none => trivial
    | some length =>
      have hlength := (eq_of_fails_streetLength (fails_addStreet.mp (Step.fails_discard.mp h))).2
      exact fun hl => absurd hl (hlength length rfl)
  | _ =>
    obtain rfl : d' = d := hleft
    exact ⟨extends_withEdges _ [], trivial⟩

/-- Whether it fails or not, an operation extends the draft by edges that join vertices exactly when
it is anchored. -/
theorem StopsInRange.carryOut (hd : d.StopsInRange) (op : Operation) :
    ∃ links, d.Extends (d.carryOut op) links ∧ ((d.carryOut op).Spans links ↔ d.Anchors op) := by
  rcases carryOut_cases d op with h | ⟨e, h⟩
  · exact extends_of_gives hd h
  · obtain ⟨hextends, hanchors⟩ := hd.extends_of_fails h
    exact ⟨[], hextends, fun _ => hanchors, fun _ x hx => nomatch hx⟩

theorem stopsInRange_after (calendar : ServiceCalendar) (ops : List Operation) :
    (after calendar ops).StopsInRange := by
  refine after_induction (fun text v hv => ?_) (fun d op hd => ?_) ops
  · simp [empty] at hv
  · obtain ⟨links, hextends, -⟩ := hd.carryOut op
    exact hextends.stopsInRange hd

/-- However a draft was made, an operation that fails leaves it as it was, unless the operation is a
pattern. A pattern that fails leaves edges, stops, patterns and transfer rules as they were; it
leaves the vertices on board before the first one whose label is taken, which are none exactly when
a stop is not known or the first label is taken. -/
theorem failed_operation {calendar : ServiceCalendar} {ops : List Operation} {op : Operation}
    {e : NetworkError} {d' : Draft} (h : op.step.Fails (after calendar ops) e d') :
    match op with
    | .pattern p => ∃ added, (after calendar ops).Refused p added e ∧
        d' = (after calendar ops).withVertices added ∧
        (d' = after calendar ops ↔ added = []) ∧
        d'.edges = (after calendar ops).edges ∧ d'.stops = (after calendar ops).stops ∧
        d'.patterns = (after calendar ops).patterns ∧ d'.transfers = (after calendar ops).transfers
    | _ => d' = after calendar ops := by
  have hleft := (stopsInRange_after calendar ops).of_fails h
  cases op with
  | pattern p =>
    obtain ⟨added, hrefused, rfl⟩ := hleft
    refine ⟨added, hrefused, rfl, ⟨fun heq => ?_, fun hnil => hnil ▸ rfl⟩, ?_⟩
    · have hsize := size_withVertices added (after calendar ops)
      rw [heq] at hsize
      exact List.length_eq_zero_iff.mp (by omega)
    · rw [withVertices_eq]
      exact ⟨rfl, rfl, rfl, rfl⟩
  | _ => exact hleft

/-- A boat across a lake. -/
def ferry : FrequencyPattern where
  trip := ⟨⟨"ferry", by decide⟩, ⟨"lake", by decide⟩⟩
  service := 1
  mode := .ferry
  stops := [⟨⟨"jetty", by decide⟩, 0, 0, .regular, .regular, none, none, true⟩,
    ⟨⟨"island", by decide⟩, 600, 600, .regular, .regular, none, none, true⟩]
  windows := [⟨21660, 36060, 2460, true, by decide, by decide, by decide⟩]
  bikesAllowed := false
  wheelchair := true
  two_le_length := by decide
  windows_ne_nil := by decide
  ordered := by decide

/-- The stops of the boat, and a corner whose label it asks for. -/
def shore : List Operation :=
  [.stop ⟨"jetty", by decide⟩ ⟨0.0, 0.0⟩, .stop ⟨"island", by decide⟩ ⟨0.0, 0.0⟩,
    .streetVertex "ferry:0:depart" ⟨0.0, 0.0⟩]

/-- A calendar without service. -/
def noService : ServiceCalendar := ⟨.ofRule "UTC" (.fixed 0), []⟩

/-- The boat is refused as its first departure is taken, and its first arrival stays behind. -/
theorem ferry_leaves_arrival : ∃ e d',
    (Operation.pattern ferry).step.Fails (after noService shore) e d' ∧
      e.message = "invalid network description: duplicate vertex label ferry:0:depart" ∧
      (after noService shore).labels.contains "ferry:0:arrive" = false ∧
        d'.labels.contains "ferry:0:arrive" = true := by
  have hmessage :
      ((Operation.pattern ferry).step.run.run (after noService shore)).run.1.mapError
        NetworkError.message =
          .error "invalid network description: duplicate vertex label ferry:0:depart" := by
    decide +kernel
  rcases carryOut_cases (after noService shore) (.pattern ferry) with h | ⟨e, h⟩
  · unfold Step.Gives at h
    rw [h] at hmessage
    cases hmessage
  · refine ⟨e, _, h, ?_, by decide +kernel, by decide +kernel⟩
    unfold Step.Fails at h
    rw [h] at hmessage
    exact Except.error.inj hmessage

/-- What stays behind is added before the first label that is taken. -/
theorem ferry_left_halfway : ∃ e d' added,
    (Operation.pattern ferry).step.Fails (after noService shore) e d' ∧
      (after noService shore).Refused ferry added e ∧
      d' = (after noService shore).withVertices added ∧ added ≠ [] ∧
      d'.edges = (after noService shore).edges ∧
      d'.patterns = (after noService shore).patterns := by
  obtain ⟨e, d', hfails, -, hfree, htaken⟩ := ferry_leaves_arrival
  obtain ⟨added, hrefused, heq, hiff, hedges, -, hpatterns, -⟩ := failed_operation hfails
  refine ⟨e, d', added, hfails, hrefused, heq, fun hnil => ?_, hedges, hpatterns⟩
  rw [hiff.mpr hnil, hfree] at htaken
  cases htaken

end Draft

end JourneyPlanner
