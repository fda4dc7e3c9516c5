import JourneyPlanner.Proofs.Network.OnBoard

/-!
# Indices in range

Building reads lists by position: the seven days of a week when a calendar rule is expanded, the
vertices of a pattern when its edges are added, and the adjacency lists when the network is
finished. `NetworkDescription.build?` checks each of these positions and gives nothing when one is
out of range. It never does: whatever is described, also what cannot be built, it answers as
`NetworkDescription.build` does.
-/

namespace JourneyPlanner

namespace Draft

variable {α β : Type} {d d' : Draft}

/-! ## Steps that may stop at an index -/

/-- A step that gives nothing at all when it meets an index out of range. -/
abbrev Guarded := ExceptT NetworkError (StateT Draft Option)

/-- A step without indices. -/
def Step.guarded (m : Step α) : Guarded α := fun d => some (m d)

/-- A value that must be in range. -/
def inRange (value : Option α) : Guarded α := fun d => value.map fun a => (.ok a, d)

/-- A step goes on after another in the same way when what follows depends on no index that is out
of range. -/
theorem guarded_bind {m : Step α} {f : α → Guarded β} {g : α → Step β}
    (h : ∀ a d', m.Gives d a d' → f a d' = (g a).guarded d') :
    (m.guarded >>= f) d = (m >>= g).guarded d := by
  have h' : ∀ a d', m d = (.ok a, d') → f a d' = some (g a d') := h
  show (ExceptT.bind m.guarded f) d = some ((ExceptT.bind m g) d)
  unfold ExceptT.bind ExceptT.mk Step.guarded
  show (some (m d)).bind (fun x => ExceptT.bindCont f x.1 x.2) =
    some (ExceptT.bindCont g (m d).1 (m d).2)
  rw [Option.bind_some]
  rcases hm : m d with ⟨_ | a, d'⟩
  · rfl
  · exact h' a d' hm

theorem guarded_forM {f : α → Guarded Unit} {g : α → Step Unit} (h : ∀ x, f x = (g x).guarded) :
    ∀ xs : List α, xs.forM f = (xs.forM g : Step Unit).guarded := by
  intro xs
  induction xs with
  | nil => rfl
  | cons x xs ih =>
    funext d
    simp only [List.forM_eq_forM, List.forM_cons] at ih ⊢
    rw [h x]
    exact guarded_bind fun _ d' _ => congrFun ih d'

/-! ## The vertices of a pattern -/

variable {p : FrequencyPattern} {stop arrive depart : Nat → VertexId}
  {arrivals departures : List VertexId}

/-- The edges of a pattern at its stop `i`, with the vertices on board looked up by position. -/
def linksAt? (p : FrequencyPattern) (arrivals departures : List VertexId) (last : Nat)
    (stop : VertexId) (i : Nat) : Option (List (VertexId × VertexId × Link)) := do
  let ahead ← if i < last then
      pure [(stop, ← departures[i]?, .board p i),
        (← departures[i]?, ← arrivals[i + 1]?, .hop p i (i + 1))]
    else pure []
  let behind ← if 0 < i then pure [(← arrivals[i]?, stop, .alight p i)] else pure []
  let between ← if 0 < i ∧ i < last then
      pure [(← arrivals[i]?, ← departures[i]?, .dwell p i)]
    else pure []
  return ahead ++ behind ++ between

/-- The edges of a pattern at its stops from position `i` on. -/
def linksFrom? (p : FrequencyPattern) (arrivals departures : List VertexId) (last : Nat) :
    Nat → List VertexId → Option (List (VertexId × VertexId × Link))
  | _, [] => some []
  | i, stop :: rest => do
    let here ← linksAt? p arrivals departures last stop i
    return here ++ (← linksFrom? p arrivals departures last (i + 1) rest)

/-- The edges of a pattern; without a stop there is no last one. -/
def links? (p : FrequencyPattern) (stops arrivals departures : List VertexId) :
    Option (List (VertexId × VertexId × Link)) :=
  match stops.length with
  | 0 => none
  | last + 1 => linksFrom? p arrivals departures last 0 stops

theorem linksAt?_eq {last i : Nat} (hlast : p.stops.length = last + 1) (hi : i ≤ last)
    (harrive : ∀ j ≤ last, arrivals[j]? = some (arrive j))
    (hdepart : ∀ j ≤ last, departures[j]? = some (depart j)) :
    linksAt? p arrivals departures last (stop i) i = some (p.linksAt stop arrive depart i) := by
  unfold linksAt? FrequencyPattern.linksAt
  rw [hlast, harrive i hi, hdepart i hi]
  have hnext : i + 1 < last + 1 ↔ i < last := Nat.succ_lt_succ_iff
  by_cases hlt : i < last
  · rw [harrive (i + 1) hlt]
    by_cases hpos : 0 < i <;> simp [hlt, hpos]
  · by_cases hpos : 0 < i <;> simp [hlt, hpos]

theorem linksFrom?_eq {last : Nat} (hlast : p.stops.length = last + 1)
    (harrive : ∀ j ≤ last, arrivals[j]? = some (arrive j))
    (hdepart : ∀ j ≤ last, departures[j]? = some (depart j)) {stops : List VertexId} :
    ∀ {i : Nat}, i + stops.length = last + 1 → (∀ m v, stops[m]? = some v → v = stop (i + m)) →
      linksFrom? p arrivals departures last i stops =
        some ((List.range' i stops.length).flatMap (p.linksAt stop arrive depart)) := by
  induction stops with
  | nil => exact fun _ _ => rfl
  | cons v rest ih =>
    intro i hlen hstop
    rw [List.length_cons] at hlen
    obtain rfl := hstop 0 v rfl
    unfold linksFrom?
    rw [Nat.add_zero, linksAt?_eq hlast (by omega) harrive hdepart, ih (by omega) fun m v hm => by
      rw [show i + 1 + m = i + (m + 1) by omega]
      exact hstop (m + 1) v hm]
    rw [List.length_cons, List.range'_succ, List.flatMap_cons]
    rfl

/-- The vertices of a pattern are there for each of its edges. -/
theorem links?_platforms {platforms : List Platform} (hlen : p.stops.length = platforms.length) :
    links? p (platforms.map (·.stop)) (platforms.map (·.arrive)) (platforms.map (·.depart)) =
      some (patternLinks p 0 platforms) := by
  have hpos := p.two_le_length
  obtain ⟨last, hlast⟩ : ∃ last, p.stops.length = last + 1 := ⟨p.stops.length - 1, by omega⟩
  have hat (side : Platform → VertexId) : ∀ j ≤ last,
      (platforms.map side)[j]? = some (vertexAt platforms side j) := by
    intro j hj
    have hj' : j < platforms.length := by omega
    rw [List.getElem?_map, List.getElem?_eq_getElem hj', vertexAt_eq (List.getElem?_eq_getElem hj')]
    rfl
  unfold links?
  rw [List.length_map, ← hlen, hlast]
  show linksFrom? p _ _ last 0 (platforms.map (·.stop)) = _
  have hstop : ∀ m v, (platforms.map (·.stop))[m]? = some v →
      v = vertexAt platforms (·.stop) (0 + m) := by
    intro m v hm
    rw [List.getElem?_map] at hm
    obtain ⟨pl, hpl, rfl⟩ := Option.map_eq_some_iff.mp hm
    rw [Nat.zero_add, vertexAt_eq hpl]
  rw [linksFrom?_eq hlast (hat _) (hat _) (by rw [List.length_map]; omega) hstop, List.length_map,
    patternLinks_platforms hlen, List.range_eq_range', hlen]

/-- Adds a pattern, and stops where its edges need a vertex that is not there. -/
def addPattern? (p : FrequencyPattern) : Guarded Nat := do
  let stops ← (p.stops.mapM fun s => vertexOfStop s.stop : Step (List VertexId)).guarded
  let d ← (get : Step Draft).guarded
  let platforms ← (addPlatforms p.trip.id d.patterns.size 0 stops).guarded
  let links ← inRange (links? p stops (platforms.map (·.arrive)) (platforms.map (·.depart)))
  (do
    addEdges links
    modify fun d => { d with patterns := d.patterns.push p }
    return d.patterns.size : Step Nat).guarded

theorem addPattern?_eq (p : FrequencyPattern) : addPattern? p = (addPattern p).guarded := by
  funext d
  unfold addPattern? addPattern
  refine guarded_bind fun stops d₁ h₁ => guarded_bind fun d₂ _ _ =>
    guarded_bind fun platforms d₃ h₃ => ?_
  obtain ⟨-, hstops⟩ := Step.gives_mapM (I := fun _ => True) (R := fun _ _ => True)
    (fun _ _ _ _ _ _ _ => ⟨trivial, trivial⟩) h₁ trivial
  have hpl := (gives_addPlatforms h₃).2.1
  have hlen : p.stops.length = platforms.length := by
    rw [hstops.length_eq, ← hpl.stop_eq, List.length_map]
  rw [← hpl.stop_eq, links?_platforms hlen]
  rfl

/-! ## Adjacency lists -/

/-- Puts an edge at the end of the list of a vertex that must be there. -/
def pushEdge? (endpoint : Edge → VertexId) (lists : Array (List EdgeId)) (e : Edge) :
    Option (Array (List EdgeId)) := do
  let _ ← lists[endpoint e]?
  return lists.modify (endpoint e) (· ++ [e.id])

/-- The edges of each vertex, put into its list one after the other. -/
def adjacency? (d : Draft) (endpoint : Edge → VertexId) : Option (Array (List EdgeId)) :=
  d.edges.toList.foldlM (pushEdge? endpoint) (Array.replicate d.vertices.size [])

theorem foldlM_pushEdge (endpoint : Edge → VertexId) : ∀ (edges : List Edge)
    (lists : Array (List EdgeId)), (∀ e ∈ edges, endpoint e < lists.size) →
      ∃ lists', edges.foldlM (pushEdge? endpoint) lists = some lists' ∧ ∀ v : Nat,
        lists'[v]? = lists[v]?.map (· ++ (edges.filter fun e => endpoint e == v).map (·.id)) := by
  intro edges
  induction edges with
  | nil => exact fun lists _ => ⟨lists, rfl, by simp⟩
  | cons e rest ih =>
    intro lists h
    have he : pushEdge? endpoint lists e = some (lists.modify (endpoint e) (· ++ [e.id])) := by
      unfold pushEdge?
      rw [Array.getElem?_eq_getElem (h e List.mem_cons_self)]
      rfl
    obtain ⟨lists', hfold, hget⟩ := ih (lists.modify (endpoint e) (· ++ [e.id])) fun x hx => by
      rw [Array.size_modify]
      exact h x (List.mem_cons_of_mem e hx)
    refine ⟨lists', ?_, fun v => ?_⟩
    · rw [List.foldlM_cons, he]
      exact hfold
    · rw [hget v, Array.getElem?_modify]
      by_cases hv : endpoint e = v
      · rw [if_pos hv, List.filter_cons_of_pos (by simp [hv]), Option.map_map]
        congr 1
        funext ids
        simp
      · rw [if_neg hv, List.filter_cons_of_neg (by simp [hv])]

theorem adjacency?_eq {endpoint : Edge → VertexId}
    (h : ∀ e ∈ d.edges, endpoint e < d.vertices.size) :
    d.adjacency? endpoint = some (d.adjacency endpoint) := by
  obtain ⟨lists, hfold, hget⟩ := foldlM_pushEdge endpoint d.edges.toList
    (Array.replicate d.vertices.size []) fun e he => by
      rw [Array.size_replicate]
      exact h e (Array.mem_toList_iff.mp he)
  unfold adjacency?
  rw [hfold]
  refine congrArg some (Array.ext_getElem? fun v => ?_)
  rw [hget v, getElem?_adjacency, Array.getElem?_replicate]
  split_ifs
  · rw [Option.map_some, List.nil_append]
  · rfl

/-- The finished network, when each end of an edge is a vertex. -/
def toNetwork? (d : Draft) : Option Network := do
  let outgoing ← d.adjacency? (·.tail)
  let incoming ← d.adjacency? (·.head)
  return { d.toNetwork with outgoing := outgoing, incoming := incoming }

/-- Both ends of an edge are vertices. -/
def Ends (d : Draft) (e : Edge) : Prop := e.tail < d.vertices.size ∧ e.head < d.vertices.size

/-- Both ends of every edge are vertices. -/
def Closed (d : Draft) : Prop := ∀ e ∈ d.edges, d.Ends e

theorem Closed.toNetwork?_eq (hd : d.Closed) : d.toNetwork? = some d.toNetwork := by
  unfold toNetwork?
  rw [adjacency?_eq fun e he => (hd e he).1, adjacency?_eq fun e he => (hd e he).2]
  rfl

theorem Wired.closed (hd : d.Wired) : d.Closed := fun _ he => ⟨hd.tail_lt he, hd.head_lt he⟩

end Draft

namespace NetworkDescription

open Draft

/-- Adds a pattern, and stops where an index is out of range. -/
def addPattern? (p : PatternDescription) : Guarded Unit := do
  let pattern ← Step.guarded (p.pattern : Draft.Step FrequencyPattern)
  let _ ← Draft.addPattern? pattern

/-- Adds everything, and stops where an index is out of range. -/
def addAll? (d : NetworkDescription) : Guarded Unit := do
  d.stops.forM fun s => (addStop s).guarded
  d.streetVertices.forM fun v => (addStreetVertex v).guarded
  d.streets.forM fun s => (addStreet s).guarded
  d.patterns.forM addPattern?
  d.transfers.forM fun t => (addTransfer t).guarded
  d.timedTransfers.forM fun t => (addTimedTransfer t).guarded

/-- Whether each date of each calendar rule falls on one of the seven days of its week. -/
def weeksInRange (d : NetworkDescription) : Bool :=
  d.calendars.all fun c => match c.rule with
    | .ok rule => (Date.range rule.start rule.stop).all fun date => decide (date.weekday < 7)
    | .error _ => true

/-- The network that a description gives, or nothing when an index is out of range on the way. -/
def build? (d : NetworkDescription) (zones : ZoneDatabase) :
    Option (Except NetworkError Network) := do
  guard d.weeksInRange
  match d.calendar zones with
  | .error e => return .error e
  | .ok calendar =>
    match ← d.addAll?.run.run (Draft.empty calendar) with
    | (.ok (), draft) => return .ok (← draft.toNetwork?)
    | (.error e, _) => return .error e

theorem addPattern?_eq (p : PatternDescription) : addPattern? p = (addPattern p).guarded := by
  funext d
  refine guarded_bind fun pattern d' _ => ?_
  rw [Draft.addPattern?_eq]
  exact guarded_bind fun _ _ _ => rfl

theorem addAll?_eq (description : NetworkDescription) :
    description.addAll? = description.addAll.guarded := by
  funext d
  unfold addAll? addAll
  rw [guarded_forM fun _ => rfl, guarded_forM fun _ => rfl, guarded_forM fun _ => rfl,
    guarded_forM addPattern?_eq, guarded_forM fun _ => rfl, guarded_forM fun _ => rfl]
  exact guarded_bind fun _ _ _ => guarded_bind fun _ _ _ => guarded_bind fun _ _ _ =>
    guarded_bind fun _ _ _ => guarded_bind fun _ _ _ => rfl

theorem weeksInRange_eq (description : NetworkDescription) : description.weeksInRange = true := by
  have hday (date : Date) : date.weekday < 7 := by
    unfold Date.weekday
    omega
  refine List.all_eq_true.mpr fun c _ => ?_
  cases c.rule with
  | error e => rfl
  | ok rule => exact List.all_eq_true.mpr fun date _ => decide_eq_true (hday date)

/-- No index is out of range when a description is built, whether or not it can be. -/
theorem build?_eq (description : NetworkDescription) (zones : ZoneDatabase) :
    description.build? zones = some (description.build zones) := by
  unfold build? build
  rw [weeksInRange_eq, guard, if_pos rfl, pure_bind]
  cases description.calendar zones with
  | error e => rfl
  | ok calendar =>
    rw [addAll?_eq]
    show (some (description.addAll.run.run (.empty calendar)).run).bind _ = _
    rw [Option.bind_some]
    simp only [bind, Except.bind]
    rcases hr : (description.addAll.run.run (.empty calendar)).run with ⟨_ | _, draft⟩
    · rfl
    · have hw : draft.Wired :=
        wired_addAll hr ⟨wired_empty calendar, onGround_empty calendar⟩
      show (draft.toNetwork?.bind _ : Option (Except NetworkError Network)) = _
      rw [hw.closed.toNetwork?_eq]
      rfl

end NetworkDescription

end JourneyPlanner
