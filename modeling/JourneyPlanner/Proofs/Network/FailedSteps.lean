import Std.Data.String.ToNat
import JourneyPlanner.Proofs.Network.Wiring

/-!
# Steps on a draft that fail

`m.Fails d e d'`: run on the draft `d`, the step `m` fails for the reason `e` and leaves `d'`. What
a step has done before it fails stays done. All operations but one look at everything they need
before they change anything; the vertices of a pattern come one after the other, up to the first
whose label is taken (`Draft.fails_addVertices`).
-/

namespace JourneyPlanner.Draft

variable {α β : Type} {d d' d'' : Draft} {e : NetworkError}

/-- Run on `d`, the step fails with `e` and leaves `d'`. -/
def Step.Fails (m : Step α) (d : Draft) (e : NetworkError) (d' : Draft) : Prop :=
  (m.run.run d).run = (.error e, d')

theorem Step.gives_or_fails (m : Step α) (d : Draft) :
    (∃ a d', m.Gives d a d') ∨ ∃ e d', m.Fails d e d' := by
  rcases h : (m.run.run d).run with ⟨e | a, d'⟩
  · exact .inr ⟨e, d', h⟩
  · exact .inl ⟨a, d', h⟩

theorem Step.Gives.not_fails {m : Step α} {a : α} (h : m.Gives d a d') : ¬ m.Fails d e d'' := by
  intro hf
  have := h.symm.trans hf
  simp at this

theorem Step.fails_bind {m : Step α} {f : α → Step β} :
    Step.Fails (m >>= f) d e d'' ↔
      m.Fails d e d'' ∨ ∃ a d', m.Gives d a d' ∧ (f a).Fails d' e d'' := by
  unfold Step.Fails Step.Gives
  rw [run_bind]
  rcases (m.run.run d).run with ⟨_ | a, d'⟩
  · simp
  · constructor
    · intro h
      exact .inr ⟨a, d', rfl, h⟩
    · rintro (h | ⟨a', d'', h, h'⟩)
      · simp at h
      · rw [Prod.mk.injEq, Except.ok.injEq] at h
        rw [h.1, h.2]
        exact h'

theorem Step.not_fails_pure {a : α} : ¬ Step.Fails (pure a) d e d' :=
  (gives_pure.mpr ⟨rfl, rfl⟩).not_fails

theorem Step.not_fails_modify {f : Draft → Draft} : ¬ Step.Fails (modify f) d e d' :=
  (gives_modify (u := ()).mpr rfl).not_fails

theorem Step.not_fails_set {s : Draft} : ¬ Step.Fails (set s) d e d' :=
  (gives_set (u := ()).mpr rfl).not_fails

theorem Step.fails_throw {e' : NetworkError} :
    Step.Fails (throw e' : Step α) d e d' ↔ e' = e ∧ d = d' := by
  show ((Except.error e', d) : Except NetworkError α × Draft) = (.error e, d') ↔ _
  rw [Prod.mk.injEq, Except.error.injEq]

theorem Step.not_fails_get : ¬ Step.Fails get d e d' :=
  (gives_get.mpr ⟨rfl, rfl⟩).not_fails

theorem Step.fails_get_bind {f : Draft → Step β} :
    Step.Fails (get >>= f) d e d' ↔ (f d).Fails d e d' := by
  rw [fails_bind]
  simp only [gives_get, not_fails_get, false_or]
  constructor
  · rintro ⟨_, _, ⟨rfl, rfl⟩, h⟩
    exact h
  · intro h
    exact ⟨d, d, ⟨rfl, rfl⟩, h⟩

/-! ## The operations -/

theorem fails_addVertex {label : String} {kind : VertexKind} {point : Point} :
    (addVertex label kind point).Fails d e d' ↔ d.labels.contains label = true ∧
      e = .invalid (.duplicateLabel label) ∧ d' = d := by
  unfold addVertex
  rw [Step.fails_get_bind]
  cases h : d.labels.contains label with
  | true =>
    rw [if_pos rfl]
    simp only [Step.fails_bind, Step.fails_throw, Step.gives_throw, false_and, exists_false,
      or_false, true_and, eq_comm]
  | false =>
    rw [if_neg Bool.false_ne_true]
    simp only [Step.fails_bind, Step.not_fails_set, Step.not_fails_pure, and_false, exists_false,
      or_false, Bool.false_eq_true, false_and]

theorem not_fails_addEdge {tail head : VertexId} {link : Link} :
    ¬ (addEdge tail head link).Fails d e d' :=
  (gives_addEdge.mpr ⟨rfl, rfl⟩).not_fails

theorem fails_pointOf {v : VertexId} : (pointOf v).Fails d e d' ↔
    d.vertices[v]? = none ∧ e = .unknownVertex v.render ∧ d' = d := by
  unfold pointOf
  rw [Step.fails_get_bind]
  cases h : d.vertices[v]? with
  | none => simp only [Step.fails_throw, true_and, eq_comm]
  | some x => simp only [Step.not_fails_pure, reduceCtorEq, false_and]

theorem fails_vertexOfStop {stop : StopId} : (vertexOfStop stop).Fails d e d' ↔
    d.stops[stop.text]? = none ∧ e = .unknownStop stop ∧ d' = d := by
  unfold vertexOfStop
  rw [Step.fails_get_bind]
  cases h : d.stops[stop.text]? with
  | none => simp only [Step.fails_throw, true_and, eq_comm]
  | some v => simp only [Step.not_fails_pure, reduceCtorEq, false_and]

theorem not_fails_addEdges {links : List (VertexId × VertexId × Link)} :
    ¬ (addEdges links).Fails d e d' :=
  (gives_addEdges (u := ()).mpr rfl).not_fails

theorem eq_of_fails_addStop {stop : StopId} {point : Point}
    (h : (addStop stop point).Fails d e d') : d' = d := by
  unfold addStop at h
  rw [Step.fails_get_bind] at h
  cases hs : d.stops.contains stop.text with
  | true =>
    rw [hs, if_pos rfl] at h
    simp only [Step.fails_bind, Step.fails_throw, Step.gives_throw, false_and, exists_false,
      or_false] at h
    exact h.2.symm
  | false =>
    rw [hs, if_neg Bool.false_ne_true] at h
    simp only [Step.fails_bind, fails_addVertex, Step.not_fails_modify, Step.not_fails_pure,
      and_false, exists_false, or_false] at h
    exact h.2.2

/-- The length of a street is found, or not, without a change; one that is given is refused when it
is negative or no number. -/
theorem eq_of_fails_streetLength {tail head : VertexId} {given : Option Float}
    (h : (streetLength tail head given).Fails d e d') :
    d' = d ∧ ∀ length, given = some length → ¬ length ≥ 0.0 := by
  unfold streetLength at h
  cases given with
  | some length =>
    by_cases hl : length ≥ 0.0
    · simp only [if_pos hl, Step.not_fails_pure] at h
    · simp only [if_neg hl, Step.fails_throw] at h
      exact ⟨h.2.symm, fun _ hlength => Option.some.inj hlength ▸ hl⟩
  | none =>
    simp only [Step.fails_bind, fails_pointOf, gives_pointOf, Step.not_fails_pure, and_false,
      exists_false, or_false] at h
    obtain h | ⟨_, _, ⟨-, rfl⟩, h⟩ := h
    · exact ⟨h.2.2, nofun⟩
    · exact ⟨h.2.2, nofun⟩

theorem fails_addStreet {tail head : VertexId} {name : String} {length : Option Float}
    {modes : ModeSet} {bothWays : Bool} :
    (addStreet tail head name length modes bothWays).Fails d e d' ↔
      (streetLength tail head length).Fails d e d' := by
  unfold addStreet
  simp only [Step.fails_bind, not_fails_addEdge, false_or]
  constructor
  · rintro (h | ⟨_, _, -, _, _, -, h⟩)
    · exact h
    · cases bothWays with
      | false => simp only [Bool.false_eq_true, if_false, Step.not_fails_pure] at h
      | true =>
        simp only [if_true, Step.fails_bind, not_fails_addEdge, Step.not_fails_pure, and_false,
          exists_false, or_false] at h
  · exact .inl

theorem eq_of_fails_addTimedTransfer {fromStop toStop : StopId}
    (h : (addTimedTransfer fromStop toStop).Fails d e d') : d' = d := by
  unfold addTimedTransfer at h
  simp only [Step.fails_bind, fails_vertexOfStop, gives_vertexOfStop, not_fails_addEdge, and_false,
    exists_false, or_false] at h
  obtain h | ⟨_, _, ⟨-, rfl⟩, h⟩ := h
  · exact h.2.2
  · exact h.2.2

/-! ## More vertices -/

/-- The draft with more vertices, each with its label, its kind and its place. -/
def withVertices (d : Draft) (vs : List (String × VertexKind × Point)) : Draft :=
  vs.foldl (fun d x => d.withVertex x.1 x.2.1 x.2.2) d

theorem withVertices_eq : ∀ (vs : List (String × VertexKind × Point)) (d : Draft),
    d.withVertices vs = { d with
      vertices := (d.withVertices vs).vertices, labels := (d.withVertices vs).labels }
  | [], _ => rfl
  | x :: rest, d => (withVertices_eq rest (d.withVertex x.1 x.2.1 x.2.2)).trans rfl

theorem size_withVertices : ∀ (vs : List (String × VertexKind × Point)) (d : Draft),
    (d.withVertices vs).vertices.size = d.vertices.size + vs.length
  | [], _ => rfl
  | x :: rest, d => by
    show ((d.withVertex x.1 x.2.1 x.2.2).withVertices rest).vertices.size = _
    rw [size_withVertices rest, List.length_cons]
    show (d.vertices.push _).size + rest.length = _
    rw [Array.size_push]
    omega

/-- Adds vertices in order. -/
def addVertices : List (String × VertexKind × Point) → Step Unit
  | [] => return
  | (label, kind, point) :: rest => do
    let _ ← addVertex label kind point
    addVertices rest

theorem contains_withVertex {label l : String} {κ : VertexKind} {point : Point} :
    (d.withVertex label κ point).labels.contains l = true ↔
      label = l ∨ d.labels.contains l = true := by
  show (d.labels.insert label d.vertices.size).contains l = true ↔ _
  rw [Std.TreeMap.contains_insert, Bool.or_eq_true, beq_iff_eq]
  exact or_congr_left ⟨Std.LawfulEqCmp.eq_of_compare, fun h => h ▸ Std.ReflCmp.compare_self⟩

/-- Vertices of different labels are added up to the first whose label is taken. -/
theorem fails_addVertices {vs : List (String × VertexKind × Point)} : ∀ {d : Draft},
    (vs.map (·.1)).Nodup → ((addVertices vs).Fails d e d' ↔
      ∃ added x rest, vs = added ++ x :: rest ∧ (∀ y ∈ added, d.labels.contains y.1 = false) ∧
        d.labels.contains x.1 = true ∧ e = .invalid (.duplicateLabel x.1) ∧
          d' = d.withVertices added) := by
  induction vs with
  | nil =>
    intro d _
    unfold addVertices
    simp [Step.not_fails_pure]
  | cons v vs ih =>
    intro d hnodup
    rw [List.map_cons, List.nodup_cons] at hnodup
    obtain ⟨label, κ, point⟩ := v
    -- the label of the first vertex does not take that of a later one
    have hlater (y : String × VertexKind × Point) (hy : y ∈ vs) :
        (d.withVertex label κ point).labels.contains y.1 = d.labels.contains y.1 := by
      have hne : label ≠ y.1 := by
        intro h
        exact hnodup.1 (List.mem_map.mpr ⟨y, hy, h.symm⟩)
      rw [Bool.eq_iff_iff, contains_withVertex]
      simp [hne]
    unfold addVertices
    simp only [Step.fails_bind, fails_addVertex, gives_addVertex]
    constructor
    · rintro (⟨hl, rfl, rfl⟩ | ⟨_, _, ⟨hl, rfl, rfl⟩, h⟩)
      · exact ⟨[], _, vs, rfl, by simp, hl, rfl, rfl⟩
      · obtain ⟨added, x, rest, rfl, hfree, htaken, rfl, rfl⟩ := (ih hnodup.2).mp h
        refine ⟨(label, κ, point) :: added, x, rest, rfl, ?_, ?_, rfl, rfl⟩
        · intro y hy
          rcases List.mem_cons.mp hy with rfl | hy
          · exact hl
          · rw [← hlater y (List.mem_append_left _ hy)]
            exact hfree y hy
        · rwa [← hlater x (List.mem_append_right _ List.mem_cons_self)]
    · rintro ⟨_ | ⟨a, added⟩, x, rest, hsplit, hfree, htaken, rfl, rfl⟩
      · obtain ⟨rfl, rfl⟩ := List.cons.inj hsplit
        exact .inl ⟨htaken, rfl, rfl⟩
      · obtain ⟨rfl, rfl⟩ := List.cons.inj hsplit
        refine .inr ⟨_, _, ⟨hfree _ List.mem_cons_self, rfl, rfl⟩, (ih hnodup.2).mpr ?_⟩
        refine ⟨added, x, rest, rfl, ?_, ?_, rfl, rfl⟩
        · intro y hy
          rw [hlater y (List.mem_append_left _ hy)]
          exact hfree y (List.mem_cons_of_mem _ hy)
        · rwa [hlater x (List.mem_append_right _ List.mem_cons_self)]

/-! ## Patterns -/

/-- The place of a stop. -/
def stopPoint? (d : Draft) (stop : StopId) : Option Point :=
  d.stops[stop.text]?.bind fun v => d.vertices[v]?.map (·.point)

/-- The vertices on board at the stops from position `i` on, when these are at the points. -/
def onBoardVertices (trip : TripId) (k : Nat) :
    Nat → List Point → List (String × VertexKind × Point)
  | _, [] => []
  | i, point :: rest =>
    (onBoardLabel trip i "arrive", .arrive k i, point) ::
      (onBoardLabel trip i "depart", .depart k i, point) :: onBoardVertices trip k (i + 1) rest

/-- The vertices that a pattern asks for when its stops are known. -/
def verticesFor (d : Draft) (p : FrequencyPattern) : List (String × VertexKind × Point) :=
  onBoardVertices p.trip.id d.patterns.size 0 (p.stops.filterMap fun s => d.stopPoint? s.stop)

theorem onBoardLabel_inj {trip : TripId} {i j : Nat} {side : String} :
    onBoardLabel trip i side = onBoardLabel trip j side ↔ i = j := by
  unfold onBoardLabel
  rw [String.append_left_inj, String.append_left_inj, String.append_right_inj]
  exact Nat.repr_inj

/-- An arrival is not named like a departure, as their labels do not end in the same letter. -/
theorem onBoardLabel_arrive_ne_depart (trip : TripId) (i j : Nat) :
    onBoardLabel trip i "arrive" ≠ onBoardLabel trip j "depart" := by
  intro h
  have hlist := congrArg String.toList h
  unfold onBoardLabel at hlist
  rw [String.toList_append, String.toList_append (t := "depart")] at hlist
  have hside := List.append_inj_right' hlist (by simp)
  simp at hside

theorem mem_onBoardVertices {trip : TripId} {k : Nat} {x : String × VertexKind × Point}
    {points : List Point} : ∀ {i : Nat}, x ∈ onBoardVertices trip k i points →
      ∃ j, i ≤ j ∧ (x.1 = onBoardLabel trip j "arrive" ∨ x.1 = onBoardLabel trip j "depart") := by
  induction points with
  | nil =>
    intro i hx
    simp [onBoardVertices] at hx
  | cons point rest ih =>
    intro i hx
    unfold onBoardVertices at hx
    rcases List.mem_cons.mp hx with rfl | hx
    · exact ⟨i, Nat.le_refl i, .inl rfl⟩
    · rcases List.mem_cons.mp hx with rfl | hx
      · exact ⟨i, Nat.le_refl i, .inr rfl⟩
      · obtain ⟨j, hj, h⟩ := ih hx
        exact ⟨j, Nat.le_of_succ_le hj, h⟩

theorem nodup_onBoardVertices {trip : TripId} {k : Nat} {points : List Point} :
    ∀ i : Nat, ((onBoardVertices trip k i points).map (·.1)).Nodup := by
  induction points with
  | nil => exact fun i => List.nodup_nil
  | cons point rest ih =>
    intro i
    have hlater (side : String) (hside : side = "arrive" ∨ side = "depart") :
        onBoardLabel trip i side ∉ (onBoardVertices trip k (i + 1) rest).map (·.1) := by
      intro h
      obtain ⟨x, hx, hlabel⟩ := List.mem_map.mp h
      obtain ⟨j, hj, h⟩ := mem_onBoardVertices hx
      have hne : i ≠ j := by omega
      rw [hlabel] at h
      rcases hside with rfl | rfl <;> rcases h with h | h
      · exact hne (onBoardLabel_inj.mp h)
      · exact onBoardLabel_arrive_ne_depart trip i j h
      · exact onBoardLabel_arrive_ne_depart trip j i h.symm
      · exact hne (onBoardLabel_inj.mp h)
    unfold onBoardVertices
    rw [List.map_cons, List.map_cons, List.nodup_cons, List.nodup_cons, List.mem_cons, not_or]
    exact ⟨⟨onBoardLabel_arrive_ne_depart trip i i, hlater _ (.inl rfl)⟩, hlater _ (.inr rfl),
      ih (i + 1)⟩

theorem point_withVertex {v : VertexId} {point p : Point} {label : String} {κ : VertexKind}
    (h : d.vertices[v]?.map (·.point) = some p) :
    (d.withVertex label κ point).vertices[v]?.map (·.point) = some p := by
  obtain ⟨x, hx, hp⟩ := Option.map_eq_some_iff.mp h
  have hlt := (Array.getElem?_eq_some_iff.mp hx).1
  show (d.vertices.push _)[v]?.map (·.point) = some p
  rw [Array.getElem?_push, if_neg (Nat.ne_of_lt hlt), h]

/-- Platforms at known places fail as their vertices do, one after the other. -/
theorem fails_addPlatforms {trip : TripId} {k : Nat} {stops : List VertexId} {points : List Point} :
    ∀ {i : Nat} {d : Draft},
      List.Forall₂ (fun (v : VertexId) p => d.vertices[v]?.map (·.point) = some p) stops points →
        ((addPlatforms trip k i stops).Fails d e d' ↔
          (addVertices (onBoardVertices trip k i points)).Fails d e d') := by
  induction stops generalizing points with
  | nil =>
    intro i d h
    obtain rfl := List.forall₂_nil_left_iff.mp h
    unfold addPlatforms onBoardVertices addVertices
    simp only [Step.not_fails_pure]
  | cons v stops ih =>
    intro i d h
    obtain ⟨point, rest, hv, hrest, rfl⟩ := List.forall₂_cons_left_iff.mp h
    have hkept : List.Forall₂ (fun (v : VertexId) p =>
        ((d.withVertex (onBoardLabel trip i "arrive") (.arrive k i) point).withVertex
          (onBoardLabel trip i "depart") (.depart k i) point).vertices[v]?.map (·.point) = some p)
        stops rest := hrest.imp fun _ _ h => point_withVertex (point_withVertex h)
    have hknown : d.vertices[v]? ≠ none := by
      intro hnone
      rw [hnone] at hv
      cases hv
    unfold addPlatforms addOnBoard onBoardVertices addVertices addVertices
    simp only [Step.fails_bind, Step.gives_bind, gives_pointOf, fails_pointOf, gives_addVertex,
      Step.not_fails_pure, Step.gives_pure, hv, hknown, Option.some.injEq, false_and, and_false,
      exists_false, or_false, false_or, and_assoc, existsAndEq, true_and, ih hkept]
    rw [or_assoc, ← and_or_left]

/-- The stops of a pattern are looked up to the first that is not known. -/
theorem fails_vertexOfStops {stops : List PatternStop} :
    Step.Fails (stops.mapM fun s => vertexOfStop s.stop) d e d' ↔
      ∃ known s rest, stops = known ++ s :: rest ∧
        (∀ x ∈ known, d.stops.contains x.stop.text = true) ∧
        d.stops.contains s.stop.text = false ∧ e = .unknownStop s.stop ∧ d' = d := by
  have hnone (stop : StopId) :
      d.stops[stop.text]? = none ↔ d.stops.contains stop.text = false := by
    rw [Std.TreeMap.contains_eq_isSome_getElem?, Option.isSome_eq_false_iff,
      Option.isNone_iff_eq_none]
  have hsome (stop : StopId) :
      (∃ v, d.stops[stop.text]? = some v) ↔ d.stops.contains stop.text = true := by
    rw [Std.TreeMap.contains_eq_isSome_getElem?, Option.isSome_iff_exists]
  induction stops with
  | nil => simp [Step.not_fails_pure]
  | cons s stops ih =>
    rw [List.mapM_cons]
    simp only [Step.fails_bind, fails_vertexOfStop, gives_vertexOfStop, Step.not_fails_pure,
      and_false, exists_false, or_false, hnone]
    constructor
    · rintro (⟨hs, rfl, rfl⟩ | ⟨v, _, ⟨hv, rfl⟩, h⟩)
      · exact ⟨[], s, stops, rfl, by simp, hs, rfl, rfl⟩
      · obtain ⟨known, x, rest, rfl, hknown, hx, rfl, rfl⟩ := ih.mp h
        refine ⟨s :: known, x, rest, rfl, ?_, hx, rfl, rfl⟩
        intro y hy
        rcases List.mem_cons.mp hy with rfl | hy
        · exact (hsome _).mp ⟨v, hv⟩
        · exact hknown y hy
    · rintro ⟨_ | ⟨y, known⟩, x, rest, hsplit, hknown, hx, rfl, rfl⟩
      · obtain ⟨rfl, rfl⟩ := List.cons.inj hsplit
        exact .inl ⟨hx, rfl, rfl⟩
      · obtain ⟨rfl, rfl⟩ := List.cons.inj hsplit
        obtain ⟨v, hv⟩ := (hsome _).mpr (hknown _ List.mem_cons_self)
        refine .inr ⟨v, _, ⟨hv, rfl⟩, ih.mpr ⟨known, x, rest, rfl, ?_, hx, rfl, rfl⟩⟩
        intro y hy
        exact hknown y (List.mem_cons_of_mem _ hy)

/-- Each stop that is known has its vertex. -/
def StopsInRange (d : Draft) : Prop :=
  ∀ (text : String) v, d.stops[text]? = some v → v < d.vertices.size

/-- The places of known stops are those of their vertices. -/
theorem StopsInRange.points (hd : d.StopsInRange) {stops : List PatternStop} {vs : List VertexId}
    (h : List.Forall₂ (fun s v => d.stops[s.stop.text]? = some v) stops vs) :
    List.Forall₂ (fun (v : VertexId) p => d.vertices[v]?.map (·.point) = some p) vs
      (stops.filterMap fun s => d.stopPoint? s.stop) := by
  induction h with
  | nil => exact .nil
  | cons hs _ ih =>
    have hv := Array.getElem?_eq_getElem (hd _ _ hs)
    have hpoint := congrArg (Option.map (·.point)) hv
    rw [List.filterMap_cons, stopPoint?, hs, Option.bind_some, hpoint]
    exact .cons hpoint ih

/-- A pattern is refused, with the vertices `added` before that: a stop is not known, and nothing is
added, or the label of a vertex is taken, and those before it are added. -/
inductive Refused (d : Draft) (p : FrequencyPattern) :
    List (String × VertexKind × Point) → NetworkError → Prop
  | unknownStop {known rest : List PatternStop} {s : PatternStop}
      (stops_eq : p.stops = known ++ s :: rest)
      (known : ∀ x ∈ known, d.stops.contains x.stop.text = true)
      (unknown : d.stops.contains s.stop.text = false) : Refused d p [] (.unknownStop s.stop)
  | takenLabel {added rest : List (String × VertexKind × Point)} {x : String × VertexKind × Point}
      (known : ∀ s ∈ p.stops, d.stops.contains s.stop.text = true)
      (vertices_eq : d.verticesFor p = added ++ x :: rest)
      (free : ∀ y ∈ added, d.labels.contains y.1 = false)
      (taken : d.labels.contains x.1 = true) :
      Refused d p added (.invalid (.duplicateLabel x.1))

/-- A pattern fails exactly when it is refused, and leaves the vertices added before that. -/
theorem StopsInRange.fails_addPattern (hd : d.StopsInRange) {p : FrequencyPattern} :
    (addPattern p).Fails d e d' ↔ ∃ added, d.Refused p added e ∧ d' = d.withVertices added := by
  have hplatforms {vs : List VertexId}
      (h : List.Forall₂ (fun s v => d.stops[s.stop.text]? = some v) p.stops vs) :
      (addPlatforms p.trip.id d.patterns.size 0 vs).Fails d e d' ↔
        (addVertices (d.verticesFor p)).Fails d e d' :=
    fails_addPlatforms (hd.points h)
  have hnodup : ((d.verticesFor p).map (·.1)).Nodup := nodup_onBoardVertices 0
  unfold addPattern
  simp only [Step.fails_bind, Step.not_fails_get, Step.gives_get, Step.not_fails_modify,
    Step.not_fails_pure, not_fails_addEdges, and_false, exists_false, or_false, false_or,
    fails_vertexOfStops]
  constructor
  · rintro (⟨known, s, rest, hstops, hknown, hs, rfl, rfl⟩ | ⟨vs, d₁, hvs, _, _, ⟨rfl, rfl⟩, h⟩)
    · exact ⟨[], .unknownStop hstops hknown hs, rfl⟩
    · obtain ⟨rfl, hvs⟩ := gives_vertexOfStops hvs
      obtain ⟨added, x, rest, hsplit, hfree, htaken, rfl, rfl⟩ :=
        (fails_addVertices hnodup).mp ((hplatforms hvs).mp h)
      refine ⟨added, .takenLabel ?_ hsplit hfree htaken, rfl⟩
      intro s hs
      obtain ⟨i, hi, rfl⟩ := List.mem_iff_getElem.mp hs
      have hv := hvs.get hi (hvs.length_eq ▸ hi)
      rw [List.get_eq_getElem] at hv
      rw [Std.TreeMap.contains_eq_isSome_getElem?, hv]
      rfl
  · rintro ⟨added, hrefused, rfl⟩
    cases hrefused with
    | unknownStop hstops hknown hs => exact .inl ⟨_, _, _, hstops, hknown, hs, rfl, rfl⟩
    | takenLabel hknown hsplit hfree htaken =>
      -- all stops are known, so that their vertices are found
      rcases Step.gives_or_fails (p.stops.mapM fun s => vertexOfStop s.stop) d with
        ⟨vs, d₁, hvs⟩ | ⟨e, d₁, hf⟩
      · obtain ⟨rfl, hstops⟩ := gives_vertexOfStops hvs
        refine .inr ⟨vs, _, hvs, _, _, ⟨rfl, rfl⟩, (hplatforms hstops).mpr ?_⟩
        exact (fails_addVertices hnodup).mpr ⟨_, _, _, hsplit, hfree, htaken, rfl, rfl⟩
      · obtain ⟨known, s, rest, hstops, -, hs, -⟩ := fails_vertexOfStops.mp hf
        have hmem : s ∈ p.stops := hstops ▸ List.mem_append_right _ List.mem_cons_self
        rw [hknown s hmem] at hs
        cases hs

end JourneyPlanner.Draft
