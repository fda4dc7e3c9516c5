import Mathlib.Data.List.Forall2
import JourneyPlanner.Network.Description

/-!
# Steps on a draft that succeed

`m.Gives d a d'`: run on the draft `d`, the step `m` answers `a` and leaves `d'`. Each operation of
a draft has one lemma that says what it gives; proofs about networks use these and do not unfold
the operations.
-/

namespace JourneyPlanner.Draft

variable {α β : Type} {d d' d'' : Draft}

/-- Run on `d`, the step answers `a` and leaves `d'`. -/
def Step.Gives (m : Step α) (d : Draft) (a : α) (d' : Draft) : Prop :=
  (m.run.run d).run = (.ok a, d')

theorem Step.gives_pure {a b : α} : Step.Gives (pure a) d b d' ↔ a = b ∧ d = d' := by
  show ((Except.ok a, d) : Except NetworkError α × Draft) = (.ok b, d') ↔ _
  rw [Prod.mk.injEq, Except.ok.injEq]

/-- One step after another: what fails first is the failure of both. -/
theorem Step.run_bind (m : Step α) (f : α → Step β) (d : Draft) :
    ((m >>= f).run.run d).run = match (m.run.run d).run with
      | (.ok a, d') => ((f a).run.run d').run
      | (.error e, d') => (.error e, d') := by
  rcases h : (m.run.run d).run with ⟨r, d'⟩
  have h' : m d = (r, d') := h
  show (ExceptT.bind m f) d = _
  unfold ExceptT.bind
  show (ExceptT.bindCont f (m d).1) (m d).2 = _
  rw [h']
  cases r <;> rfl

theorem Step.gives_bind {m : Step α} {f : α → Step β} {b : β} :
    Step.Gives (m >>= f) d b d'' ↔ ∃ a d', m.Gives d a d' ∧ (f a).Gives d' b d'' := by
  unfold Step.Gives
  rw [run_bind]
  rcases (m.run.run d).run with ⟨_ | a, d'⟩
  · simp
  · constructor
    · intro h
      exact ⟨a, d', rfl, h⟩
    · rintro ⟨a', d'', h, h'⟩
      rw [Prod.mk.injEq, Except.ok.injEq] at h
      rw [h.1, h.2]
      exact h'

theorem Step.gives_get {a : Draft} : Step.Gives get d a d' ↔ d = a ∧ d = d' := by
  show ((Except.ok d, d) : Except NetworkError Draft × Draft) = (.ok a, d') ↔ _
  rw [Prod.mk.injEq, Except.ok.injEq]

theorem Step.gives_set {s : Draft} {u : Unit} : Step.Gives (set s) d u d' ↔ s = d' := by
  show ((Except.ok (), s) : Except NetworkError Unit × Draft) = (.ok u, d') ↔ _
  rw [Prod.mk.injEq]
  exact ⟨fun h => h.2, fun h => ⟨rfl, h⟩⟩

theorem Step.gives_modify {f : Draft → Draft} {u : Unit} :
    Step.Gives (modify f) d u d' ↔ f d = d' := by
  show ((Except.ok (), f d) : Except NetworkError Unit × Draft) = (.ok u, d') ↔ _
  rw [Prod.mk.injEq]
  exact ⟨fun h => h.2, fun h => ⟨rfl, h⟩⟩

theorem Step.gives_throw {e : NetworkError} {a : α} : ¬ Step.Gives (throw e) d a d' := by
  intro h
  have h' : ((Except.error e, d) : Except NetworkError α × Draft) = (.ok a, d') := h
  simp at h'

theorem Step.gives_lift {r : Except NetworkError α} {a : α} :
    Step.Gives (r : Step α) d a d' ↔ r = .ok a ∧ d = d' := by
  show ((r, d) : Except NetworkError α × Draft) = (.ok a, d') ↔ _
  rw [Prod.mk.injEq]

theorem Step.gives_get_bind {f : Draft → Step β} {b : β} :
    Step.Gives (get >>= f) d b d' ↔ (f d).Gives d b d' := by
  rw [gives_bind]
  simp only [gives_get]
  constructor
  · rintro ⟨_, _, ⟨rfl, rfl⟩, h⟩
    exact h
  · intro h
    exact ⟨d, d, ⟨rfl, rfl⟩, h⟩

/-- What each of a list of steps keeps, all of them keep. -/
theorem Step.gives_forM {f : α → Step Unit} {I : Draft → Prop} :
    ∀ {xs : List α} {d d' : Draft} {u : Unit},
      (∀ x ∈ xs, ∀ d d' u, (f x).Gives d u d' → I d → I d') →
        Step.Gives (xs.forM f) d u d' → I d → I d' := by
  intro xs
  induction xs with
  | nil =>
    intro d d' u _ h hd
    rw [List.forM_eq_forM, List.forM_nil, gives_pure] at h
    exact h.2 ▸ hd
  | cons x xs ih =>
    intro d d' u keep h hd
    rw [List.forM_eq_forM, List.forM_cons, gives_bind] at h
    obtain ⟨_, d₁, h₁, h₂⟩ := h
    exact ih (fun y hy => keep y (List.mem_cons_of_mem x hy)) h₂
      (keep x List.mem_cons_self d d₁ _ h₁ hd)

/-- A list of answers comes from the steps in turn; what each step keeps, all of them keep. -/
theorem Step.gives_mapM {f : α → Step β} {I : Draft → Prop} {R : α → β → Prop} :
    ∀ {xs : List α} {d d' : Draft} {ys : List β},
      (∀ x ∈ xs, ∀ d d' y, (f x).Gives d y d' → I d → I d' ∧ R x y) →
        Step.Gives (xs.mapM f) d ys d' → I d → I d' ∧ List.Forall₂ R xs ys := by
  intro xs
  induction xs with
  | nil =>
    intro d d' ys _ h hd
    rw [List.mapM_nil, gives_pure] at h
    obtain ⟨rfl, rfl⟩ := h
    exact ⟨hd, .nil⟩
  | cons x xs ih =>
    intro d d' ys keep h hd
    simp only [List.mapM_cons, gives_bind, gives_pure] at h
    obtain ⟨y, d₁, h₁, ys', d₂, h₂, rfl, rfl⟩ := h
    obtain ⟨hd₁, hy⟩ := keep x List.mem_cons_self d d₁ y h₁ hd
    obtain ⟨hd₂, hys⟩ := ih (fun z hz => keep z (List.mem_cons_of_mem x hz)) h₂ hd₁
    exact ⟨hd₂, .cons hy hys⟩

/-! ## The operations -/

theorem gives_addVertex {label : String} {kind : VertexKind} {point : Point} {v : VertexId} :
    (addVertex label kind point).Gives d v d' ↔
      d.labels.contains label = false ∧ v = d.vertices.size ∧
        d' = d.withVertex label kind point := by
  unfold addVertex
  rw [Step.gives_get_bind]
  cases h : d.labels.contains label with
  | true =>
    rw [if_pos rfl]
    simp only [Step.gives_throw, Step.gives_bind, false_and, exists_false, Bool.true_eq_false]
  | false =>
    rw [if_neg Bool.false_ne_true]
    simp only [Step.gives_bind, Step.gives_set, Step.gives_pure, true_and]
    constructor
    · rintro ⟨_, d₁, rfl, hv, hd⟩
      exact ⟨hv.symm, hd.symm⟩
    · rintro ⟨hv, hd⟩
      exact ⟨(), _, rfl, hv.symm, hd.symm⟩

theorem gives_addEdge {tail head : VertexId} {link : Link} {e : EdgeId} :
    (addEdge tail head link).Gives d e d' ↔
      e = d.edges.size ∧ d' = d.withEdge tail head link := by
  unfold addEdge
  rw [Step.gives_get_bind]
  simp only [Step.gives_bind, Step.gives_set, Step.gives_pure]
  constructor
  · rintro ⟨_, d₁, rfl, he, hd⟩
    exact ⟨he.symm, hd.symm⟩
  · rintro ⟨he, hd⟩
    exact ⟨(), _, rfl, he.symm, hd.symm⟩

theorem gives_vertexNamed {label : String} {v : VertexId} :
    (vertexNamed label).Gives d v d' ↔ d.labels[label]? = some v ∧ d = d' := by
  unfold vertexNamed vertexByLabel?
  rw [Step.gives_get_bind]
  cases h : d.labels[label]? with
  | none => simp only [Step.gives_throw, reduceCtorEq, false_and]
  | some w => rw [Step.gives_pure, Option.some.injEq]

theorem gives_pointOf {v : VertexId} {point : Point} :
    (pointOf v).Gives d point d' ↔ d.vertices[v]?.map (·.point) = some point ∧ d = d' := by
  unfold pointOf
  rw [Step.gives_get_bind]
  cases h : d.vertices[v]? with
  | none => simp only [Step.gives_throw, Option.map_none, reduceCtorEq, false_and]
  | some x => rw [Step.gives_pure, Option.map_some, Option.some.injEq]

theorem gives_vertexOfStop {stop : StopId} {v : VertexId} :
    (vertexOfStop stop).Gives d v d' ↔ d.stops[stop.text]? = some v ∧ d = d' := by
  unfold vertexOfStop
  rw [Step.gives_get_bind]
  cases h : d.stops[stop.text]? with
  | none => simp only [Step.gives_throw, reduceCtorEq, false_and]
  | some w => rw [Step.gives_pure, Option.some.injEq]

/-! ## More edges -/

/-- The draft with more edges, in order. -/
def withEdges (d : Draft) (links : List (VertexId × VertexId × Link)) : Draft :=
  links.foldl (fun d x => d.withEdge x.1 x.2.1 x.2.2) d

theorem gives_addEdges {links : List (VertexId × VertexId × Link)} {u : Unit} :
    (addEdges links).Gives d u d' ↔ d' = d.withEdges links := by
  induction links generalizing d with
  | nil =>
    unfold addEdges withEdges
    rw [Step.gives_pure, eq_comm (a := d)]
    exact ⟨fun h => h.2, fun h => ⟨rfl, h⟩⟩
  | cons x rest ih =>
    obtain ⟨tail, head, link⟩ := x
    unfold addEdges
    simp only [Step.gives_bind, gives_addEdge]
    constructor
    · rintro ⟨_, _, ⟨-, rfl⟩, h⟩
      exact ih.mp h
    · intro h
      exact ⟨_, _, ⟨rfl, rfl⟩, ih.mpr h⟩

theorem withEdges_eq : ∀ (links : List (VertexId × VertexId × Link)) (d : Draft),
    d.withEdges links = { d with edges := (d.withEdges links).edges }
  | [], _ => rfl
  | x :: rest, d => (withEdges_eq rest (d.withEdge x.1 x.2.1 x.2.2)).trans rfl

theorem vertices_withEdges (links : List (VertexId × VertexId × Link)) (d : Draft) :
    (d.withEdges links).vertices = d.vertices := by
  rw [withEdges_eq]

theorem patterns_withEdges (links : List (VertexId × VertexId × Link)) (d : Draft) :
    (d.withEdges links).patterns = d.patterns := by
  rw [withEdges_eq]

theorem withEdges_patterns (patterns : Array FrequencyPattern) :
    ∀ (links : List (VertexId × VertexId × Link)) (d : Draft),
      ({ d with patterns := patterns } : Draft).withEdges links =
        { d.withEdges links with patterns := patterns }
  | [], _ => rfl
  | x :: rest, d => withEdges_patterns patterns rest (d.withEdge x.1 x.2.1 x.2.2)

end JourneyPlanner.Draft
