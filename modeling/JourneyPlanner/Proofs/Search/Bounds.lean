import Mathlib.Tactic.Linarith
import JourneyPlanner.Proofs.Journey.Timetable
import JourneyPlanner.Proofs.Search.QueueOrder

/-!
# Tables of lower bounds

In exact arithmetic a table ends with its queue empty, within the count of steps that it is given.
Then the bound before an edge is at most the bound after it and that of the edge (`edge_le`), so
that along any way to the target the bounds add up to no less than that of its first vertex.

Vertices are settled in the order of their bounds. A settled vertex has a bound no greater than any
entry of the queue, and so is never lowered again.
-/

namespace JourneyPlanner

variable {c : Context} {target v w : VertexId} {e : Edge} {x q : ℚ} {done : VertexId → Bool}

/-- Whether no edge that has a bound has a negative one. -/
def Context.BoundsNonneg (c : Context) : Prop :=
  ∀ e ∈ c.network.edges, ∀ β, (e.weightBound c : Exact) = .finite β → 0 ≤ β

/-- What a table of lower bounds to a target is. -/
structure Context.LowerBounds (c : Context) (target : VertexId) (bounds : Array Exact) : Prop where
  nonneg : ∀ v : VertexId, (bounds[v]?.getD Weight.infinity : Exact).Nonneg
  target_eq : bounds[target]?.getD Weight.infinity = .finite 0
  edge_le : ∀ e ∈ c.network.edges, ∀ β q, e.weightBound c = Exact.finite β →
    bounds[e.target c.arriveBy]?.getD Weight.infinity = .finite q →
      ∃ q', bounds[e.source c.arriveBy]?.getD Weight.infinity = .finite q' ∧ q' ≤ q + β

theorem Network.Wired.source_lt {n : Network} (hn : n.Wired) (he : e ∈ n.edges) (b : Bool) :
    e.source b < n.vertices.size := by
  have hlt : ∀ {v κ}, n.kindOf? v = some κ → v < n.vertices.size := fun {v κ} h => by
    obtain ⟨x, hx, -⟩ := Option.map_eq_some_iff.mp h
    exact (Array.getElem?_eq_some_iff.mp hx).1
  have hends : e.tail < n.vertices.size ∧ e.head < n.vertices.size := by
    rcases e with ⟨id, tail, head, link⟩
    cases hn.joins _ he with
    | board _ _ _ ht hh => exact ⟨hlt ht, hlt hh⟩
    | hop _ _ ht hh => exact ⟨hlt ht, hlt hh⟩
    | alight _ _ _ ht hh => exact ⟨hlt ht, hlt hh⟩
    | dwell _ _ _ ht hh => exact ⟨hlt ht, hlt hh⟩
    | timedTransfer ht hh => exact ⟨hlt ht, hlt hh⟩
    | street ht _ hh _ _ => exact ⟨hlt ht, hlt hh⟩
  cases b
  · exact hends.1
  · exact hends.2

namespace BoundTable

variable {t : BoundTable Exact}

/-- The vertex has a bound, and it is at most `x`. -/
def Within (t : BoundTable Exact) (v : VertexId) (x : ℚ) : Prop := ∃ q, t.get v = .finite q ∧ q ≤ x

theorem Within.trans {y : ℚ} (h : t.Within v x) (hxy : x ≤ y) : t.Within v y := by
  obtain ⟨q, hq, hle⟩ := h
  exact ⟨q, hq, hle.trans hxy⟩

/-- What holds between two steps, when the vertices `done` are settled. -/
structure Inv (c : Context) (done : VertexId → Bool) (t : BoundTable Exact) : Prop where
  size_eq : t.bounds.size = c.network.vertices.size
  ordered : t.queue.Ordered cheaper
  nonneg : ∀ v, (t.get v).Nonneg
  queued : ∀ y ∈ t.queue.toList, ∃ x, y.1 = .finite x ∧ t.Within y.2 x
  ahead : ∀ v, done v = true → ∀ y ∈ t.queue.toList, ∀ x, y.1 = .finite x → t.Within v x
  pending : ∀ v q, done v = false → t.get v = .finite q → (.finite q, v) ∈ t.queue.toList

/-- The edges to settled vertices are relaxed. -/
def Closed (c : Context) (done : VertexId → Bool) (t : BoundTable Exact) : Prop :=
  ∀ e ∈ c.network.edges, done (e.target c.arriveBy) = true → ∀ β q,
    e.weightBound c = Exact.finite β → t.get (e.target c.arriveBy) = .finite q →
      t.Within (e.source c.arriveBy) (q + β)

/-! ## Lowering a bound -/

theorem get_lower (hv : v < t.bounds.size) (b : Exact) (w : VertexId) :
    (t.lower v b).get w = if w = v then b else t.get w := by
  unfold lower get
  show (t.bounds.setIfInBounds v b)[w]?.getD _ = _
  rw [Array.getElem?_setIfInBounds]
  by_cases h : w = v
  · rw [if_pos h.symm, if_pos h, if_pos (h ▸ hv)]
    rfl
  · rw [if_neg fun h' => h h'.symm, if_neg h]

theorem Within.lower (hv : v < t.bounds.size) {b : ℚ} (hle : ∀ q, t.get v = .finite q → b ≤ q)
    (h : t.Within w x) : (t.lower v (.finite b)).Within w x := by
  obtain ⟨q, hq, hqx⟩ := h
  unfold Within
  rw [get_lower hv]
  split_ifs with hw
  · subst hw
    exact ⟨b, rfl, (hle q hq).trans hqx⟩
  · exact ⟨q, hq, hqx⟩

theorem Inv.lower (h : Inv c done t) (hv : v < t.bounds.size) {b : ℚ} (hb : 0 ≤ b)
    (hle : ∀ q, t.get v = .finite q → b ≤ q) (hahead : ∀ w, done w = true → t.Within w b) :
    Inv c done (t.lower v (.finite b)) := by
  have hmem : ∀ y, y ∈ (t.lower v (.finite b)).queue.toList ↔
      y = (.finite b, v) ∨ y ∈ t.queue.toList := fun y => by
    rw [← List.mem_cons]
    exact (Queue.toList_push_perm cheaper t.queue (Exact.finite b, v)).mem_iff
  refine ⟨?_, h.ordered.push preorder_cheaper _, ?_, ?_, ?_, ?_⟩
  · show (t.bounds.setIfInBounds v (.finite b)).size = _
    rw [Array.size_setIfInBounds, h.size_eq]
  · intro u
    rw [get_lower hv]
    split_ifs
    · exact Exact.nonneg_finite.mpr hb
    · exact h.nonneg u
  · intro y hy
    rcases (hmem y).mp hy with rfl | hy
    · exact ⟨b, rfl, b, by rw [get_lower hv, if_pos rfl], le_refl b⟩
    · obtain ⟨x, hx, hw⟩ := h.queued y hy
      exact ⟨x, hx, hw.lower hv hle⟩
  · intro u hu y hy x hx
    rcases (hmem y).mp hy with rfl | hy
    · cases hx
      exact (hahead u hu).lower hv hle
    · exact (h.ahead u hu y hy x hx).lower hv hle
  · intro u q hu hq
    rw [get_lower hv] at hq
    split_ifs at hq with huv
    · cases hq
      exact (hmem _).mpr (.inl (by rw [huv]))
    · exact (hmem _).mpr (.inr (h.pending u q hu hq))

/-! ## Relaxing edges -/

/-- An edge whose seconds on board are held is relaxed by its bound alone. -/
theorem relax_of_fit {W : Type} [Weight W] {t : BoundTable W} {seconds : Int}
    (hfit : e.staySeconds c.integers = .ok seconds) (cost : W) :
    relax c cost t e = match t.bounds[e.source c.arriveBy]? with
      | none => t
      | some current =>
        if Weight.isFinite (e.weightBound c : W) &&
            Weight.less (cost + e.weightBound c) current then
          t.lower (e.source c.arriveBy) (cost + e.weightBound c)
        else t := by
  unfold relax
  rw [hfit]
  cases t.bounds[e.source c.arriveBy]? <;> rfl

theorem relax_of_within (hfit : c.StaysFit) (he : e ∈ c.network.edges) {β : ℚ}
    (hβ : e.weightBound c = Exact.finite β) (h : t.Within (e.source c.arriveBy) (x + β)) :
    relax c (.finite x) t e = t := by
  obtain ⟨q, hq, hle⟩ := h
  obtain ⟨seconds, hseconds⟩ := hfit e he
  rw [relax_of_fit hseconds, hβ]
  cases hs : t.bounds[e.source c.arriveBy]? with
  | none => rfl
  | some current =>
    have hcurrent : current = .finite q := by
      unfold get at hq
      rw [hs] at hq
      exact hq
    simp only [hcurrent, Exact.isFinite_finite, Exact.finite_add_finite, Bool.true_and,
      Exact.less_finite]
    rw [if_neg (not_lt.mpr hle)]

theorem relax_of_not_finite (hfit : c.StaysFit) (he : e ∈ c.network.edges)
    (h : ∀ β, e.weightBound c ≠ Exact.finite β) (cost : Exact) : relax c cost t e = t := by
  have hfin : Weight.isFinite (e.weightBound c : Exact) = false := by
    rw [Bool.eq_false_iff]
    intro hf
    obtain ⟨β, hβ⟩ := Exact.isFinite_iff.mp hf
    exact h β hβ
  obtain ⟨seconds, hseconds⟩ := hfit e he
  rw [relax_of_fit hseconds]
  simp only [hfin, Bool.false_and]
  cases t.bounds[e.source c.arriveBy]? with
  | none => rfl
  | some current => exact if_neg Bool.false_ne_true

/-- Relaxing an edge whose bound does better lowers the bound before it. -/
theorem relax_of_not_within (hfit : c.StaysFit) (he : e ∈ c.network.edges) {β : ℚ}
    (hsize : e.source c.arriveBy < t.bounds.size)
    (hβ : e.weightBound c = Exact.finite β) (hnn : (t.get (e.source c.arriveBy)).Nonneg)
    (h : ¬ t.Within (e.source c.arriveBy) (x + β)) :
    relax c (.finite x) t e = t.lower (e.source c.arriveBy) (.finite (x + β)) ∧
      ∀ q, t.get (e.source c.arriveBy) = .finite q → x + β ≤ q := by
  have hget : t.bounds[e.source c.arriveBy]? = some (t.get (e.source c.arriveBy)) := by
    unfold get
    rw [Array.getElem?_eq_getElem hsize]
    rfl
  have hlt : ∀ q, t.get (e.source c.arriveBy) = .finite q → x + β < q := fun q hq =>
    not_le.mp fun hle => h ⟨q, hq, hle⟩
  refine ⟨?_, fun q hq => (hlt q hq).le⟩
  obtain ⟨seconds, hseconds⟩ := hfit e he
  rw [relax_of_fit hseconds]
  simp only [hget, hβ, Exact.isFinite_finite, Exact.finite_add_finite, Bool.true_and]
  rcases hnn with ⟨q, -, hq⟩ | hinf
  · rw [hq, if_pos ((Exact.less_finite _ _).mpr (hlt q hq))]
  · rw [hinf, if_pos (Exact.less_infinite _)]

/-- Relaxing edges keeps what holds, lowers no settled vertex, and queues an entry at most for each
edge. -/
structure Relaxed (c : Context) (done : VertexId → Bool) (t t' : BoundTable Exact) (pushes : Nat) :
    Prop where
  inv : Inv c done t'
  within : ∀ v x, t.Within v x → t'.Within v x
  done_eq : ∀ v, done v = true → t'.get v = t.get v
  length_le : t'.queue.toList.length ≤ t.queue.toList.length + pushes

theorem Relaxed.refl (h : Inv c done t) : Relaxed c done t t 0 :=
  ⟨h, fun _ _ h => h, fun _ _ => rfl, le_refl _⟩

theorem Relaxed.trans {t' t'' : BoundTable Exact} {m n : Nat} (h : Relaxed c done t t' m)
    (h' : Relaxed c done t' t'' n) : Relaxed c done t t'' (m + n) := by
  refine ⟨h'.inv, fun v x hv => h'.within v x (h.within v x hv),
    fun v hv => (h'.done_eq v hv).trans (h.done_eq v hv), ?_⟩
  have := h.length_le
  have := h'.length_le
  omega

/-- Relaxing an edge to a vertex with the bound `x`, no less than those of the settled ones. -/
theorem relaxed_relax (hn : c.network.Wired) (hfit : c.StaysFit) (hb : c.BoundsNonneg)
    (h : Inv c done t) (he : e ∈ c.network.edges) (hx : 0 ≤ x)
    (hahead : ∀ w, done w = true → t.Within w x) :
    Relaxed c done t (relax c (.finite x) t e) 1 ∧ ∀ β, e.weightBound c = Exact.finite β →
      (relax c (.finite x) t e).Within (e.source c.arriveBy) (x + β) := by
  have hstay : Relaxed c done t t 1 :=
    ⟨h, fun _ _ h => h, fun _ _ => rfl, Nat.le_succ _⟩
  by_cases hfin : ∃ β, e.weightBound c = Exact.finite β
  · obtain ⟨β, hβ⟩ := hfin
    have hβ0 := hb e he β hβ
    have hsize : e.source c.arriveBy < t.bounds.size := h.size_eq ▸ hn.source_lt he _
    by_cases hw : t.Within (e.source c.arriveBy) (x + β)
    · rw [relax_of_within hfit he hβ hw]
      refine ⟨hstay, fun β' hβ' => ?_⟩
      rw [hβ] at hβ'
      cases hβ'
      exact hw
    · obtain ⟨heq, hle⟩ := relax_of_not_within hfit he hsize hβ (h.nonneg _) hw
      rw [heq]
      have hahead' : ∀ w, done w = true → t.Within w (x + β) := fun w hdw =>
        (hahead w hdw).trans (by linarith)
      refine ⟨⟨h.lower hsize (by linarith) hle hahead', fun v y hv => hv.lower hsize hle, ?_, ?_⟩,
        ?_⟩
      · intro v hv
        rw [get_lower hsize, if_neg]
        rintro rfl
        exact hw (hahead' _ hv)
      · exact (Queue.toList_push_perm cheaper t.queue _).length_eq.le
      · intro β' hβ'
        rw [hβ] at hβ'
        cases hβ'
        exact ⟨_, by rw [get_lower hsize, if_pos rfl], le_refl _⟩
  · rw [not_exists] at hfin
    rw [relax_of_not_finite hfit he hfin]
    exact ⟨hstay, fun β hβ => absurd hβ (hfin β)⟩

theorem relaxed_foldl (hn : c.network.Wired) (hfit : c.StaysFit) (hb : c.BoundsNonneg)
    (hx : 0 ≤ x) {edges : List Edge} :
    ∀ {t : BoundTable Exact}, Inv c done t → (∀ e ∈ edges, e ∈ c.network.edges) →
      (∀ w, done w = true → t.Within w x) →
        Relaxed c done t (edges.foldl (relax c (.finite x)) t) edges.length ∧
          ∀ e ∈ edges, ∀ β, e.weightBound c = Exact.finite β →
            (edges.foldl (relax c (.finite x)) t).Within (e.source c.arriveBy) (x + β) := by
  induction edges with
  | nil => exact fun h _ _ => ⟨.refl h, nofun⟩
  | cons e rest ih =>
    intro t h hmem hahead
    obtain ⟨h₁, hw⟩ := relaxed_relax hn hfit hb h (hmem e List.mem_cons_self) hx hahead
    obtain ⟨h₂, hrest⟩ := ih h₁.inv (fun x hx => hmem x (List.mem_cons_of_mem e hx))
      fun w hdw => h₁.within w x (hahead w hdw)
    rw [List.foldl_cons, List.length_cons, Nat.add_comm]
    refine ⟨h₁.trans h₂, fun e' he' β hβ => ?_⟩
    rcases List.mem_cons.mp he' with rfl | he'
    · exact h₂.within _ _ (hw β hβ)
    · exact hrest e' he' β hβ

theorem foldl_relax_of_within (hfit : c.StaysFit) {edges : List Edge}
    (hmem : ∀ e ∈ edges, e ∈ c.network.edges) (h : ∀ e ∈ edges, ∀ β,
      e.weightBound c = Exact.finite β → t.Within (e.source c.arriveBy) (x + β)) :
    edges.foldl (relax c (.finite x)) t = t := by
  induction edges with
  | nil => rfl
  | cons e rest ih =>
    have hone : relax c (.finite x) t e = t := by
      by_cases hfin : ∃ β, e.weightBound c = Exact.finite β
      · obtain ⟨β, hβ⟩ := hfin
        exact relax_of_within hfit (hmem e List.mem_cons_self) hβ (h e List.mem_cons_self β hβ)
      · exact relax_of_not_finite hfit (hmem e List.mem_cons_self) (not_exists.mp hfin) _
    rw [List.foldl_cons, hone]
    exact ih (fun e' he' => hmem e' (List.mem_cons_of_mem e he'))
      fun e' he' => h e' (List.mem_cons_of_mem e he')

/-! ## Settling vertices -/

/-- The vertices settled with one more. -/
def withDone (done : VertexId → Bool) (v w : VertexId) : Bool := done w || w == v

/-- The edges that are still to be relaxed. -/
def openEdges (c : Context) (done : VertexId → Bool) : Nat :=
  c.network.edges.toList.countP fun e => !done (e.target c.arriveBy)

theorem openEdges_withDone (hn : c.network.Wired) (hv : done v = false) :
    openEdges c (withDone done v) + (c.network.edgesFrom v (!c.arriveBy)).length =
      openEdges c done := by
  have hsplit := List.countP_eq_countP_filter_add c.network.edges.toList
    (fun e => !done (e.target c.arriveBy)) fun e => e.target c.arriveBy == v
  rw [List.countP_filter, List.countP_filter] at hsplit
  unfold openEdges
  rw [hn.edgesFrom_eq, hsplit, add_comm, ← List.countP_eq_length_filter]
  congr 1
  · refine List.countP_congr fun e _ => ?_
    rw [Edge.source_not]
    by_cases he : e.target c.arriveBy = v <;> simp [he, hv]
  · refine List.countP_congr fun e _ => ?_
    unfold withDone
    by_cases he : e.target c.arriveBy = v <;> simp [he]

theorem withDone_of_done (hv : done v = true) : withDone done v = done := by
  funext w
  unfold withDone
  by_cases hw : w = v
  · rw [hw, hv]
    rfl
  · rw [beq_false_of_ne hw, Bool.or_false]

/-- The vertex taken off the queue is settled, or was before. -/
theorem Inv.pop (h : Inv c done t) {cost : Exact} {rest : Queue (Exact × VertexId)}
    (hpop : t.queue.pop? cheaper = some ((cost, v), rest)) :
    ∃ x, cost = .finite x ∧ 0 ≤ x ∧ t.Within v x ∧ (done v = false → t.get v = .finite x) ∧
      Inv c (withDone done v) { t with queue := rest } ∧
      ∀ w, withDone done v w = true → t.Within w x := by
  have hpopped := fun y => Queue.mem_toList_pop cheaper hpop (x := y)
  obtain ⟨hfirst, hordered⟩ := h.ordered.pop preorder_cheaper hpop
  have hmem : (cost, v) ∈ t.queue.toList := (hpopped _).mpr (.inl rfl)
  obtain ⟨x, rfl, hw⟩ := h.queued _ hmem
  have hahead : ∀ w, withDone done v w = true → t.Within w x := by
    intro w hdw
    unfold withDone at hdw
    rw [Bool.or_eq_true, beq_iff_eq] at hdw
    rcases hdw with hdw | rfl
    · exact h.ahead w hdw _ hmem x rfl
    · exact hw
  have hfresh : done v = false → t.get v = .finite x := by
    intro hv
    obtain ⟨q, hq, hqx⟩ := hw
    rcases (hpopped _).mp (h.pending v q hv hq) with heq | hin
    · rw [hq, (Prod.mk.inj heq).1]
    · rw [hq, le_antisymm hqx (le_of_cheaper (hfirst _ hin))]
  refine ⟨x, rfl, ?_, hw, hfresh, ⟨h.size_eq, hordered, h.nonneg,
    fun y hy => h.queued y ((hpopped y).mpr (.inr hy)),
    ?_, ?_⟩, hahead⟩
  · obtain ⟨q, hq, hqx⟩ := hw
    exact (Exact.nonneg_finite.mp (hq ▸ h.nonneg v)).trans hqx
  · intro w hdw y hy z hz
    obtain ⟨cost, u⟩ := y
    subst hz
    exact (hahead w hdw).trans (le_of_cheaper (hfirst _ hy))
  · intro w q hdw hq
    unfold withDone at hdw
    rw [Bool.or_eq_false_iff, beq_eq_false_iff_ne] at hdw
    rcases (hpopped _).mp (h.pending w q hdw.1 hq) with heq | hin
    · exact absurd (Prod.mk.inj heq).2 hdw.2
    · exact hin

/-- Settling a vertex keeps what holds, and leaves less to do. -/
theorem settle_spec (hn : c.network.Wired) (hfit : c.StaysFit) (hb : c.BoundsNonneg)
    (h : Inv c done t) (hc : Closed c done t) {cost : Exact} {rest : Queue (Exact × VertexId)}
    (hpop : t.queue.pop? cheaper = some ((cost, v), rest)) :
    let t' := settle c { t with queue := rest } cost v
    Inv c (withDone done v) t' ∧ Closed c (withDone done v) t' ∧
      (∀ w x, t.Within w x → t'.Within w x) ∧
      t'.queue.toList.length + openEdges c (withDone done v) <
        t.queue.toList.length + openEdges c done := by
  intro t'
  have hlen := (Queue.toList_pop_perm cheaper hpop).length_eq
  rw [List.length_cons] at hlen
  have hedges : ∀ e ∈ c.network.edgesFrom v (!c.arriveBy),
      e ∈ c.network.edges ∧ e.target c.arriveBy = v := fun e he => by
    rwa [hn.mem_edgesFrom, Edge.source_not] at he
  obtain ⟨x, rfl, hx, hw, hfresh, hinv, hahead⟩ := h.pop hpop
  cases hv : done v with
  | true =>
    -- the edges to the vertex are relaxed already
    have hdone := withDone_of_done hv
    have ht' : t' = { t with queue := rest } := by
      show settle c { t with queue := rest } (.finite x) v = _
      obtain ⟨q, hq, hqx⟩ := hw
      unfold settle
      show (if Weight.less (t.get v) (.finite x) = true then _ else _) = _
      rw [hq]
      rcases hqx.lt_or_eq with hlt | rfl
      · rw [if_pos ((Exact.less_finite _ _).mpr hlt)]
      · rw [if_neg (fun hl => (lt_irrefl q) ((Exact.less_finite _ _).mp hl))]
        refine foldl_relax_of_within hfit (fun e he => (hedges e he).1) fun e he β hβ => ?_
        obtain ⟨he, htarget⟩ := hedges e he
        exact hc e he (htarget ▸ hv) β q hβ (htarget ▸ hq)
    rw [ht']
    rw [hdone] at hinv ⊢
    refine ⟨hinv, hc, fun _ _ h => h, ?_⟩
    show rest.toList.length + _ < _
    omega
  | false =>
    have hq := hfresh hv
    have ht' : t' = (c.network.edgesFrom v (!c.arriveBy)).foldl (relax c (.finite x))
        { t with queue := rest } := by
      show settle c { t with queue := rest } (.finite x) v = _
      unfold settle
      refine if_neg ?_
      show ¬ Weight.less (t.get v) (.finite x) = true
      rw [hq, Exact.less_finite]
      exact lt_irrefl x
    obtain ⟨hrel, hall⟩ := relaxed_foldl hn hfit hb hx hinv (fun e he => (hedges e he).1) hahead
    rw [ht']
    refine ⟨hrel.inv, ?_, fun w y hwy => hrel.within w y hwy, ?_⟩
    · intro e he hdt β q hβ hget
      rw [hrel.done_eq _ hdt] at hget
      by_cases hev : e.target c.arriveBy = v
      · rw [hev] at hget
        obtain rfl : x = q := Exact.finite.inj (hq.symm.trans hget)
        refine hall e ?_ β hβ
        rw [hn.mem_edgesFrom, Edge.source_not]
        exact ⟨he, hev⟩
      · unfold withDone at hdt
        rw [beq_false_of_ne hev, Bool.or_false] at hdt
        exact hrel.within _ _ (hc e he hdt β q hβ hget)
    · have := hrel.length_le
      have hopen := openEdges_withDone hn hv
      change _ ≤ rest.toList.length + _ at this
      omega

/-- Within enough steps nothing is left to settle. -/
theorem run_spec (hn : c.network.Wired) (hfit : c.StaysFit) (hb : c.BoundsNonneg) :
    ∀ (steps : Nat) {done : VertexId → Bool} {t : BoundTable Exact},
      Inv c done t → Closed c done t → t.queue.toList.length + openEdges c done ≤ steps →
        (run c steps t).queue.toList = [] ∧
        (∃ done', Inv c done' (run c steps t) ∧ Closed c done' (run c steps t)) ∧
        ∀ w x, t.Within w x → (run c steps t).Within w x
  | 0, done, t, h, hc, hsteps => by
    refine ⟨List.eq_nil_of_length_eq_zero (by show t.queue.toList.length = 0; omega), ⟨done, h, hc⟩,
      fun _ _ h => h⟩
  | steps + 1, done, t, h, hc, hsteps => by
    unfold run
    cases hpop : t.queue.pop? cheaper with
    | none =>
      refine ⟨?_, ⟨done, h, hc⟩, fun _ _ h => h⟩
      cases hq : t.queue with
      | empty => rfl
      | node top left right => rw [hq] at hpop; cases hpop
    | some r =>
      obtain ⟨⟨cost, v⟩, rest⟩ := r
      obtain ⟨hinv, hclosed, hwithin, hless⟩ := settle_spec hn hfit hb h hc hpop
      obtain ⟨hempty, hend, hlow⟩ := run_spec hn hfit hb steps hinv hclosed (by omega)
      exact ⟨hempty, hend, fun w x hw => hlow w x (hwithin w x hw)⟩

/-! ## From the start -/

theorem get_start (ht : target < c.network.vertices.size) (v : VertexId) :
    (start c.network.vertices.size target : BoundTable Exact).get v =
      if v = target then .finite 0 else .infinite false := by
  unfold get start
  show (((Array.replicate _ _).setIfInBounds target _)[v]?).getD _ = _
  rw [Array.getElem?_setIfInBounds, Array.size_replicate]
  by_cases hv : v = target
  · rw [if_pos hv.symm, if_pos hv, if_pos (hv ▸ ht), Option.getD_some, Exact.zero_eq]
  · rw [if_neg fun h => hv h.symm, if_neg hv, Array.getElem?_replicate]
    split_ifs <;> rfl

theorem toList_start (ht : target < c.network.vertices.size) :
    (start c.network.vertices.size target : BoundTable Exact).queue.toList =
      [(.finite 0, target)] := by
  unfold start
  rw [if_pos ht, Exact.zero_eq]
  rfl

theorem inv_start (ht : target < c.network.vertices.size) :
    Inv c (fun _ => false) (start c.network.vertices.size target) := by
  refine ⟨?_, ?_, ?_, ?_, nofun, ?_⟩
  · show ((Array.replicate _ _).setIfInBounds target _).size = _
    rw [Array.size_setIfInBounds, Array.size_replicate]
  · unfold start
    rw [if_pos ht]
    exact ⟨nofun, nofun, trivial, trivial⟩
  · intro v
    rw [get_start ht]
    split_ifs
    · exact Exact.nonneg_finite.mpr (le_refl 0)
    · exact .inr rfl
  · intro y hy
    rw [toList_start ht, List.mem_singleton] at hy
    rw [hy]
    exact ⟨0, rfl, 0, by rw [get_start ht, if_pos rfl], le_refl 0⟩
  · intro v q _ hq
    rw [get_start ht] at hq
    split_ifs at hq with hv
    cases hq
    rw [toList_start ht, List.mem_singleton, hv]

theorem start_le_stepLimit (ht : target < c.network.vertices.size) :
    (start c.network.vertices.size target : BoundTable Exact).queue.toList.length +
      openEdges c (fun _ => false) ≤ stepLimit c.network := by
  have hopen : openEdges c (fun _ => false) ≤ c.network.edges.size := List.countP_le_length
  rw [toList_start ht, List.length_singleton]
  unfold stepLimit
  omega

end BoundTable

/-! ## The table -/

namespace BoundTable

section

variable {W : Type} [Weight W] {t : BoundTable W}

theorem overflowed_relax (hfit : c.StaysFit) (he : e ∈ c.network.edges) (cost : W) :
    (relax c cost t e).overflowed = t.overflowed := by
  obtain ⟨seconds, hseconds⟩ := hfit e he
  rw [relax_of_fit hseconds]
  split
  · rfl
  · split_ifs <;> rfl

theorem overflowed_settle (hfit : c.StaysFit) (cost : W) :
    (settle c t cost v).overflowed = t.overflowed := by
  unfold settle
  split_ifs
  · rfl
  · refine List.foldlRecOn (motive := fun u : BoundTable W => u.overflowed = t.overflowed) _ _ rfl
      fun u hu e he => ?_
    rw [overflowed_relax hfit (Network.mem_edges_of_mem_edgesFrom he), hu]

theorem overflowed_run (hfit : c.StaysFit) : ∀ (steps : Nat) {t : BoundTable W},
    (run c steps t).overflowed = t.overflowed
  | 0, _ => rfl
  | steps + 1, t => by
    unfold run
    cases t.queue.pop? cheaper with
    | none => rfl
    | some r => exact (overflowed_run hfit steps).trans (overflowed_settle hfit r.1.1)

end

end BoundTable

namespace BoundTable

theorem result_eq_ok {W : Type} {t : BoundTable W} {bounds : Array W} :
    t.result = .ok bounds ↔ t.overflowed = false ∧ bounds = t.bounds := by
  unfold result
  split_ifs with h
  · rw [h]
    exact ⟨nofun, nofun⟩
  · rw [Bool.not_eq_true] at h
    exact ⟨fun hok => ⟨h, (Except.ok.inj hok).symm⟩, fun hok => congrArg _ hok.2.symm⟩

end BoundTable

/-- The bounds to a target, whether or not all edges have one. -/
def Context.boundsTo {W : Type} [Weight W] (c : Context) (target : VertexId) : Array W :=
  (boundTable c target).bounds

-- stated of the function: checked at arguments, the projection would make the kernel run the table
theorem Context.boundsTo_def {W : Type} [Weight W] :
    (Context.boundsTo : Context → VertexId → Array W) =
      fun c target => (boundTable c target).bounds := rfl

theorem lowerBounds_eq {W : Type} [Weight W] :
    lowerBounds c target = (boundTable c target : BoundTable W).result := by
  unfold lowerBounds
  rfl

theorem lowerBounds_eq_ok {W : Type} [Weight W] {bounds : Array W} :
    lowerBounds c target = .ok bounds ↔
      (boundTable c target : BoundTable W).overflowed = false ∧ bounds = c.boundsTo target := by
  rw [lowerBounds_eq, Context.boundsTo_def]
  beta_reduce
  generalize (boundTable c target : BoundTable W) = t
  exact BoundTable.result_eq_ok

theorem overflowed_boundTable {W : Type} [Weight W] (hfit : c.StaysFit) :
    (boundTable c target : BoundTable W).overflowed = false := by
  unfold boundTable
  generalize stepLimit c.network = steps
  rw [BoundTable.overflowed_run hfit]
  rfl

theorem Context.lowerBounds_of_fit {W : Type} [Weight W] (hfit : c.StaysFit) :
    lowerBounds c target = .ok (c.boundsTo target : Array W) :=
  lowerBounds_eq_ok.mpr ⟨overflowed_boundTable hfit, rfl⟩

theorem BoundTable.lowerBounds_of_closed {done : VertexId → Bool} {t : BoundTable Exact}
    (hempty : t.queue.toList = []) (h : t.Inv c done) (hclosed : t.Closed c done)
    (htarget : t.Within target 0) : c.LowerBounds target t.bounds := by
  refine ⟨h.nonneg, ?_, fun e he β q hβ hq => ?_⟩
  · obtain ⟨q, hq, hle⟩ := htarget
    have hq0 := Exact.nonneg_finite.mp (hq ▸ h.nonneg target)
    rw [le_antisymm hle hq0] at hq
    exact hq
  · refine hclosed e he ?_ β q hβ hq
    by_contra hd
    rw [Bool.not_eq_true] at hd
    have := h.pending _ q hd hq
    rw [hempty] at this
    cases this

/-- The table that a search uses is one of lower bounds. -/
theorem Context.lowerBounds_spec (hn : c.network.Wired) (hfit : c.StaysFit) (hb : c.BoundsNonneg)
    (ht : target < c.network.vertices.size) : c.LowerBounds target (c.boundsTo target) := by
  have hsteps := BoundTable.start_le_stepLimit (c := c) ht
  have hspec := BoundTable.run_spec hn hfit hb _ (BoundTable.inv_start ht)
    (fun _ _ hd => nomatch hd) hsteps
  rw [boundsTo_def]
  beta_reduce
  unfold boundTable
  generalize stepLimit c.network = steps at hspec ⊢
  generalize BoundTable.run c steps
    (BoundTable.start c.network.vertices.size target : BoundTable Exact) = t at hspec ⊢
  obtain ⟨hempty, ⟨done, h, hclosed⟩, hlow⟩ := hspec
  exact BoundTable.lowerBounds_of_closed hempty h hclosed
    (hlow target 0 ⟨0, by rw [BoundTable.get_start ht, if_pos rfl], le_refl 0⟩)

end JourneyPlanner
