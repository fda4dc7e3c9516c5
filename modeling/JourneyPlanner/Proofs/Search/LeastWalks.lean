import Mathlib.Algebra.BigOperators.Group.List.Basic
import Mathlib.Order.Bounds.Basic
import JourneyPlanner.Proofs.Search.Completeness

/-!
# The least walks to a target

The table of lower bounds is the table of shortest paths. Whatever bound it holds is the sum along
some walk to the target, since an entry only ever comes from another one and an edge
(`BoundTable.Attained`), and it is no more than the sum along any walk, since no edge can lower it
further (`Context.LowerBounds.exists_le`). Both together make it the least one
(`NetworkDescription.lowerBounds_least`).
-/

namespace JourneyPlanner

variable {c : Context} {target v : VertexId} {e : Edge} {x β : ℚ} {bounds : Array Exact}

/-! ## Walks -/

/-- Whether edges of the network lead from a vertex to the target, one behind the other in the
direction of the search. -/
def Context.Walks (c : Context) (target : VertexId) : VertexId → List Edge → Prop
  | v, [] => v = target
  | v, e :: walk => e ∈ c.network.edges ∧ e.source c.arriveBy = v ∧
      Walks c target (e.target c.arriveBy) walk

/-- Whether the bound of each edge is a number. -/
def Context.HasBounds (c : Context) (walk : List Edge) : Prop :=
  ∀ e ∈ walk, Weight.isFinite (e.weightBound c : Exact) = true

/-- The sum of the bounds of edges that have one. -/
def Context.sumBounds (c : Context) (walk : List Edge) : ℚ :=
  (walk.map fun e => (e.weightBound c : Exact).value).sum

/-- The sums of bounds along the walks from a vertex to the target. -/
def Context.walkBounds (c : Context) (v target : VertexId) : Set ℚ :=
  {x | ∃ walk, c.Walks target v walk ∧ c.HasBounds walk ∧ x = c.sumBounds walk}

theorem Context.zero_mem_walkBounds (c : Context) (target : VertexId) :
    0 ∈ c.walkBounds target target := ⟨[], rfl, nofun, rfl⟩

theorem Context.add_mem_walkBounds (he : e ∈ c.network.edges)
    (hβ : e.weightBound c = Exact.finite β) (hx : x ∈ c.walkBounds (e.target c.arriveBy) target) :
    x + β ∈ c.walkBounds (e.source c.arriveBy) target := by
  obtain ⟨walk, hwalk, hfin, rfl⟩ := hx
  refine ⟨e :: walk, ⟨he, rfl, hwalk⟩, List.forall_mem_cons.mpr ⟨?_, hfin⟩, ?_⟩
  · rw [hβ, Exact.isFinite_finite]
  · unfold sumBounds
    rw [List.map_cons, List.sum_cons, hβ, add_comm]
    rfl

/-- No walk has a lower sum than the bound before it. -/
theorem Context.LowerBounds.exists_le (hb : c.LowerBounds target bounds) {walk : List Edge} :
    ∀ {v : VertexId}, c.Walks target v walk → c.HasBounds walk →
      ∃ q, bounds[v]?.getD Weight.infinity = .finite q ∧ q ≤ c.sumBounds walk := by
  induction walk with
  | nil =>
    intro v hv _
    rw [show v = target from hv]
    exact ⟨0, hb.target_eq, le_refl 0⟩
  | cons e walk ih =>
    rintro v ⟨he, rfl, hwalk⟩ hfin
    obtain ⟨hbound, hfin⟩ := List.forall_mem_cons.mp hfin
    obtain ⟨β, hβ⟩ := Exact.isFinite_iff.mp hbound
    obtain ⟨q, hq, hle⟩ := ih hwalk hfin
    obtain ⟨q', hq', hle'⟩ := hb.edge_le e he β q hβ hq
    refine ⟨q', hq', ?_⟩
    unfold sumBounds at hle ⊢
    rw [List.map_cons, List.sum_cons, hβ]
    calc q' ≤ q + β := hle'
      _ ≤ β + _ := by rw [add_comm]; exact add_le_add_right hle β

/-! ## Bounds are sums along walks -/

namespace BoundTable

variable {t : BoundTable Exact}

/-- Whether the table has a bound for each vertex, and every bound and every entry of the queue is
the sum along a walk to the target. -/
structure Attained (c : Context) (target : VertexId) (t : BoundTable Exact) : Prop where
  size_eq : t.bounds.size = c.network.vertices.size
  bound : ∀ v q, t.get v = .finite q → q ∈ c.walkBounds v target
  queued : ∀ y ∈ t.queue.toList, ∃ x, y.1 = .finite x ∧ x ∈ c.walkBounds y.2 target

theorem Attained.lower (h : t.Attained c target) (hv : v < t.bounds.size)
    (hx : x ∈ c.walkBounds v target) : (t.lower v (.finite x)).Attained c target := by
  refine ⟨?_, fun w q hq => ?_, fun y hy => ?_⟩
  · show (t.bounds.setIfInBounds v (.finite x)).size = _
    rw [Array.size_setIfInBounds, h.size_eq]
  · rw [get_lower hv] at hq
    split_ifs at hq with hw
    · cases hq
      exact hw ▸ hx
    · exact h.bound w q hq
  · rcases List.mem_cons.mp ((Queue.toList_push_perm cheaper t.queue _).mem_iff.mp hy) with rfl | hy
    · exact ⟨x, rfl, hx⟩
    · exact h.queued y hy

theorem relax_cases (c : Context) (x : ℚ) (t : BoundTable Exact) (e : Edge) :
    (∃ overflowed, relax c (.finite x) t e = { t with overflowed := overflowed }) ∨
      ∃ β, e.weightBound c = Exact.finite β ∧ e.source c.arriveBy < t.bounds.size ∧
        relax c (.finite x) t e = t.lower (e.source c.arriveBy) (.finite (x + β)) := by
  cases hfit : e.staySeconds c.integers with
  | error _ =>
    refine .inl ⟨true, ?_⟩
    unfold relax
    rw [hfit]
  | ok _ =>
    rw [relax_of_fit hfit]
    cases hs : t.bounds[e.source c.arriveBy]? with
    | none => exact .inl ⟨_, rfl⟩
    | some current =>
      simp only
      split_ifs with hc
      · obtain ⟨β, hβ⟩ := Exact.isFinite_iff.mp (Bool.and_eq_true_iff.mp hc).1
        exact .inr ⟨β, hβ, (Array.getElem?_eq_some_iff.mp hs).1,
          by rw [hβ, Exact.finite_add_finite]⟩
      · exact .inl ⟨_, rfl⟩

theorem Attained.relax (h : t.Attained c target) (he : e ∈ c.network.edges)
    (hx : x ∈ c.walkBounds (e.target c.arriveBy) target) :
    (BoundTable.relax c (.finite x) t e).Attained c target := by
  rcases relax_cases c x t e with ⟨overflowed, heq⟩ | ⟨β, hβ, hsize, heq⟩
  · rw [heq]
    exact ⟨h.size_eq, h.bound, h.queued⟩
  · rw [heq]
    exact h.lower hsize (Context.add_mem_walkBounds he hβ hx)

/-- A vertex whose entry is the sum along a walk is settled by such entries. -/
theorem Attained.settle (hn : c.network.Wired) (h : t.Attained c target)
    (hx : x ∈ c.walkBounds v target) :
    (BoundTable.settle c t (.finite x) v).Attained c target := by
  unfold BoundTable.settle
  split_ifs
  · exact h
  · refine List.foldlRecOn _ _ h fun t ht e he => ?_
    rw [hn.mem_edgesFrom, Edge.source_not] at he
    exact ht.relax he.1 (he.2.symm ▸ hx)

theorem Attained.run (hn : c.network.Wired) : ∀ (steps : Nat) {t : BoundTable Exact},
    t.Attained c target → (BoundTable.run c steps t).Attained c target
  | 0, _, h => h
  | steps + 1, t, h => by
    unfold BoundTable.run
    cases hpop : t.queue.pop? cheaper with
    | none => exact h
    | some r =>
      obtain ⟨⟨cost, v⟩, rest⟩ := r
      have hpopped := fun y => Queue.mem_toList_pop cheaper hpop (x := y)
      obtain ⟨x, hcost, hx⟩ := h.queued _ ((hpopped (cost, v)).mpr (.inl rfl))
      cases hcost
      have hrest : Attained c target { t with queue := rest } :=
        ⟨h.size_eq, h.bound, fun y hy => h.queued y ((hpopped y).mpr (.inr hy))⟩
      exact run hn steps (hrest.settle hn hx)

theorem size_start (n : Nat) (target : VertexId) :
    (start n target : BoundTable Exact).bounds.size = n := by
  show ((Array.replicate _ _).setIfInBounds target _).size = _
  rw [Array.size_setIfInBounds, Array.size_replicate]

theorem attained_start (ht : target < c.network.vertices.size) :
    (start c.network.vertices.size target).Attained c target := by
  refine ⟨size_start _ _, fun v q hq => ?_, fun y hy => ?_⟩
  · rw [get_start ht] at hq
    split_ifs at hq with hv
    cases hq
    exact hv ▸ c.zero_mem_walkBounds v
  · rw [toList_start ht, List.mem_singleton] at hy
    rw [hy]
    exact ⟨0, rfl, c.zero_mem_walkBounds target⟩

theorem run_start_of_le (ht : c.network.vertices.size ≤ target) (steps : Nat) :
    (BoundTable.run c steps (start c.network.vertices.size target : BoundTable Exact)).bounds =
      Array.replicate c.network.vertices.size Weight.infinity := by
  have hstart : (start c.network.vertices.size target : BoundTable Exact) =
      ⟨Array.replicate c.network.vertices.size Weight.infinity, .empty, false⟩ := by
    unfold start
    rw [if_neg (not_lt.mpr ht), Array.setIfInBounds_eq_of_size_le
      (by rw [Array.size_replicate]; exact ht)]
  rw [hstart]
  cases steps with
  | zero => rfl
  | succ steps => rfl

end BoundTable

/-! ## The table -/

theorem Context.boundsTo_attained (hn : c.network.Wired)
    (ht : target < c.network.vertices.size) :
    (c.boundsTo target : Array Exact).size = c.network.vertices.size ∧
      ∀ v q, (c.boundsTo target)[v]?.getD Weight.infinity = Exact.finite q →
        q ∈ c.walkBounds v target := by
  have h := (BoundTable.attained_start ht).run hn (stepLimit c.network)
  rw [boundsTo_def]
  beta_reduce
  unfold boundTable
  generalize stepLimit c.network = steps at h ⊢
  exact ⟨h.size_eq, h.bound⟩

theorem Context.boundsTo_of_le (ht : c.network.vertices.size ≤ target) :
    c.boundsTo target = Array.replicate c.network.vertices.size (Weight.infinity : Exact) := by
  rw [boundsTo_def]
  beta_reduce
  unfold boundTable
  exact BoundTable.run_start_of_le ht _

/-- What the table of the least walks to a target is. A vertex has the least sum of bounds along a
walk, or infinity where no walk has bounds; so no edge leads to a lower one, unless its own bound is
no number at all. -/
structure Context.LeastWalks (c : Context) (target : VertexId) (bounds : Array Exact) : Prop where
  size_eq : bounds.size = c.network.vertices.size
  target_eq : bounds[target]? = some (.finite 0)
  least : ∀ v < c.network.vertices.size, ∃ b, bounds[v]? = some b ∧
    ((∃ x, b = .finite x ∧ IsLeast (c.walkBounds v target) x) ∨
      (b = Weight.infinity ∧ c.walkBounds v target = ∅))
  edge_le : ∀ e ∈ c.network.edges, ∃ b b', bounds[e.source c.arriveBy]? = some b ∧
    bounds[e.target c.arriveBy]? = some b' ∧ (Weight.isNaN (e.weightBound c : Exact) = false →
      Weight.atMost b (e.weightBound c + b') = true)

theorem getElem?_of_lt {bounds : Array Exact} (hv : v < bounds.size) :
    bounds[v]? = some (bounds[v]?.getD Weight.infinity) := by
  rw [Array.getElem?_eq_getElem hv, Option.getD_some]

/-- Bounds that no edge lowers and that walks attain are the least ones. -/
theorem Context.LowerBounds.isLeast (hb : c.LowerBounds target bounds)
    (hattained : ∀ q, bounds[v]?.getD Weight.infinity = Exact.finite q →
      q ∈ c.walkBounds v target) :
    (∃ x, bounds[v]?.getD Weight.infinity = .finite x ∧ IsLeast (c.walkBounds v target) x) ∨
      (bounds[v]?.getD Weight.infinity = Weight.infinity ∧ c.walkBounds v target = ∅) := by
  have hle : ∀ y ∈ c.walkBounds v target,
      ∃ q, bounds[v]?.getD Weight.infinity = Exact.finite q ∧ q ≤ y := by
    rintro y ⟨walk, hwalk, hfin, rfl⟩
    exact hb.exists_le hwalk hfin
  rcases hb.nonneg v with ⟨x, -, hx⟩ | hinf
  · refine .inl ⟨x, hx, hattained x hx, fun y hy => ?_⟩
    obtain ⟨q, hq, hqy⟩ := hle y hy
    rwa [Exact.finite.inj (hx.symm.trans hq)]
  · refine .inr ⟨hinf, Set.eq_empty_iff_forall_notMem.mpr fun y hy => ?_⟩
    obtain ⟨q, hq, -⟩ := hle y hy
    rw [hinf] at hq
    cases hq

/-- The bound before an edge is at most that of the edge and the one behind it together. -/
theorem Context.LowerBounds.atMost_add (hb : c.LowerBounds target bounds)
    (he : e ∈ c.network.edges) (hnn : (e.weightBound c : Exact).Nonneg) :
    Weight.atMost (bounds[e.source c.arriveBy]?.getD Weight.infinity)
      (e.weightBound c + bounds[e.target c.arriveBy]?.getD Weight.infinity) = true := by
  have hsource := hb.nonneg (e.source c.arriveBy)
  rcases hnn with ⟨β, -, hβ⟩ | hinf
  · rcases hb.nonneg (e.target c.arriveBy) with ⟨q, -, hq⟩ | htarget
    · obtain ⟨q', hq', hle⟩ := hb.edge_le e he β q hβ hq
      rw [hq', hβ, hq, Exact.finite_add_finite, Exact.atMost_finite, add_comm]
      exact hle
    · rw [hβ, htarget]
      exact hsource.atMost_infinite
  · rw [hinf]
    rcases hb.nonneg (e.target c.arriveBy) with ⟨q, -, hq⟩ | htarget
    · rw [hq]
      exact hsource.atMost_infinite
    · rw [htarget]
      exact hsource.atMost_infinite

/-- The table of lower bounds to a vertex of a built network holds the least sum of the bounds of
edges along a walk there; to what is no vertex all bounds are infinite. -/
theorem NetworkDescription.lowerBounds_least {description : NetworkDescription}
    {zones : ZoneDatabase} {n : Network} (hb : description.build zones = .ok n)
    {conditions : Std.TreeMap EdgeId (List Exposure)}
    (hnet : c.network = { n with conditions := conditions }) (hr : c.request.Regular)
    (hd : n.DistancesNonneg) (target : VertexId) :
    ∃ bounds : Array Exact, lowerBounds c target = .ok bounds ∧
      (target < c.network.vertices.size → c.LeastWalks target bounds) ∧
      (c.network.vertices.size ≤ target →
        bounds = Array.replicate c.network.vertices.size Weight.infinity) := by
  have hn : c.network.Wired := hnet ▸ (wired_of_build hb).withConditions conditions
  have htimely : n.Timely := timely_of_build hb
  have hfits : c.StaysFit := Network.Timely.staysFit (hnet ▸ htimely) hn
  have hd : c.network.DistancesNonneg := hnet ▸ hd
  refine ⟨c.boundsTo target, Context.lowerBounds_of_fit hfits, fun ht => ?_,
    Context.boundsTo_of_le⟩
  have hbounds := Context.lowerBounds_spec hn hfits (Context.boundsNonneg hn hr hd) ht
  obtain ⟨hsize, hattained⟩ := Context.boundsTo_attained hn ht
  have hget : ∀ v < c.network.vertices.size, (c.boundsTo target : Array Exact)[v]? =
      some ((c.boundsTo target)[v]?.getD Weight.infinity) :=
    fun v hv => getElem?_of_lt (hsize.symm ▸ hv)
  refine ⟨hsize, ?_, fun v hv => ⟨_, hget v hv, hbounds.isLeast (hattained v)⟩, fun e he =>
    ⟨_, _, hget _ (hn.source_lt he _), hget _ ?_, fun hnum => hbounds.atMost_add he ?_⟩⟩
  · rw [hget target ht, hbounds.target_eq]
  · rw [← Edge.source_not]
    exact hn.source_lt he _
  · refine (Context.weightBound_nonneg hn hr hd he).resolve_right fun hnan => ?_
    rw [hnan] at hnum
    cases hnum

/-- From the first stop there is a way home along the lane; from the last stop there is none, as no
line runs back. -/
theorem shuttle_least_walks : ∃ (t : Trial shuttle shuttleQuery {}) (x : ℚ)
    (bounds : Array Exact), t.Fair ∧ 0 < x ∧ lowerBounds t.context 4 = .ok bounds ∧
    bounds[0]? = some (.finite x) ∧ IsLeast (t.context.walkBounds 0 4) x ∧
    bounds[3]? = some Weight.infinity ∧ t.context.walkBounds 3 4 = ∅ ∧
    lowerBounds t.context t.context.network.vertices.size =
      .ok (Array.replicate t.context.network.vertices.size (Weight.infinity : Exact)) := by
  have h : (shuttleTrial?.any fun t => t.isFair &&
      (lowerBounds t.context 4).toOption.any fun bounds : Array Exact =>
        (bounds[0]?.any fun b => Weight.isFinite b && Weight.less Weight.zero b) &&
          decide (bounds[3]? = some Weight.infinity)) = true := by
    decide +kernel
  obtain ⟨t, -, h⟩ := (Option.any_eq_true _ _).mp h
  rw [Bool.and_eq_true] at h
  obtain ⟨hfair, h⟩ := h
  obtain ⟨bounds, hbounds, h⟩ := (Option.any_eq_true _ _).mp h
  rw [Bool.and_eq_true, decide_eq_true_eq] at h
  obtain ⟨hstop, hend⟩ := h
  obtain ⟨b, hb, hstop⟩ := (Option.any_eq_true _ _).mp hstop
  rw [Bool.and_eq_true] at hstop
  obtain ⟨q, rfl⟩ := Exact.isFinite_iff.mp hstop.1
  have hpos : 0 < q := by
    have hless := hstop.2
    rwa [Exact.zero_eq, Exact.less_finite] at hless
  have hf := t.fair hfair
  have hr : t.context.request.Regular := t.request_eq ▸ hf.regular
  have hsize : 4 < t.context.network.vertices.size := t.network_eq ▸ hf.start_ground.lt_size
  obtain ⟨bounds', hbounds', hleast, -⟩ := NetworkDescription.lowerBounds_least t.build_eq
    t.network_eq hr hf.distances 4
  obtain ⟨none', hnone', -, hnone⟩ := NetworkDescription.lowerBounds_least t.build_eq
    t.network_eq hr hf.distances t.context.network.vertices.size
  have hbounds := eq_ok_of_toOption hbounds
  obtain rfl : bounds' = bounds := Except.ok.inj (hbounds'.symm.trans hbounds)
  obtain ⟨b, hb', h₀⟩ := (hleast hsize).least 0 (by omega)
  obtain ⟨b', hend', h₃⟩ := (hleast hsize).least 3 (by omega)
  obtain rfl := Option.some.inj (hb.symm.trans hb')
  obtain rfl := Option.some.inj (hend.symm.trans hend')
  refine ⟨t, q, _, hf, hpos, hbounds, hb, ?_, hend, ?_,
    hnone'.trans (congrArg _ (hnone (le_refl _)))⟩
  · rcases h₀ with ⟨x, hx, hx'⟩ | ⟨hinf, -⟩
    · exact Exact.finite.inj hx ▸ hx'
    · cases hinf
  · rcases h₃ with ⟨x, hx, -⟩ | ⟨-, hempty⟩
    · cases hx
    · exact hempty

end JourneyPlanner
