import JourneyPlanner.Proofs.Journey.Bookkeeping
import JourneyPlanner.Proofs.Search.LegalPaths

/-!
# Vehicles that were found before they are left

An edge that leaves a vehicle does not look at the trip being ridden. On the ground no such edge
starts, and on board it is of the pattern that is ridden, so that on every path of a search it comes
after the edge that found the vehicle (`NetworkDescription.left_after_found`). The one exception is
the first edge of a search that starts at a vertex of a pattern, where nobody is on board.
-/

namespace JourneyPlanner

variable {W : Type} [Weight W] {c : Context} {e : Edge} {s s' origin : State W}
  {taken : List (Passage W)}

/-- Whether a chain of edges has found a vehicle of a trip and left none since. -/
def Context.FoundIn (c : Context) (taken : List (Passage W)) (trip : Trip) : Prop :=
  ∃ since y before, taken = since ++ y :: before ∧ y.edge.finds c.arriveBy = true ∧
    y.edge.trip? = some trip ∧ ∀ z ∈ since, z.edge.leaves c.arriveBy = false

omit [Weight W] in
theorem Context.foundIn_cons {trip : Trip} (hfinds : e.finds c.arriveBy = true)
    (htrip : e.trip? = some trip) : c.FoundIn (⟨e, s⟩ :: taken) trip :=
  ⟨[], _, taken, rfl, hfinds, htrip, fun _ hz => absurd hz List.not_mem_nil⟩

omit [Weight W] in
theorem Context.FoundIn.cons {trip : Trip} (h : c.FoundIn taken trip)
    (hleaves : e.leaves c.arriveBy = false) : c.FoundIn (⟨e, s⟩ :: taken) trip := by
  obtain ⟨since, y, before, rfl, hfinds, htrip, hsince⟩ := h
  exact ⟨⟨e, s⟩ :: since, y, before, rfl, hfinds, htrip,
    List.forall_mem_cons.mpr ⟨hleaves, hsince⟩⟩

/-- Off every vehicle, but at a vertex of a pattern. -/
structure Context.Stranded (c : Context) (s : State W) : Prop where
  trip_eq : s.trip = none
  not_ground : ¬ c.network.IsGround s.vertex

/-- Where a chain of edges leads: to the ground, or on board of a vehicle that it has found. It may
start where neither holds. -/
inductive Context.Rider (c : Context) (taken : List (Passage W)) (s : State W) : Prop
  | onFoot (foot : c.OnFoot s)
  | aboard {k : Nat} {p : FrequencyPattern} (aboard : c.Aboard s k p)
      (found : c.FoundIn taken p.trip)
  | stranded (stranded : c.Stranded s) (unmoved : taken = [])

/-- Who is stranded gets to the ground by an edge for leaving vehicles, and nowhere else. -/
theorem Context.Stranded.takes (hn : c.network.Wired) (h : c.Stranded s)
    (he : e ∈ c.network.edges) (hsrc : e.source c.arriveBy = s.vertex) (ht : c.Takes e s s') :
    c.OnFoot s' := by
  cases ht with
  | @find g _ _ _ _ _ hl hside _ =>
    obtain ⟨k, st, -, -, hstop, -⟩ := hn.gate he hl
    rw [Bool.eq_not.mpr hside, Bool.not_not, hsrc] at hstop
    exact absurd ⟨_, hstop, rfl⟩ h.not_ground
  | @leave g stop hl hside _ _ _ =>
    obtain ⟨k, st, -, -, hstop, -⟩ := hn.gate he hl
    rw [hside, Edge.source_not] at hstop
    exact ⟨rfl, _, hstop, rfl⟩
  | stay _ htrip _ _ =>
    rw [h.trip_eq] at htrip
    cases htrip
  | change hl _ => exact absurd (hsrc ▸ hn.ground he (.inl hl) c.arriveBy) h.not_ground
  | walk hl _ _ _ => exact absurd (hsrc ▸ hn.ground he (.inr ⟨_, hl⟩) c.arriveBy) h.not_ground

theorem Context.Rider.take (hn : c.network.Wired) (h : c.Rider taken s)
    (he : e ∈ c.network.edges) (hsrc : e.source c.arriveBy = s.vertex) (ht : c.Takes e s s') :
    c.Rider (⟨e, s⟩ :: taken) s' := by
  cases h with
  | onFoot hfoot =>
    rcases ht.onFoot hn hfoot he hsrc with
      ⟨g, k, stop, meeting, wait, day, penalty, hfinds, rfl⟩ | ⟨hground, rfl | ⟨_, _, _, -, rfl⟩⟩
    · refine .aboard hfinds.aboard (Context.foundIn_cons ?_ ?_)
      · rw [Edge.finds_of_gate hfinds.link_eq]
        exact bne_iff_ne.mpr hfinds.side
      · unfold Edge.trip?
        rw [Edge.gate?_eq_some.mpr hfinds.link_eq]
        rfl
    · exact .onFoot ⟨hfoot.trip_eq, hground⟩
    · exact .onFoot ⟨hfoot.trip_eq, hground⟩
  | aboard haboard hfound =>
    rcases ht.aboard hn haboard he hsrc with
      ⟨κ, κ', t, t', seconds, hstays, rfl⟩ | ⟨g, stop, hleaves, rfl⟩
    · exact .aboard (haboard.moved hstays)
        (hfound.cons (Edge.not_leaves (Edge.gate?_eq_none_of_stay hstays.link_eq)))
    · exact .onFoot ⟨rfl, _, hleaves.stop_kind, rfl⟩
  | stranded hstranded _ => exact .onFoot (hstranded.takes hn he hsrc ht)

/-- An edge that leaves a vehicle leaves the one that was found last, or is the first edge. -/
theorem Context.Rider.leaves (hn : c.network.Wired) (h : c.Rider taken s)
    (he : e ∈ c.network.edges) (hsrc : e.source c.arriveBy = s.vertex) (ht : c.Takes e s s')
    (hleaves : e.leaves c.arriveBy = true) :
    (∃ trip, e.trip? = some trip ∧ c.FoundIn taken trip) ∨
      taken = [] ∧ ¬ c.network.IsGround s.vertex := by
  cases h with
  | onFoot hfoot =>
    obtain ⟨g, hl, hside⟩ := Edge.exists_gate_of_leaves hleaves
    exact absurd hside (hfoot.not_leave hn he hsrc hl)
  | @aboard k p haboard hfound =>
    rcases ht.aboard hn haboard he hsrc with
      ⟨κ, κ', t, t', seconds, hstays, rfl⟩ | ⟨g, stop, hleft, rfl⟩
    · rw [Edge.not_leaves (Edge.gate?_eq_none_of_stay hstays.link_eq)] at hleaves
      cases hleaves
    · refine .inl ⟨p.trip, ?_, hfound⟩
      unfold Edge.trip?
      rw [Edge.gate?_eq_some.mpr hleft.link_eq,
        Option.some.inj (haboard.pattern_eq.symm.trans hleft.pattern_eq)]
      rfl
  | stranded hstranded hunmoved => exact .inr ⟨hunmoved, hstranded.not_ground⟩

/-- Whether each edge of a chain that leaves a vehicle comes after one that found a vehicle of the
same trip, with none left in between. The first edge may be another that does not start on the
ground. -/
def Context.LeavesFound (c : Context) (origin : State W) (taken : List (Passage W)) : Prop :=
  ∀ x before, x :: before <:+ taken → x.edge.leaves c.arriveBy = true →
    (∃ trip, x.edge.trip? = some trip ∧ c.FoundIn before trip) ∨
      before = [] ∧ ¬ c.network.IsGround origin.vertex

theorem Context.Leads.rider (hn : c.network.Wired) (horigin : origin.trip = none)
    (h : c.Leads origin taken s) : c.Rider taken s ∧ c.LeavesFound origin taken := by
  induction h with
  | start =>
    refine ⟨?_, fun x before hsuffix => absurd (List.suffix_nil.mp hsuffix) (List.cons_ne_nil _ _)⟩
    by_cases hground : c.network.IsGround origin.vertex
    · exact .onFoot ⟨horigin, hground⟩
    · exact .stranded ⟨horigin, hground⟩ rfl
  | @take taken s s' e h he ht ih =>
    obtain ⟨hrider, hfound⟩ := ih
    obtain ⟨he, hsrc⟩ := hn.mem_edgesFrom.mp he
    have ht := Edge.traverse_eq_ok.mp ht
    refine ⟨hrider.take hn he hsrc ht, fun x before hsuffix hleaves => ?_⟩
    rcases List.suffix_cons_iff.mp hsuffix with heq | hsuffix
    · obtain ⟨rfl, rfl⟩ := List.cons.inj heq
      refine (hrider.leaves hn he hsrc ht hleaves).imp_right fun ⟨hnil, hground⟩ => ⟨hnil, ?_⟩
      subst hnil
      cases h
      exact hground
    · exact hfound x before hsuffix hleaves

/-- On every path of a search each edge that leaves a vehicle comes after one that found a vehicle
of the same trip, with none left in between. Only the first edge of a search that does not start on
the ground may leave a vehicle that was not found. -/
theorem NetworkDescription.left_after_found {description : NetworkDescription}
    {zones : ZoneDatabase} {n : Network} (hb : description.build zones = .ok n)
    (conditions : Std.TreeMap EdgeId (List Exposure))
    {k : Integers} {q : Query} {limits : SearchLimits} {r : SearchResult W}
    (hs : search k { n with conditions := conditions } q limits = .ok r) :
    ∃ c, Context.make k { n with conditions := conditions } q.request q.time = .ok c ∧
      ∀ t ∈ r.paths, (∃ taken, c.Leads q.begin taken t.last ∧ taken.map (·.state) = t.earlier) ∧
        ∀ taken, c.Leads q.begin taken t.last → taken.map (·.state) = t.earlier →
          c.LeavesFound (q.begin : State W) taken := by
  obtain ⟨c, hc, hpaths⟩ := search_sound hs
  refine ⟨c, hc, fun t ht => ⟨(hpaths t ht).1.leads, fun taken hleads _ => ?_⟩⟩
  obtain ⟨days, -, rfl⟩ := Context.make_eq_ok.mp hc
  exact (hleads.rider ((wired_of_build hb).withConditions conditions) rfl).2

/-- Both lines are left after they were found. -/
theorem shuttle_left_after_found : ∃ t : Trial shuttle shuttleQuery {}, ∃ path ∈ t.result.paths,
    ∃ taken, t.context.Leads shuttleQuery.begin taken path.last ∧
      taken.map (·.state) = path.earlier ∧ path.last.boardings = 2 ∧
        t.network.IsGround shuttleQuery.origin ∧
          t.context.LeavesFound (shuttleQuery.begin : State Exact) taken := by
  have h : (shuttleTrial?.any fun t =>
      (t.network.kindOf? shuttleQuery.origin).any (·.isGround) &&
        t.result.paths.any fun path => path.last.boardings == 2) = true := by
    decide +kernel
  obtain ⟨t, -, h⟩ := (Option.any_eq_true _ _).mp h
  rw [Bool.and_eq_true] at h
  obtain ⟨path, hpath, hboardings⟩ := List.any_eq_true.mp h.2
  obtain ⟨c, hc, hpaths⟩ :=
    NetworkDescription.left_after_found t.build_eq t.network.conditions t.search_eq
  obtain rfl := t.context_eq hc
  obtain ⟨⟨taken, hleads, hstates⟩, hfound⟩ := hpaths path hpath
  exact ⟨t, path, hpath, taken, hleads, hstates, beq_iff_eq.mp hboardings,
    Network.isGround_of_any h.1, hfound taken hleads hstates⟩

/-- From where the vehicles of a line arrive to the stop there. -/
def platformQuery : Query := ⟨4, 1, shuttleTime, {}⟩

/-- A search that starts at a vertex of a pattern gets off a vehicle that it never found. -/
theorem stairs_left_unfound : ∃ t : Trial (stairs true true) platformQuery {},
    ∃ path ∈ t.result.paths, ∃ x : Passage Exact,
      t.context.Leads platformQuery.begin [x] path.last ∧
        x.edge.leaves platformQuery.request.arriveBy = true := by
  have h : ((Trial.run? (stairs true true) platformQuery {} [0]).any fun t =>
      t.result.paths.any fun path =>
        path.earlier.length == 1 && path.last.cameBy .alight) = true := by
    decide +kernel
  obtain ⟨t, -, h⟩ := (Option.any_eq_true _ _).mp h
  obtain ⟨path, hpath, h⟩ := List.any_eq_true.mp h
  rw [Bool.and_eq_true, beq_iff_eq] at h
  obtain ⟨c, hc, hpaths⟩ := search_sound t.search_eq
  obtain rfl := t.context_eq hc
  obtain ⟨taken, hleads, hstates⟩ := (hpaths path hpath).1.leads
  rw [← hstates, List.length_map] at h
  obtain ⟨x, rfl⟩ := List.length_eq_one_iff.mp h.1
  refine ⟨t, path, hpath, x, hleads, ?_⟩
  cases hleads with
  | take _ _ ht =>
    rw [(Edge.traverse_eq_ok.mp ht).cameBy] at h
    exact h.2

end JourneyPlanner
