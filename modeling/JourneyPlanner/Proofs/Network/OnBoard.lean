import JourneyPlanner.Proofs.Network.Naming

/-!
# On board

A pattern has one arrival and one departure vertex at each of its stops. The edges that touch them
are those that the pattern asks for, in order and once each (`FrequencyPattern.LaidOut`): no later
pattern, no street and no timed transfer comes near them.
-/

namespace JourneyPlanner

/-- The pattern on whose vehicles a vertex of the kind is. -/
def VertexKind.pattern? : VertexKind → Option Nat
  | .street | .stop _ => none
  | .arrive k _ | .depart k _ => some k

theorem VertexKind.pattern?_of_isGround {κ : VertexKind} (h : κ.isGround = true) :
    κ.pattern? = none := by
  cases κ with
  | street => rfl
  | stop id => rfl
  | arrive k i => cases h
  | depart k i => cases h

/-- Whether an end of an edge is on board of a pattern. -/
def Edge.touches (kind : VertexId → Option VertexKind) (k : Nat) (e : Edge) : Bool :=
  (kind e.tail).bind VertexKind.pattern? == some k ||
    (kind e.head).bind VertexKind.pattern? == some k

/-- The edges that a pattern asks for at its stop `i`, when its vertices are given by position: the
vehicle is boarded before the last stop and goes on to the next, it is alighted from after the
first, and in between it also stands still. -/
def FrequencyPattern.linksAt (p : FrequencyPattern) (stop arrive depart : Nat → VertexId)
    (i : Nat) : List (VertexId × VertexId × Link) :=
  (if i + 1 < p.stops.length then
    [(stop i, depart i, .board p i), (depart i, arrive (i + 1), .hop p i (i + 1))] else []) ++
  (if 0 < i then [(arrive i, stop i, .alight p i)] else []) ++
  (if 0 < i ∧ i + 1 < p.stops.length then [(arrive i, depart i, .dwell p i)] else [])

/-- The edges that touch a pattern, in order. -/
def touching (kind : VertexId → Option VertexKind) (edges : Array Edge) (k : Nat) : List Edge :=
  edges.toList.filter (Edge.touches kind k)

/-- The pattern `k` has one vertex for each side of each of its stops and its edges, and no other
edge touches it. -/
structure FrequencyPattern.LaidOut (p : FrequencyPattern) (kind : VertexId → Option VertexKind)
    (edges : Array Edge) (k : Nat) (stop arrive depart : Nat → VertexId) : Prop where
  stop_kind : ∀ i s, p.stops[i]? = some s → kind (stop i) = some (.stop s.stop)
  arrive_iff : ∀ v i, kind v = some (.arrive k i) ↔ i < p.stops.length ∧ v = arrive i
  depart_iff : ∀ v i, kind v = some (.depart k i) ↔ i < p.stops.length ∧ v = depart i
  edges_eq : (touching kind edges k).map Edge.ends =
    (List.range p.stops.length).flatMap (p.linksAt stop arrive depart)

variable {p : FrequencyPattern} {stop arrive depart : Nat → VertexId}

/-- A pattern stays laid out when no vertex comes on board of it and no edge touches it. -/
theorem FrequencyPattern.LaidOut.kept {kind kind' : VertexId → Option VertexKind}
    {edges edges' : Array Edge} {k : Nat} (h : p.LaidOut kind edges k stop arrive depart)
    (hkept : ∀ v κ, kind v = some κ → kind' v = some κ)
    (hnone : ∀ v κ, kind' v = some κ → κ.pattern? = some k → kind v = some κ)
    (hedges : touching kind' edges' k = touching kind edges k) :
    p.LaidOut kind' edges' k stop arrive depart where
  stop_kind i s hi := hkept _ _ (h.stop_kind i s hi)
  arrive_iff v i := ⟨fun hv => (h.arrive_iff v i).mp (hnone v _ hv rfl),
    fun hv => hkept _ _ ((h.arrive_iff v i).mpr hv)⟩
  depart_iff v i := ⟨fun hv => (h.depart_iff v i).mp (hnone v _ hv rfl),
    fun hv => hkept _ _ ((h.depart_iff v i).mpr hv)⟩
  edges_eq := hedges ▸ h.edges_eq

theorem FrequencyPattern.ends_linksAt {kind : VertexId → Option VertexKind} {k i : Nat}
    (hstop : ∃ s, kind (stop i) = some (.stop s))
    (harrive : kind (arrive i) = some (.arrive k i))
    (hnext : i + 1 < p.stops.length → kind (arrive (i + 1)) = some (.arrive k (i + 1)))
    (hdepart : kind (depart i) = some (.depart k i)) {x : VertexId × VertexId × Link}
    (hx : x ∈ p.linksAt stop arrive depart i) (l : Nat) :
    ((kind x.1).bind VertexKind.pattern? == some l ||
      (kind x.2.1).bind VertexKind.pattern? == some l) = (k == l) := by
  obtain ⟨s, hs⟩ := hstop
  unfold linksAt at hx
  simp only [List.mem_append, List.mem_ite_nil_right, List.mem_cons, List.not_mem_nil,
    or_false] at hx
  rcases hx with (⟨hi, rfl | rfl⟩ | ⟨hi, rfl⟩) | ⟨hi, rfl⟩
  · simp [hs, hdepart, VertexKind.pattern?]
  · simp [hnext hi, hdepart, VertexKind.pattern?]
  · simp [hs, harrive, VertexKind.pattern?]
  · simp [harrive, hdepart, VertexKind.pattern?]

namespace Draft

theorem patternLinks_eq {platforms : List Platform} :
    ∀ {i : Nat}, p.stops.length = i + platforms.length →
      (∀ m pl, platforms[m]? = some pl →
        stop (i + m) = pl.stop ∧ arrive (i + m) = pl.arrive ∧ depart (i + m) = pl.depart) →
      patternLinks p i platforms =
        (List.range' i platforms.length).flatMap (p.linksAt stop arrive depart) := by
  induction platforms with
  | nil => exact fun _ _ => rfl
  | cons here rest ih =>
    intro i hlen hpl
    rw [List.length_cons] at hlen
    obtain ⟨hstop, harrive, hdepart⟩ := hpl 0 here rfl
    rw [Nat.add_zero] at hstop harrive hdepart
    have hrest := ih (i := i + 1) (by omega) fun m pl hm => by
      rw [show i + 1 + m = i + (m + 1) by omega]
      exact hpl (m + 1) pl hm
    rw [List.length_cons, List.range'_succ, List.flatMap_cons]
    unfold patternLinks
    refine congrArg₂ (· ++ ·) ?_ hrest
    unfold FrequencyPattern.linksAt
    rw [hstop, harrive, hdepart]
    cases rest with
    | nil =>
      rw [List.length_nil] at hlen
      have hlast : ¬ i + 1 < p.stops.length := by omega
      rcases Nat.eq_zero_or_pos i with rfl | hi
      · simp [hlast]
      · simp [hlast, hi, Nat.ne_of_gt hi]
    | cons next others =>
      rw [List.length_cons] at hlen
      have hnext : i + 1 < p.stops.length := by omega
      rw [(hpl 1 next rfl).2.1]
      rcases Nat.eq_zero_or_pos i with rfl | hi
      · simp [hnext]
      · simp [hnext, hi, Nat.ne_of_gt hi]

/-! ## Platforms -/

variable {d d' : Draft} {platforms : List Platform} {stops : List VertexId}

/-- The vertex at a position of a list of platforms, by what it is for. -/
def vertexAt (platforms : List Platform) (side : Platform → VertexId) (i : Nat) : VertexId :=
  (platforms[i]?.map side).getD 0

theorem vertexAt_eq {i : Nat} {pl : Platform} (h : platforms[i]? = some pl)
    (side : Platform → VertexId) : vertexAt platforms side i = side pl := by
  unfold vertexAt
  rw [h]
  rfl

theorem patternLinks_platforms (hlen : p.stops.length = platforms.length) :
    patternLinks p 0 platforms =
      (List.range p.stops.length).flatMap (p.linksAt (vertexAt platforms (·.stop))
        (vertexAt platforms (·.arrive)) (vertexAt platforms (·.depart))) := by
  rw [List.range_eq_range', hlen]
  refine patternLinks_eq (hlen.trans (Nat.zero_add _).symm) fun m pl hm => ?_
  rw [Nat.zero_add]
  exact ⟨vertexAt_eq hm _, vertexAt_eq hm _, vertexAt_eq hm _⟩

/-- Each edge between the platforms of a pattern touches this pattern and no other. -/
theorem Platforms.touches {k : Nat} (h : d.Platforms k 0 stops platforms)
    (hlen : p.stops.length = platforms.length)
    (hstop : ∀ pl ∈ platforms, ∃ s, d.kindOf? pl.stop = some (.stop s)) {e : Edge}
    (he : e.ends ∈ patternLinks p 0 platforms) (l : Nat) : e.touches d.kindOf? l = (k == l) := by
  have hat : ∀ {i}, i < p.stops.length → ∃ pl, platforms[i]? = some pl ∧
      d.kindOf? pl.arrive = some (.arrive k i) ∧ d.kindOf? pl.depart = some (.depart k i) := by
    intro i hi
    rw [hlen] at hi
    have harrive := h.arrive_kind i _ (List.getElem?_eq_getElem hi)
    have hdepart := h.depart_kind i _ (List.getElem?_eq_getElem hi)
    rw [Nat.zero_add] at harrive hdepart
    exact ⟨platforms[i], List.getElem?_eq_getElem hi, harrive, hdepart⟩
  rw [patternLinks_platforms hlen] at he
  obtain ⟨i, hi, he⟩ := List.mem_flatMap.mp he
  obtain ⟨pl, hpl, harrive, hdepart⟩ := hat (List.mem_range.mp hi)
  refine FrequencyPattern.ends_linksAt ?_ ?_ (fun hnext => ?_) ?_ he l
  · rw [vertexAt_eq hpl]
    exact hstop pl (List.mem_of_getElem? hpl)
  · rw [vertexAt_eq hpl]
    exact harrive
  · obtain ⟨next, hn, harrive, -⟩ := hat hnext
    rw [vertexAt_eq hn]
    exact harrive
  · rw [vertexAt_eq hpl]
    exact hdepart

theorem kindOf?_of_addPlatforms {trip : TripId} {k : Nat} {stops : List VertexId} :
    ∀ {i : Nat} {d d' : Draft} {platforms : List Platform},
      (addPlatforms trip k i stops).Gives d platforms d' →
        ∀ v κ, d'.kindOf? v = some κ → d.kindOf? v = some κ ∨ ∃ m pl, platforms[m]? = some pl ∧
          (κ = .arrive k (i + m) ∧ v = pl.arrive ∨ κ = .depart k (i + m) ∧ v = pl.depart) := by
  induction stops with
  | nil =>
    intro i d d' platforms h v κ hv
    obtain ⟨-, rfl⟩ := Step.gives_pure.mp h
    exact .inl hv
  | cons stop rest ih =>
    intro i d d' platforms h v κ hv
    unfold addPlatforms at h
    simp only [Step.gives_bind, Step.gives_pure] at h
    obtain ⟨⟨arrive, depart⟩, d₁, h₁, others, d₂, h₂, rfl, rfl⟩ := h
    obtain ⟨rfl, rfl, point, -, -, rfl⟩ := gives_addOnBoard_eq h₁
    rcases ih h₂ v κ hv with hold | ⟨m, pl, hm, hκ⟩
    · rw [kindOf?_withVertex, kindOf?_withVertex] at hold
      split_ifs at hold with hdepart harrive
      · exact .inr ⟨0, _, rfl, .inr ⟨(Option.some.inj hold).symm, hdepart.trans
          (Array.size_push _)⟩⟩
      · exact .inr ⟨0, _, rfl, .inl ⟨(Option.some.inj hold).symm, harrive⟩⟩
      · exact .inl hold
    · rw [show i + 1 + m = i + (m + 1) by omega] at hκ
      exact .inr ⟨m + 1, pl, hm, hκ⟩

/-! ## Patterns laid out -/

/-- Every vertex on board belongs to a pattern, and every pattern is laid out. -/
structure Served (d : Draft) : Prop where
  pattern_lt : ∀ v κ k, d.kindOf? v = some κ → κ.pattern? = some k → k < d.patterns.size
  laidOut : ∀ k p, d.patternAt? k = some p →
    ∃ stop arrive depart, p.LaidOut d.kindOf? d.edges k stop arrive depart

theorem OnGround.served (hd : d.OnGround) (hp : d.patterns = #[]) : d.Served where
  pattern_lt v κ k hv hk := by
    rw [VertexKind.pattern?_of_isGround (hd.ground v κ hv)] at hk
    cases hk
  laidOut k p hk := by
    rw [patternAt?, hp] at hk
    cases hk

/-- The edges of a pattern stay the same when vertices are kept and each new edge is elsewhere. -/
theorem touching_of_edges {added : List Edge} {k : Nat}
    (hedges : d'.edges.toList = d.edges.toList ++ added)
    (hkind : ∀ e ∈ d.edges, d'.kindOf? e.tail = d.kindOf? e.tail ∧
      d'.kindOf? e.head = d.kindOf? e.head)
    (hadded : ∀ e ∈ added, e.touches d'.kindOf? k = false) :
    touching d'.kindOf? d'.edges k = touching d.kindOf? d.edges k := by
  unfold touching
  have hnone : added.filter (Edge.touches d'.kindOf? k) = [] :=
    List.filter_eq_nil_iff.mpr fun e he => by simp [hadded e he]
  rw [hedges, List.filter_append, hnone, List.append_nil]
  refine List.filter_congr fun e he => ?_
  obtain ⟨htail, hhead⟩ := hkind e (Array.mem_toList_iff.mp he)
  unfold Edge.touches
  rw [htail, hhead]

theorem Grown.kindOf?_eq (h : d.Grown d') {v : VertexId} (hv : v < d.vertices.size) :
    d'.kindOf? v = d.kindOf? v := by
  obtain ⟨κ, hκ⟩ := exists_kindOf? hv
  rw [hκ]
  exact h.kept v κ hκ

theorem Served.addTimedTransfer (hd : d.Served) (hn : d.Named) {a b : StopId} {tail head : VertexId}
    (ht : d.stops[a.text]? = some tail) (hh : d.stops[b.text]? = some head) :
    (d.withEdge tail head .timedTransfer).Served := by
  have htail := (hn.stop_iff a tail).mp ht
  have hhead := (hn.stop_iff b head).mp hh
  refine ⟨hd.pattern_lt, fun k p hk => ?_⟩
  obtain ⟨stop, arrive, depart, hs⟩ := hd.laidOut k p hk
  refine ⟨stop, arrive, depart, hs.kept (fun _ _ hv => hv) (fun _ _ hv _ => hv) ?_⟩
  refine touching_of_edges Array.toList_push (fun _ _ => ⟨rfl, rfl⟩) fun e he => ?_
  obtain rfl := List.mem_singleton.mp he
  show ((d.kindOf? tail).bind _ == some k || (d.kindOf? head).bind _ == some k) = false
  rw [htail, hhead]
  rfl

theorem Served.ne_size (hd : d.Served) (v : VertexId) :
    (d.kindOf? v).bind VertexKind.pattern? ≠ some d.patterns.size := by
  intro h
  obtain ⟨κ, hv, hκ⟩ := Option.bind_eq_some_iff.mp h
  exact Nat.lt_irrefl _ (hd.pattern_lt v κ _ hv hκ)

/-- The new vertices on board are at the platforms, one for each side. -/
theorem Served.kindOf?_addPlatforms {trip : TripId} (hd : d.Served)
    (h : (addPlatforms trip d.patterns.size 0 stops).Gives d platforms d') (v : VertexId)
    (i : Nat) :
    (d'.kindOf? v = some (.arrive d.patterns.size i) ↔
      i < platforms.length ∧ v = vertexAt platforms (·.arrive) i) ∧
    (d'.kindOf? v = some (.depart d.patterns.size i) ↔
      i < platforms.length ∧ v = vertexAt platforms (·.depart) i) := by
  have hpl := (gives_addPlatforms h).2.1
  have hnew := kindOf?_of_addPlatforms h
  refine ⟨⟨fun hv => ?_, ?_⟩, ⟨fun hv => ?_, ?_⟩⟩
  · rcases hnew v _ hv with hv | ⟨m, pl, hm, ⟨hκ, rfl⟩ | ⟨hκ, -⟩⟩
    · exact absurd (congrArg (·.bind VertexKind.pattern?) hv) (hd.ne_size v)
    · obtain ⟨-, rfl⟩ := VertexKind.arrive.inj hκ
      rw [Nat.zero_add]
      exact ⟨(List.getElem?_eq_some_iff.mp hm).1, (vertexAt_eq hm _).symm⟩
    · cases hκ
  · rintro ⟨hi, rfl⟩
    rw [vertexAt_eq (List.getElem?_eq_getElem hi),
      hpl.arrive_kind i _ (List.getElem?_eq_getElem hi), Nat.zero_add]
  · rcases hnew v _ hv with hv | ⟨m, pl, hm, ⟨hκ, -⟩ | ⟨hκ, rfl⟩⟩
    · exact absurd (congrArg (·.bind VertexKind.pattern?) hv) (hd.ne_size v)
    · cases hκ
    · obtain ⟨-, rfl⟩ := VertexKind.depart.inj hκ
      rw [Nat.zero_add]
      exact ⟨(List.getElem?_eq_some_iff.mp hm).1, (vertexAt_eq hm _).symm⟩
  · rintro ⟨hi, rfl⟩
    rw [vertexAt_eq (List.getElem?_eq_getElem hi),
      hpl.depart_kind i _ (List.getElem?_eq_getElem hi), Nat.zero_add]

/-- What a new pattern `p` adds to a draft, given its platforms. -/
structure Adds (p : FrequencyPattern) (platforms : List Platform) (d d' : Draft) : Prop where
  patterns_eq : d'.patterns = d.patterns.push p
  /-- Old vertices stay, and new ones are on board of the new pattern. -/
  kept : ∀ v κ, d.kindOf? v = some κ → d'.kindOf? v = some κ
  new_kind : ∀ v κ, d'.kindOf? v = some κ →
    d.kindOf? v = some κ ∨ κ.pattern? = some d.patterns.size
  ends_kept : ∀ e ∈ d.edges, d'.kindOf? e.tail = d.kindOf? e.tail ∧
    d'.kindOf? e.head = d.kindOf? e.head
  stop_kind : ∀ i s, p.stops[i]? = some s →
    d'.kindOf? (vertexAt platforms (·.stop) i) = some (.stop s.stop)
  arrive_iff : ∀ v i, d'.kindOf? v = some (.arrive d.patterns.size i) ↔
    i < p.stops.length ∧ v = vertexAt platforms (·.arrive) i
  depart_iff : ∀ v i, d'.kindOf? v = some (.depart d.patterns.size i) ↔
    i < p.stops.length ∧ v = vertexAt platforms (·.depart) i
  /-- New edges are those of the new pattern, and touch no other. -/
  edges_eq : ∃ added, d'.edges.toList = d.edges.toList ++ added ∧
    added.map Edge.ends =
      (List.range p.stops.length).flatMap (p.linksAt (vertexAt platforms (·.stop))
        (vertexAt platforms (·.arrive)) (vertexAt platforms (·.depart))) ∧
    ∀ e ∈ added, ∀ l, e.touches d'.kindOf? l = (d.patterns.size == l)

theorem Served.adds {k : Nat} (hd : d.Served) (h : (Draft.addPattern p).Gives d k d')
    (hw : d.Wired) : ∃ platforms, d.Adds p platforms d' := by
  obtain ⟨stops, platforms, d₁, hstops, hplatforms, rfl⟩ := gives_addPattern h
  obtain ⟨hgrown, hpl, -⟩ := gives_addPlatforms hplatforms
  obtain ⟨added, hadded, hends⟩ := edges_withEdges (patternLinks p 0 platforms) d₁
  have hlen : p.stops.length = platforms.length := by
    rw [hstops.length_eq, ← hpl.stop_eq, List.length_map]
  have hat {i : Nat} {s : PatternStop} := hw.exists_platform hgrown hpl hstops (i := i) (s := s)
  -- the final draft has the vertices of the one with the platforms
  generalize hd' : ({ d₁.withEdges (patternLinks p 0 platforms) with
    patterns := d.patterns.push p } : Draft) = d'
  have hkind : d'.kindOf? = d₁.kindOf? := by
    rw [← hd', withEdges_eq]
    rfl
  refine ⟨platforms, by rw [← hd'], hkind ▸ hgrown.kept, fun v κ hv => ?_, fun e he => ?_,
    fun i s hs => ?_, fun v i => ?_, fun v i => ?_, added, ?_, ?_, fun e he l => ?_⟩
  · rw [hkind] at hv
    rcases kindOf?_of_addPlatforms hplatforms v κ hv with hv | ⟨m, pl, -, ⟨rfl, -⟩ | ⟨rfl, -⟩⟩
    · exact .inl hv
    · exact .inr rfl
    · exact .inr rfl
  · exact ⟨hkind ▸ hgrown.kindOf?_eq (hw.tail_lt he), hkind ▸ hgrown.kindOf?_eq (hw.head_lt he)⟩
  · obtain ⟨pl, hi, hκ⟩ := hat hs
    rw [vertexAt_eq hi, hkind, hκ]
  · rw [hkind, hlen]
    exact (hd.kindOf?_addPlatforms hplatforms v i).1
  · rw [hkind, hlen]
    exact (hd.kindOf?_addPlatforms hplatforms v i).2
  · rw [← hd', ← hgrown.edges_eq]
    exact hadded
  · rw [hends, patternLinks_platforms hlen]
  · rw [hkind]
    refine hpl.touches hlen (fun pl hpl' => ?_) (hends ▸ List.mem_map_of_mem he) l
    obtain ⟨i, hi, rfl⟩ := List.mem_iff_getElem.mp hpl'
    obtain ⟨pl, hpl', hκ⟩ := hat (List.getElem?_eq_getElem (hlen ▸ hi))
    rw [List.getElem?_eq_getElem hi] at hpl'
    exact ⟨_, Option.some.inj hpl' ▸ hκ⟩

/-- The new pattern is laid out: the edges that were there before do not touch it. -/
theorem Adds.laidOut (h : d.Adds p platforms d') (hd : d.Served) :
    p.LaidOut d'.kindOf? d'.edges d.patterns.size (vertexAt platforms (·.stop))
      (vertexAt platforms (·.arrive)) (vertexAt platforms (·.depart)) := by
  refine ⟨h.stop_kind, h.arrive_iff, h.depart_iff, ?_⟩
  obtain ⟨added, hedges, hends, htouches⟩ := h.edges_eq
  have hnone : d.edges.toList.filter (Edge.touches d'.kindOf? d.patterns.size) = [] := by
    refine List.filter_eq_nil_iff.mpr fun e he => ?_
    obtain ⟨htail, hhead⟩ := h.ends_kept e (Array.mem_toList_iff.mp he)
    unfold Edge.touches
    rw [htail, hhead, Bool.or_eq_true, beq_iff_eq, beq_iff_eq, not_or]
    exact ⟨hd.ne_size _, hd.ne_size _⟩
  have hall : added.filter (Edge.touches d'.kindOf? d.patterns.size) = added :=
    List.filter_eq_self.mpr fun e he => by rw [htouches e he, beq_self_eq_true]
  unfold touching
  rw [hedges, List.filter_append, hnone, hall, List.nil_append, hends]

theorem Adds.laidOut_old {q : FrequencyPattern} {l : Nat} (h : d.Adds p platforms d')
    (hq : q.LaidOut d.kindOf? d.edges l stop arrive depart) (hl : l ≠ d.patterns.size) :
    q.LaidOut d'.kindOf? d'.edges l stop arrive depart := by
  refine hq.kept h.kept (fun v κ hv hκ => ?_) ?_
  · refine (h.new_kind v κ hv).resolve_right fun hnew => ?_
    exact hl (Option.some.inj (hκ.symm.trans hnew))
  · obtain ⟨added, hedges, -, htouches⟩ := h.edges_eq
    refine touching_of_edges hedges h.ends_kept fun e he => ?_
    rw [htouches e he l]
    exact beq_eq_false_iff_ne.mpr (Ne.symm hl)

/-- A new pattern is served, and the others are served as before. -/
theorem Served.addPattern {k : Nat} (h : (Draft.addPattern p).Gives d k d') (hd : d.Served)
    (hw : d.Wired) : d'.Served := by
  obtain ⟨platforms, ha⟩ := hd.adds h hw
  refine ⟨fun v κ l hv hl => ?_, fun l q hq => ?_⟩
  · rw [ha.patterns_eq, Array.size_push]
    rcases ha.new_kind v κ hv with hv | hκ
    · exact Nat.lt_succ_of_lt (hd.pattern_lt v κ l hv hl)
    · exact Option.some.inj (hκ.symm.trans hl) ▸ Nat.lt_succ_self _
  · rw [patternAt?, ha.patterns_eq, Array.getElem?_push] at hq
    split_ifs at hq with hl
    · obtain rfl := Option.some.inj hq
      subst hl
      exact ⟨_, _, _, ha.laidOut hd⟩
    · obtain ⟨stop, arrive, depart, hs⟩ := hd.laidOut l q hq
      exact ⟨stop, arrive, depart, ha.laidOut_old hs hl⟩

end Draft

end JourneyPlanner
