import JourneyPlanner.Proofs.Arithmetic.Exact
import JourneyPlanner.Proofs.Journey.Days
import JourneyPlanner.Proofs.Journey.Change
import JourneyPlanner.Network.Description
import JourneyPlanner.Proofs.Search.Paths

/-!
# The rides of built networks

On a network that a description builds, every completed ride follows one scheduled run, and every
change between two rides keeps the rule for it: on every journey, and so on every path that a
search finds.
-/

namespace JourneyPlanner

variable {W : Type} [Weight W]

/-- Every ride is one run of a pattern, on every journey and on every path of a search. -/
theorem NetworkDescription.every_ride_is_one_run {description : NetworkDescription} {n : Network}
    {zones : ZoneDatabase} (hb : description.build zones = .ok n) :
    (∀ (c : Context) (v : VertexId) (time : Int) (l : List (State W)) (x : State W)
      (ride : List (State W)) (y : State W), c.network = n → n.IsGround v →
        c.Journey (State.origin v time c.request) l → CompletedRide l x ride y →
          ∃ k i j p day start, c.Rides x ride y k i j p day start) ∧
    ∀ (integers : Integers) (q : Query) (limits : SearchLimits) (r : SearchResult W),
      n.IsGround q.origin → search integers n q limits = .ok r →
        ∃ c, Context.make integers n q.request q.time = .ok c ∧
          ∀ t ∈ r.paths, ∀ x ride y, CompletedRide t.states x ride y →
            ∃ k i j p day start, c.Rides x ride y k i j p day start := by
  have hn := wired_of_build hb
  constructor
  · rintro c v time l x ride y rfl hv hj hr
    exact hj.rides hn hv hr
  · intro integers q limits r hv hs
    obtain ⟨c, hc, hpaths⟩ := search_sound hs
    obtain ⟨days, -, rfl⟩ := Context.make_eq_ok.mp hc
    exact ⟨_, hc, fun t ht x ride y hr => (hpaths t ht).1.rides hn hv hr⟩

/-- Every change between two rides of a journey keeps the transfer rule that covers it, and the
edge before the ride that the search met later is a timed transfer if and only if the rule is. -/
theorem NetworkDescription.every_change_is_kept {description : NetworkDescription} {n : Network}
    {zones : ZoneDatabase} (hb : description.build zones = .ok n) (c : Context) (v : VertexId)
    (time : Int) (l : List (State W)) (x : State W) (between : List (State W)) (f : State W)
    (hnet : c.network = n) (hv : n.IsGround v)
    (hj : c.Journey (State.origin v time c.request) l) (hr : ConsecutiveRides l x between f) :
    ∃ ch, c.IsChange x between f ch ∧ ch.Kept n.transfers ∧
      ∀ pre pred last, x :: between = pre ++ [pred, last] → ∀ e : Edge,
        e.traverse pred c = .ok last →
          (e.kind = .timedTransfer ↔ ch.transfer n.transfers = .timed) := by
  subst hnet
  exact hj.change (wired_of_build hb) hv hr

/-! ## A network of two lines -/

/-- A query put to the network of a description, a journey from its origin and what its search
gives. -/
structure Trial (description : NetworkDescription) (q : Query) (limits : SearchLimits) where
  network : Network
  context : Context
  states : List (State Exact)
  last : State Exact
  result : SearchResult Exact
  build_eq : description.build onlyUtc = .ok network
  make_eq : Context.make .unbounded network q.request q.time = .ok context
  journey : context.Journey q.begin states
  last_eq : states.getLast? = some last
  search_eq : search .unbounded network q limits = .ok result

/-- The trial whose journey takes at each vertex the edge of the given position there. -/
def Trial.run? (description : NetworkDescription) (q : Query) (limits : SearchLimits)
    (choices : List Nat) : Option (Trial description q limits) :=
  match hb : description.build onlyUtc with
  | .error _ => none
  | .ok n =>
    match hc : Context.make .unbounded n q.request q.time with
    | .error _ => none
    | .ok c =>
      match hl : c.follow q.begin choices with
      | none => none
      | some l =>
        match hlast : l.getLast? with
        | none => none
        | some last =>
          match hs : search .unbounded n q limits with
          | .error _ => none
          | .ok r => some ⟨n, c, l, last, r, hb, hc, c.journey_of_follow hl, hlast, hs⟩

namespace Trial

variable {description : NetworkDescription} {q : Query} {limits : SearchLimits}
  (t : Trial description q limits)

theorem network_eq : t.context.network = t.network := by
  obtain ⟨days, -, hc⟩ := Context.make_eq_ok.mp t.make_eq
  exact congrArg Context.network hc

theorem request_eq : t.context.request = q.request := by
  obtain ⟨days, -, hc⟩ := Context.make_eq_ok.mp t.make_eq
  exact congrArg Context.request hc

theorem context_eq {c : Context}
    (hc : Context.make .unbounded t.network q.request q.time = .ok c) : t.context = c :=
  Except.ok.inj (t.make_eq.symm.trans hc)

theorem integers_eq : t.context.integers = .unbounded := by
  obtain ⟨days, -, hc⟩ := Context.make_eq_ok.mp t.make_eq
  exact congrArg Context.integers hc

end Trial

/-- A stop that is no part of a station. -/
def StopDescription.alone (id : StopId) : StopDescription := ⟨id, ⟨0.0, 0.0⟩, none⟩

def stopA : StopId := ⟨"A", rfl⟩

def stopB : StopId := ⟨"B", rfl⟩

def stopC : StopId := ⟨"C", rfl⟩

def stopD : StopId := ⟨"D", rfl⟩

def tripEast : TripId := ⟨"east", rfl⟩

def tripNorth : TripId := ⟨"north", rfl⟩

def routeOne : RouteId := ⟨"R1", rfl⟩

def routeTwo : RouteId := ⟨"R2", rfl⟩

/-- Two lines that meet at a stop, with a lane to the first. A change where they meet takes a
minute. -/
def shuttle : NetworkDescription where
  timezone := "UTC"
  calendars := [⟨1, "20240101", "20241231", CalendarRule.everyDay, [], []⟩]
  stops := [.alone stopA, .alone stopB, .alone stopC, .alone stopD]
  streetVertices := [⟨"home", ⟨0.0, 0.0⟩⟩]
  streets := [⟨"home", "A", "lane", some 133.0, [.walk], true⟩]
  patterns := [
    ⟨tripEast, routeOne, 1, some .bus, none, true, true,
      [⟨stopA, "00:00:00", none, 0, 0, none, none, true⟩,
        ⟨stopB, "00:05:00", some "00:06:00", 0, 0, none, none, true⟩,
        ⟨stopC, "00:10:00", none, 0, 0, none, none, true⟩],
      [⟨"06:00:00", "10:00:00", 600, true⟩]⟩,
    ⟨tripNorth, routeTwo, 1, some .tram, none, true, true,
      [⟨stopC, "00:00:00", none, 0, 0, none, none, true⟩,
        ⟨stopD, "00:04:00", none, 0, 0, none, none, true⟩],
      [⟨"06:02:00", "10:00:00", 300, true⟩]⟩]
  transfers := [⟨stopC, stopC, 2, some 60, none, none, none, none⟩]
  timedTransfers := []

/-- Eight o'clock on a Thursday. -/
def shuttleTime : Int := 1710403200

/-- From home to the end of the second line, by a traveller who does not mind waiting there. -/
def shuttleQuery : Query where
  start := 4
  goal := 3
  time := shuttleTime
  request := { waitReluctance := 0.0 }

/-- From home one walks to the first line, rides it to the end, changes and rides the second. -/
def shuttleTrial? : Option (Trial shuttle shuttleQuery {}) :=
  Trial.run? _ _ _ [0, 1, 0, 1, 0, 0, 0, 0, 0]

theorem shuttle_journey : ∃ n c, shuttle.build onlyUtc = .ok n ∧
    Context.make .unbounded n shuttleQuery.request shuttleTime = .ok c ∧ n.IsGround 4 ∧
      ∃ l : List (State Exact), c.Journey shuttleQuery.begin l ∧
        l.map (·.isOnBoard) =
          [false, false, true, true, true, true, false, true, true, false] := by
  have h : (shuttleTrial?.any fun t => (t.network.kindOf? 4).any (·.isGround) &&
      t.states.map (·.isOnBoard) ==
        [false, false, true, true, true, true, false, true, true, false]) = true := by
    decide +kernel
  obtain ⟨t, -, h⟩ := (Option.any_eq_true _ _).mp h
  rw [Bool.and_eq_true] at h
  obtain ⟨κ, hκ, hground⟩ := (Option.any_eq_true _ _).mp h.1
  exact ⟨t.network, t.context, t.build_eq, t.make_eq, ⟨κ, hκ, hground⟩, t.states, t.journey,
    beq_iff_eq.mp h.2⟩

theorem shuttle_rides : ∃ (n : Network) (c : Context),
    shuttle.build onlyUtc = .ok n ∧ c.network = n ∧
    ∃ (l : List (State Exact)) (x y : State Exact) (ride : List (State Exact)),
      c.Journey (State.origin 4 shuttleTime c.request) l ∧ CompletedRide l x ride y ∧
        ∃ k i j p day start, c.Rides x ride y k i j p day start := by
  obtain ⟨n, c, hb, hc, hv, l, hj, hl⟩ := shuttle_journey
  obtain ⟨days, -, rfl⟩ := Context.make_eq_ok.mp hc
  change l.map (·.isOnBoard) = [false] ++ false :: ([true, true, true, true] ++
    false :: [true, true, false]) at hl
  obtain ⟨before, _, rfl, -, hl⟩ := List.map_eq_append_iff.mp hl
  obtain ⟨x, _, rfl, hx, hl⟩ := List.map_eq_cons_iff.mp hl
  obtain ⟨ride, _, rfl, hride, hl⟩ := List.map_eq_append_iff.mp hl
  obtain ⟨y, after, rfl, hy, -⟩ := List.map_eq_cons_iff.mp hl
  have hboard : ∀ s ∈ ride, s.isOnBoard = true := fun s hs => by
    have := List.mem_map_of_mem (f := fun s : State Exact => s.isOnBoard) hs
    rw [hride] at this
    simpa using this
  have hr : CompletedRide (before ++ x :: (ride ++ y :: after)) x ride y :=
    ⟨⟨before, after, rfl⟩, (by rintro rfl; cases hride), hboard, hx, hy⟩
  exact ⟨n, _, hb, rfl, _, x, y, ride, hj, hr,
    (NetworkDescription.every_ride_is_one_run hb).1 _ 4 shuttleTime _ x ride y rfl hv hj hr⟩

theorem shuttle_change : ∃ (n : Network) (c : Context),
    shuttle.build onlyUtc = .ok n ∧ c.network = n ∧
    ∃ (l : List (State Exact)) (x f : State Exact) (between : List (State Exact)),
      c.Journey (State.origin 4 shuttleTime c.request) l ∧ ConsecutiveRides l x between f ∧
        ∃ ch, c.IsChange x between f ch ∧ ch.Kept n.transfers := by
  obtain ⟨n, c, hb, hc, hv, l, hj, hl⟩ := shuttle_journey
  obtain ⟨days, -, rfl⟩ := Context.make_eq_ok.mp hc
  change l.map (·.isOnBoard) = [false, false, true, true, true] ++ true :: ([false] ++
    true :: [true, false]) at hl
  obtain ⟨before, _, rfl, -, hl⟩ := List.map_eq_append_iff.mp hl
  obtain ⟨x, _, rfl, hx, hl⟩ := List.map_eq_cons_iff.mp hl
  obtain ⟨between, _, rfl, hbetween, hl⟩ := List.map_eq_append_iff.mp hl
  obtain ⟨f, after, rfl, hf, -⟩ := List.map_eq_cons_iff.mp hl
  have hoff : ∀ s ∈ between, s.isOnBoard = false := fun s hs => by
    have := List.mem_map_of_mem (f := fun s : State Exact => s.isOnBoard) hs
    rw [hbetween] at this
    simpa using this
  have hr : ConsecutiveRides (before ++ x :: (between ++ f :: after)) x between f :=
    ⟨⟨before, after, rfl⟩, (by rintro rfl; cases hbetween), hoff, hx, hf⟩
  obtain ⟨ch, hch, hkept, -⟩ := NetworkDescription.every_change_is_kept hb _ 4 shuttleTime _ x
    between f rfl hv hj hr
  exact ⟨n, _, hb, rfl, _, x, f, between, hj, hr, ch, hch, hkept⟩

end JourneyPlanner
