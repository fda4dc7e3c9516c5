import JourneyPlanner.Proofs.Journey.Ride

/-!
# Changes

Between two rides a journey keeps the transfer rule that covers the two trips at the two stops,
whichever of the rides the search met first (`Context.Journey.change`). What was left behind is
remembered over any number of streets and timed transfers (`Context.Left.chain`).
-/

namespace JourneyPlanner

/-- A change from one trip to another in the order of travel, with the times at which the one is
left and the other boarded. -/
structure Change where
  fromStop : StopId
  fromTrip : Trip
  left : Int
  toStop : StopId
  toTrip : Trip
  boarded : Int

namespace Change

/-- The transfer that the rules give for a change. -/
def transfer (ch : Change) (table : TransferTable) : TransferTime :=
  table.transferTime ch.fromStop ch.toStop ch.fromTrip ch.toTrip true

/-- The change of a search that met the two rides in this or in the other order. -/
def of (arriveBy : Bool) (firstStop secondStop : StopId) (first second : Trip)
    (firstTime secondTime : Int) : Change :=
  if arriveBy then ⟨secondStop, second, secondTime, firstStop, first, firstTime⟩
  else ⟨firstStop, first, firstTime, secondStop, second, secondTime⟩

/-- Whether the change is allowed and leaves the time that it needs. -/
structure Kept (ch : Change) (table : TransferTable) : Prop where
  allowed : ch.transfer table ≠ .forbidden
  in_order : ch.left ≤ ch.boarded
  minimum : ∀ seconds : Nat, ch.transfer table = .minimum seconds →
    (seconds : Int) ≤ ch.boarded - ch.left

theorem transfer_of (arriveBy : Bool) (firstStop secondStop : StopId) (first second : Trip)
    (firstTime secondTime : Int) (table : TransferTable) :
    (of arriveBy firstStop secondStop first second firstTime secondTime).transfer table =
      table.transferTime firstStop secondStop first second !arriveBy := by
  cases arriveBy <;> rfl

end Change

variable {W : Type}

/-- Two rides of a journey, the one that ends with `x` and the one that starts with `f`, and the
states between them, which are all off board. -/
structure ConsecutiveRides (l : List (State W)) (x : State W) (between : List (State W))
    (f : State W) : Prop where
  within : ∃ before after, l = before ++ x :: (between ++ f :: after)
  ne_nil : between ≠ []
  off_board : ∀ s ∈ between, s.isOnBoard = false
  first_on : x.isOnBoard = true
  second_on : f.isOnBoard = true

/-- What the change between two rides is: its two ends are the stops of the first and the last of
the states between them. -/
def Context.IsChange (c : Context) (x : State W) (between : List (State W)) (f : State W)
    (ch : Change) : Prop :=
  ∃ y z leftStop foundStop leftTrip foundTrip, between.head? = some y ∧
    between.getLast? = some z ∧ c.network.kindOf? y.vertex = some (.stop leftStop) ∧
    c.network.kindOf? z.vertex = some (.stop foundStop) ∧ x.trip = some leftTrip ∧
    f.trip = some foundTrip ∧
    ch = Change.of c.arriveBy leftStop foundStop leftTrip foundTrip y.time f.time

/-- What a state remembers of the vehicle left last. -/
structure Context.Left (c : Context) (s : State W) (stop : StopId) (trip : Trip) (time : Int) :
    Prop where
  ever : s.everBoarded = true
  stop_eq : s.previousStop = some stop
  trip_eq : s.previousTrip = some trip
  alighted_eq : s.lastAlighted = some time
  since : Sooner c.arriveBy time s.time

variable [Weight W] {c : Context} {e : Edge} {s s' : State W} {time : Int}

theorem Context.Takes.cameBy (h : c.Takes e s s') (kind : EdgeKind) :
    s'.cameBy kind = (e.kind == kind) := by
  cases h <;> rfl

theorem Context.Left.step {stop : StopId} {trip : Trip} {left : Int} (hn : c.network.Wired)
    (hr : c.Reached time s) (h : c.Left s stop trip left) (hs : s.trip = none)
    (hs' : s'.trip = none) (hstep : c.Step s s') : c.Left s' stop trip left := by
  obtain ⟨e, he, hsrc, ht⟩ := hn.step_iff.mp hstep
  rcases ht.onFoot hn (hr.onFoot hs) he hsrc with
    ⟨_, _, _, _, _, _, _, -, rfl⟩ | ⟨-, rfl | ⟨seconds, _, _, hnonneg, rfl⟩⟩
  · cases hs'
  · exact ⟨h.ever, h.stop_eq, h.trip_eq, h.alighted_eq, h.since⟩
  · refine ⟨h.ever, h.stop_eq, h.trip_eq, h.alighted_eq, h.since.trans ?_⟩
    show Sooner _ _ (onward s.arriveBy s.time seconds)
    rw [hr.arriveBy_eq]
    exact sooner_onward hnonneg

theorem Context.Left.chain {stop : StopId} {trip : Trip} {left : Int} (hn : c.network.Wired) :
    ∀ {rest : List (State W)} {s : State W},
      c.Left s stop trip left → (∀ x ∈ s :: rest, c.Reached time x) →
      (∀ x ∈ s :: rest, x.trip = none) → (s :: rest).IsChain c.Step →
        ∀ x ∈ s :: rest, c.Left x stop trip left
  | [], s, h, _, _, _ => by simpa using h
  | y :: rest, s, h, hr, hoff, hc => by
    obtain ⟨hstep, hc⟩ := List.isChain_cons_cons.mp hc
    have hy := h.step hn (hr s List.mem_cons_self) (hoff s List.mem_cons_self)
      (hoff y (by simp)) hstep
    exact List.forall_mem_cons.mpr ⟨h, hy.chain hn
      (fun x hx => hr x (List.mem_cons_of_mem s hx))
      (fun x hx => hoff x (List.mem_cons_of_mem s hx)) hc⟩

/-- A vehicle found is met no sooner than the transfer allows. -/
theorem Gate.Finds.meets {g : Gate} {stop : StopId} {meeting wait : Int} {day : ServiceDay}
    {penalty : W} (h : g.Finds s c stop meeting wait day penalty) :
    Sooner c.arriveBy meeting (onward c.arriveBy s.time wait) := by
  obtain ⟨-, -, -, hit, hhit, hw⟩ := Gate.exactWait?_eq_some.mp
    (Gate.exactVehicle?_mem (Gate.exactVehicle?_eq h.vehicle_eq)).2
  obtain ⟨-, -, -, -, -, hle⟩ := Gate.exactTime?_spec hhit
  rw [hw]
  unfold Sooner at *
  split_ifs at * <;> omega

/-- Boarding after a ride keeps the rule for the change. -/
theorem Context.FindsBy.change {g : Gate} {k : Nat} {stop fromStop : StopId} {trip : Trip}
    {meeting wait left : Int} {day : ServiceDay} {penalty : W}
    (hleft : c.Left s fromStop trip left)
    (h : c.FindsBy e g s k stop meeting wait day penalty) :
    let ch := Change.of c.arriveBy fromStop stop trip g.pattern.trip left
      (onward c.arriveBy s.time wait)
    ch.Kept c.network.transfers ∧
      (s.cameBy .timedTransfer = true ↔ ch.transfer c.network.transfers = .timed) := by
  intro ch
  obtain ⟨hforbidden, htimed, hmeeting, -⟩ := (checkTransfer_eq_ok hleft.ever).mp
    h.finds.transfer_eq
  have htransfer : ch.transfer c.network.transfers = transferAt c s stop g.pattern.trip := by
    rw [Change.transfer_of]
    unfold transferAt
    rw [hleft.stop_eq, hleft.trip_eq]
  have hmeets := h.finds.meets
  rw [← exactMeeting_eq hmeeting] at hmeets
  -- the vehicle is met on the right side of the earlier ride, and by the least time
  have horder : Sooner c.arriveBy left (onward c.arriveBy s.time wait) :=
    (hleft.since.trans (sooner_exactMeeting _)).trans hmeets
  have hminimum : ∀ seconds : Nat, ch.transfer c.network.transfers = .minimum seconds →
      Sooner c.arriveBy (onward c.arriveBy left seconds) (onward c.arriveBy s.time wait) := by
    intro seconds hs
    rw [htransfer] at hs
    rw [hs] at hmeets
    exact (onward_exactMeeting hleft.alighted_eq hleft.since).trans hmeets
  refine ⟨⟨htransfer ▸ hforbidden, ?_, fun seconds hs => ?_⟩, htransfer ▸ htimed⟩
  · show (Change.of _ _ _ _ _ _ _).left ≤ (Change.of _ _ _ _ _ _ _).boarded
    unfold Change.of Sooner at *
    split_ifs at * <;> exact horder
  · have := hminimum seconds hs
    show _ ≤ (Change.of _ _ _ _ _ _ _).boarded - (Change.of _ _ _ _ _ _ _).left
    unfold Change.of Sooner at *
    generalize onward c.arriveBy s.time wait = met at *
    unfold onward at this
    split_ifs at * <;> simp only <;> omega

omit [Weight W] in
theorem Context.LeavesBy.left {g : Gate} {k : Nat} {stop : StopId} {p : FrequencyPattern}
    {day : ServiceDay} {start : Int} (hr : c.Reached time s) (hrun : c.OnRun s k p day start) :
    c.Left (g.left e s c stop) stop p.trip s.time := by
  refine ⟨?_, rfl, hrun.previous_eq, rfl, .refl _ _⟩
  cases hr.ledger with
  | unused _ _ htrip => exact absurd (hrun.trip_eq.symm.trans htrip) nofun
  | used hever => exact hever

/-- The change between two rides keeps the rule that covers it, and is made over a timed-transfer
edge if and only if the rule is for that. -/
theorem Context.Journey.change {v : VertexId} {l between : List (State W)} {x f : State W}
    (hn : c.network.Wired) (hv : c.network.IsGround v)
    (h : c.Journey (State.origin v time c.request) l) (hr : ConsecutiveRides l x between f) :
    ∃ ch, c.IsChange x between f ch ∧ ch.Kept c.network.transfers ∧
      ∀ pre pred last, x :: between = pre ++ [pred, last] → ∀ e : Edge,
        e.traverse pred c = .ok last →
          (e.kind = .timedTransfer ↔ ch.transfer c.network.transfers = .timed) := by
  have hreach := h.reached hn hv
  obtain ⟨before, after, rfl⟩ := hr.within
  have hchain := h.chain.right_of_append
  cases between with
  | nil => exact absurd rfl hr.ne_nil
  | cons y rest =>
    have hne := List.cons_ne_nil y rest
    obtain ⟨hoff, hchain⟩ := List.isChain_cons_cons.mp hchain
    change ((y :: rest) ++ f :: after).IsChain c.Step at hchain
    have hget : c.Step ((y :: rest).getLast hne) f :=
      hchain.rel_getLast_head_of_append hne (List.cons_ne_nil f after)
    have hrx : c.Reached time x := hreach x (by simp)
    have hrr : ∀ z ∈ y :: rest, c.Reached time z := fun z hz => hreach z (by
      simp only [List.mem_append, List.mem_cons] at hz ⊢
      tauto)
    have hground : ∀ z ∈ y :: rest, z.trip = none := fun z hz =>
      State.isOnBoard_eq_false.mp (hr.off_board z hz)
    obtain ⟨k, p, day, start, hrun⟩ := hrx.onRun (State.isOnBoard_eq_true.mp hr.first_on)
    obtain ⟨e₀, g₀, leftStop, hleaves, rfl⟩ :=
      hrun.aboard.leaves hn (hground y List.mem_cons_self) hoff
    have hleft := (Context.LeavesBy.left hrx hrun).chain hn hrr hground hchain.left_of_append
    have hlast := List.getLast?_eq_some_getLast hne
    have hmem := List.getLast_mem hne
    generalize (g₀.left e₀ x c leftStop :: rest).getLast hne = z at hget hlast hmem
    obtain ⟨e, he, hsrc, ht⟩ := hn.step_iff.mp hget
    have hfoot := (hrr z hmem).onFoot (hground z hmem)
    rcases ht.onFoot hn hfoot he hsrc with
      ⟨g, l, foundStop, meeting, wait, d, penalty, hfinds, rfl⟩ | ⟨-, rfl | ⟨_, _, _, -, rfl⟩⟩
    · obtain ⟨hkept, htimed⟩ := hfinds.change (hleft z hmem)
      have htime : (g.boarded e z c foundStop wait d (g.fare z c wait penalty)).time =
          onward c.arriveBy z.time wait := by
        show onward _ _ _ = _
        rw [(hrr z hmem).arriveBy_eq]
      rw [← htime] at hkept htimed
      refine ⟨_, ⟨_, z, leftStop, foundStop, p.trip, g.pattern.trip, rfl, hlast, hleaves.stop_kind,
        hfinds.stop_kind, hrun.trip_eq, rfl, rfl⟩, hkept, ?_⟩
      intro pre pred last heq e' htaken
      refine Iff.trans ?_ htimed
      obtain rfl : last = z := by
        have := congrArg List.getLast? heq
        rw [List.getLast?_cons_cons, hlast, List.getLast?_append, List.getLast?_cons_cons,
          List.getLast?_singleton] at this
        exact (Option.some.inj this).symm
      rw [(Edge.traverse_eq_ok.mp htaken).cameBy, beq_iff_eq]
    · exact absurd hfoot.trip_eq (State.isOnBoard_eq_true.mp hr.second_on)
    · exact absurd hfoot.trip_eq (State.isOnBoard_eq_true.mp hr.second_on)

end JourneyPlanner
