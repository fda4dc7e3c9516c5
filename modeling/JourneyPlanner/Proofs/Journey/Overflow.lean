import JourneyPlanner.Proofs.Journey.Timetable
import JourneyPlanner.Proofs.Journey.Waits

/-!
# Edges in words

An edge that is taken in words is taken just as without bound, unless a time does not fit
(`Edge.traverse_same`). On a street that is the time after it (`Street.traverse_overflow_iff`).
Without bound nothing overflows (`Edge.traverse_ne_overflow`).
-/

namespace JourneyPlanner

variable {W : Type} [Weight W] {c : Context} {e : Edge} {g : Gate} {s : State W}

/-! ## The same, unless a time does not fit -/

theorem SameUnless.unlessOverflow {α : Type} {x y : Except Overflow α}
    (h : SameUnless .overflow x y) :
    SameUnless .overflow (unlessOverflow x) (JourneyPlanner.unlessOverflow y) := by
  rcases h with rfl | rfl
  · exact .inl rfl
  · exact .refl _ _

omit [Weight W] in
theorem Move.advance_same (k : Integers) (m : Move W) (seconds : Int) :
    SameUnless .overflow (m.advance k seconds) (m.advance .unbounded seconds) := by
  unfold advance
  split_ifs
  · exact .refl _ _
  · exact (k.fit_same 64 _).bind fun _ => .refl _ _

theorem checkTransfer_same (c : Context) (s : State W) (stop : StopId) (trip : Trip) :
    SameUnless .overflow (checkTransfer c s stop trip) (checkTransfer c.exact s stop trip) := by
  unfold checkTransfer
  split_ifs
  · exact .refuse ((earliestMeeting_same c s _).unlessOverflow.bind fun _ => .refl _ _)
  · exact .refl _ _

theorem Gate.findVehicle_same (g : Gate) (e : Edge) (s : State W) (c : Context) :
    SameUnless .overflow (g.findVehicle e s c) (g.findVehicle e s c.exact) := by
  unfold Gate.findVehicle
  refine .refuse ?_
  cases g.stop? with
  | none => exact .refl _ _
  | some stop =>
    refine (checkTransfer_same c s stop g.pattern.trip).bind fun _ => .refuse ?_
    refine (g.nearestVehicle?_same c s _).unlessOverflow.bind fun hit? => ?_
    cases hit? with
    | none => exact .refl _ _
    | some hit =>
      refine .refuse (.refuse (SameUnless.bind (.refl _ _) fun m => ?_))
      exact (Move.advance_same _ _ _).unlessOverflow.bind fun _ => .refl _ _

theorem Gate.traverse_same (g : Gate) (e : Edge) (s : State W) (c : Context) :
    SameUnless .overflow (g.traverse e s c) (g.traverse e s c.exact) := by
  unfold Gate.traverse
  show SameUnless _ _ (if g.boarding = c.arriveBy then _ else _)
  split_ifs
  · exact .refl _ _
  · exact g.findVehicle_same e s c

theorem ride_same (p : FrequencyPattern) (seconds : Int) (e : Edge) (s : State W) (c : Context) :
    SameUnless .overflow (ride p seconds e s c) (ride p seconds e s c.exact) := by
  unfold ride
  split_ifs
  · exact (Move.advance_same _ _ _).unlessOverflow.bind fun _ => .refl _ _
  · exact .refl _ _

theorem Street.traverse_same (street : Street) (e : Edge) (s : State W) (c : Context) :
    SameUnless .overflow (street.traverse e s c) (street.traverse e s c.exact) := by
  unfold Street.traverse
  show SameUnless _ _ (if s.isOnBoard then _ else if !c.request.modes.contains s.streetMode ||
    !street.permission.contains s.streetMode then _ else
      if c.request.exceeds (c.network.exposures e.id) then _ else _)
  simp only
  split_ifs
  · exact .refl _ _
  · exact .refl _ _
  · exact .refl _ _
  · exact (Move.advance_same _ _ _).unlessOverflow.bind fun _ => .refl _ _

/-- In words an edge leads where it leads without bound, unless a time does not fit. -/
theorem Edge.traverse_same (e : Edge) (s : State W) (c : Context) :
    SameUnless .overflow (e.traverse s c) (e.traverse s c.exact) := by
  unfold Edge.traverse
  cases e.link with
  | board p i => exact Gate.traverse_same _ e s c
  | alight p i => exact Gate.traverse_same _ e s c
  | hop p i j | dwell p i =>
    exact (e.staySeconds_same _).unlessOverflow.bind fun _ => ride_same _ _ e s c
  | timedTransfer => exact .refl _ _
  | street street => exact street.traverse_same e s c

/-! ## Times that do not fit -/

omit [Weight W] in
/-- A move in time overflows when the new time does not fit. -/
theorem Move.advance_overflow_iff {k : Integers} {m : Move W} {seconds : Int}
    {rest : Move W → Except Rejection (State W)}
    (hrest : ∀ m r, rest m = .error r → r = .defective) :
    (unlessOverflow (m.advance k seconds) >>= rest) = .error .overflow ↔
      0 ≤ seconds ∧ ¬ k.Holds 64 (onward m.state.arriveBy m.state.time seconds) := by
  unfold Move.advance
  by_cases hseconds : seconds < 0
  · rw [if_pos hseconds]
    exact ⟨fun h => (nomatch hrest _ _ h), fun h => absurd h.1 (not_le.mpr hseconds)⟩
  rw [if_neg hseconds]
  by_cases hheld : k.Holds 64 (onward m.state.arriveBy m.state.time seconds)
  · rw [Integers.fit_of_holds hheld]
    exact ⟨fun h => (nomatch hrest _ _ h), fun h => absurd hheld h.2⟩
  · rw [Integers.fit_eq_error hheld]
    exact ⟨fun _ => ⟨not_lt.mp hseconds, hheld⟩, fun _ => rfl⟩

/-- A street that can be taken overflows when the time after it does not fit. -/
theorem Street.traverse_overflow_iff {street : Street} :
    street.traverse e s c = .error .overflow ↔
      street.Open e s c ∧ 0 ≤ Weight.truncate (street.seconds c s.streetMode : W) ∧
        ¬ c.integers.Holds 64
          (onward s.arriveBy s.time (Weight.truncate (street.seconds c s.streetMode : W))) := by
  unfold Street.traverse
  simp only
  split_ifs with hboard hmode hexposure
  · exact ⟨nofun, fun h => by rw [h.1.off_board] at hboard; cases hboard⟩
  · refine ⟨nofun, fun h => ?_⟩
    rw [h.1.mode_allowed, h.1.permitted] at hmode
    cases hmode
  · exact ⟨nofun, fun h => by rw [h.1.exposure] at hexposure; cases hexposure⟩
  · refine (Move.advance_overflow_iff fun _ _ => Move.finish_eq_error).trans
      ⟨fun h => ⟨⟨?_, ?_, ?_, ?_⟩, h⟩, And.right⟩ <;> simp_all

/-! ## Without bound -/

theorem checkTransfer_ne_overflow (hk : c.integers = .unbounded) {stop : StopId} {trip : Trip} :
    checkTransfer (W := W) c s stop trip ≠ .error .overflow := by
  intro h
  unfold checkTransfer at h
  split_ifs at h
  replace h := error_of_refuse h nofun
  rcases bind_eq_error.mp h with h | ⟨meeting, -, h⟩
  · rw [earliestMeeting_unbounded hk] at h
    cases h
  · replace h := error_of_refuse (error_of_refuse h nofun) nofun
    cases h

omit [Weight W] in
theorem Move.advance_ne_overflow (hk : c.integers = .unbounded) {m : Move W} {seconds : Int}
    {rest : Move W → Except Rejection (State W)}
    (hrest : ∀ m r, rest m = .error r → r = .defective) :
    (unlessOverflow (m.advance c.integers seconds) >>= rest) ≠ .error .overflow := fun h =>
  ((Move.advance_overflow_iff hrest).mp h).2 (hk ▸ Integers.holds_unbounded)

theorem Gate.findVehicle_ne_overflow (hk : c.integers = .unbounded) :
    g.findVehicle e s c ≠ .error .overflow := by
  intro h
  unfold Gate.findVehicle at h
  replace h := error_of_refuse h nofun
  cases hstop : g.stop? with
  | none => rw [hstop] at h; cases h
  | some stop =>
    rw [hstop] at h
    rcases bind_eq_error.mp h with h | ⟨⟨meeting, penalty⟩, -, h⟩
    · exact checkTransfer_ne_overflow hk h
    replace h := error_of_refuse h nofun
    rcases bind_eq_error.mp h with h | ⟨hit?, -, h⟩
    · rw [nearestVehicle?_unbounded hk] at h
      cases h
    cases hit? with
    | none => cases h
    | some hit =>
      replace h := error_of_refuse (error_of_refuse h nofun) nofun
      rcases bind_eq_error.mp h with hpass | ⟨m, -, h⟩
      · cases Gate.pass_eq_error hpass
      · exact Move.advance_ne_overflow hk (fun _ _ => Move.finish_eq_error) h

omit [Weight W] in
theorem Gate.leave_ne_overflow : g.leave e s c ≠ .error .overflow := by
  intro h
  unfold Gate.leave at h
  replace h := error_of_refuse h nofun
  cases hstop : g.stop? with
  | none => rw [hstop] at h; cases h
  | some stop =>
    rw [hstop] at h
    rcases bind_eq_error.mp h with hpass | ⟨m, -, hfinish⟩
    · cases Gate.pass_eq_error hpass
    · cases Move.finish_eq_error hfinish

theorem Gate.traverse_ne_overflow (hk : c.integers = .unbounded) :
    g.traverse e s c ≠ .error .overflow := by
  unfold Gate.traverse
  split_ifs
  · exact Gate.leave_ne_overflow
  · exact Gate.findVehicle_ne_overflow hk

theorem ride_ne_overflow (hk : c.integers = .unbounded) {p : FrequencyPattern} {seconds : Int} :
    ride p seconds e s c ≠ .error .overflow := by
  unfold ride
  split_ifs
  · exact Move.advance_ne_overflow hk fun _ _ => Move.finish_eq_error
  · nofun

theorem Street.traverse_ne_overflow (hk : c.integers = .unbounded) {street : Street} :
    street.traverse e s c ≠ .error .overflow := fun h =>
  (Street.traverse_overflow_iff.mp h).2.2 (hk ▸ Integers.holds_unbounded)

omit [Weight W] in
theorem changeVehicles_ne_overflow : changeVehicles e s c ≠ .error .overflow := by
  intro h
  unfold changeVehicles at h
  split_ifs at h
  · cases h
  · cases Move.finish_eq_error h

theorem Edge.traverse_ne_overflow (hk : c.integers = .unbounded) :
    e.traverse s c ≠ .error .overflow := by
  unfold Edge.traverse
  have hstay : ∀ p, (do ride p (← unlessOverflow (e.staySeconds c.integers)) e s c) ≠
      .error .overflow := fun p h => by
    obtain ⟨seconds, hseconds⟩ := Edge.exists_staySeconds (e := e) (k := c.integers)
      fun p _ => hk ▸ p.timesFit_unbounded
    rw [hseconds] at h
    exact ride_ne_overflow hk h
  cases e.link with
  | board p i => exact Gate.traverse_ne_overflow hk
  | alight p i => exact Gate.traverse_ne_overflow hk
  | hop p i j => exact hstay p
  | dwell p i => exact hstay p
  | timedTransfer => exact changeVehicles_ne_overflow
  | street street => exact Street.traverse_ne_overflow hk

end JourneyPlanner
