import JourneyPlanner.Proofs.Journey.Step

/-!
# Waits for vehicles

A search counts the wait for a vehicle from the time of its state, but looks vehicles up from the
time at which a transfer ends, counted from the midnight of each day. The vehicle found is
nonetheless never one that has gone: no edge fails for a negative wait
(`Edge.traverse_never_negativeWait`), from whatever state it is taken.
-/

namespace JourneyPlanner

variable {W : Type} [Weight W] {c : Context} {e : Edge} {g : Gate} {s : State W}
  {stop : StopId} {trip : Trip} {meeting : Int} {penalty : W} {r : Rejection}

/-! ## From when on a vehicle may be met -/

/-- The end of a transfer is not before the state. -/
theorem sooner_checkTransfer (h : checkTransfer c s stop trip = .ok (meeting, penalty)) :
    Sooner c.arriveBy s.time meeting := by
  cases hever : s.everBoarded with
  | false =>
    rw [checkTransfer_first hever] at h
    obtain ⟨rfl, -⟩ := Prod.mk.inj (Except.ok.inj h)
    exact .refl _ _
  | true =>
    obtain ⟨-, -, hmeeting, -⟩ := (checkTransfer_eq_ok hever).mp h
    exact exactMeeting_eq hmeeting ▸ sooner_exactMeeting _

/-! ## Where an error comes from -/

omit [Weight W] in
theorem Move.finish_eq_error {m : Move W} (h : m.finish = .error r) : r = .defective := by
  unfold Move.finish at h
  split_ifs at h
  exact (Except.error.inj h).symm

omit [Weight W] in
theorem Gate.pass_eq_error {m : Move W} (h : g.pass stop m = .error r) :
    r = .accessNotAvailable := by
  unfold Gate.pass at h
  split at h
  · cases h
  · exact (Except.error.inj h).symm
  · cases h

theorem unlessOverflow_eq_error {α : Type} {x : Except Overflow α}
    (h : unlessOverflow x = .error r) : r = .overflow := by
  cases x with
  | error => exact (Except.error.inj h).symm
  | ok => cases h

theorem checkTransfer_eq_error (h : checkTransfer (W := W) c s stop trip = .error r) :
    r = .forbiddenTransfer ∨ r = .notTimedTransfer ∨ r = .timedTransferMissing ∨
      r = .overflow := by
  unfold checkTransfer at h
  by_cases hever : s.everBoarded = true
  · rw [if_pos hever] at h
    rcases refuse_eq_error.mp h with ⟨-, rfl⟩ | ⟨-, h⟩
    · exact .inl rfl
    rcases bind_eq_error.mp h with h | ⟨_, -, h⟩
    · exact .inr (.inr (.inr (unlessOverflow_eq_error h)))
    rcases refuse_eq_error.mp h with ⟨-, rfl⟩ | ⟨-, h⟩
    · exact .inr (.inl rfl)
    rcases refuse_eq_error.mp h with ⟨-, rfl⟩ | ⟨-, h⟩
    · exact .inr (.inr (.inl rfl))
    · cases h
  · rw [if_neg hever] at h
    cases h

omit [Weight W] in
/-- The end of a move fails with a defect or an overflow. -/
theorem Move.advance_finish_eq_error {k : Integers} {m : Move W} {seconds : Int}
    {rest : Move W → Except Rejection (State W)}
    (hrest : ∀ m r, rest m = .error r → r = .defective)
    (h : (unlessOverflow (m.advance k seconds) >>= rest) = .error r) :
    r = .overflow ∨ r = .defective := by
  rcases bind_eq_error.mp h with h | ⟨m', -, h⟩
  · exact .inl (unlessOverflow_eq_error h)
  · exact .inr (hrest m' r h)

/-- An error about the wait comes from the nearest vehicle: there is none, or it has gone. -/
theorem Gate.lookup_of_error (h : g.findVehicle e s c = .error r)
    (hr : r = .noService ∨ r = .negativeWait) :
    ∃ stop meeting penalty, g.stop? = some stop ∧
      checkTransfer c s stop g.pattern.trip = .ok (meeting, penalty) ∧
      (r = .noService ∧ g.nearestVehicle? c s meeting = .ok none ∨
        r = .negativeWait ∧ ∃ wait day,
          g.nearestVehicle? c s meeting = .ok (some (wait, day)) ∧ wait < 0) := by
  unfold Gate.findVehicle at h
  replace h := error_of_refuse h (by rcases hr with rfl | rfl <;> nofun)
  cases hstop : g.stop? with
  | none =>
    rw [hstop] at h
    obtain rfl := Except.error.inj h
    exact absurd hr (by decide)
  | some stop =>
    rw [hstop] at h
    rcases bind_eq_error.mp h with htransfer | ⟨⟨meeting, penalty⟩, htransfer, h⟩
    · rcases checkTransfer_eq_error htransfer with rfl | rfl | rfl | rfl <;>
        exact absurd hr (by decide)
    replace h := error_of_refuse h (by rcases hr with rfl | rfl <;> nofun)
    refine ⟨stop, meeting, penalty, rfl, htransfer, ?_⟩
    rcases bind_eq_error.mp h with hvehicle | ⟨hit?, hvehicle, h⟩
    · obtain rfl := unlessOverflow_eq_error hvehicle
      exact absurd hr (by decide)
    replace hvehicle := unlessOverflow_eq_ok.mp hvehicle
    cases hit? with
    | none => exact .inl ⟨(Except.error.inj h).symm, hvehicle⟩
    | some hit =>
      obtain ⟨wait, day⟩ := hit
      simp only at h
      by_cases hwait : wait < 0
      · rw [if_pos hwait] at h
        exact .inr ⟨(Except.error.inj h).symm, wait, day, hvehicle, hwait⟩
      · rw [if_neg hwait] at h
        replace h := error_of_refuse h (by rcases hr with rfl | rfl <;> nofun)
        rcases bind_eq_error.mp h with hpass | ⟨m, -, hfinish⟩
        · obtain rfl := Gate.pass_eq_error hpass
          exact absurd hr (by decide)
        · rcases Move.advance_finish_eq_error (fun _ _ => Move.finish_eq_error) hfinish with
            rfl | rfl
          · exact absurd hr (by decide)
          · exact absurd hr (by decide)

/-! ## Gates -/

theorem Gate.findVehicle_ne_negativeWait :
    g.findVehicle e s c ≠ .error .negativeWait := by
  intro h
  obtain ⟨stop, meeting, penalty, -, htransfer, ⟨hr, -⟩ | ⟨-, wait, day, hvehicle, hwait⟩⟩ :=
    Gate.lookup_of_error h (.inr rfl)
  · cases hr
  · have hnonneg := Gate.exactWait?_nonneg (sooner_checkTransfer htransfer)
      (Gate.exactVehicle?_mem (Gate.exactVehicle?_eq hvehicle)).2
    omega

omit [Weight W] in
theorem Gate.leave_ne_negativeWait : g.leave e s c ≠ .error .negativeWait := by
  intro h
  unfold Gate.leave at h
  replace h := error_of_refuse h nofun
  cases hstop : g.stop? with
  | none => rw [hstop] at h; cases h
  | some stop =>
    rw [hstop] at h
    rcases bind_eq_error.mp h with hpass | ⟨m, -, hfinish⟩
    · cases Gate.pass_eq_error hpass
    · cases Move.finish_eq_error hfinish

theorem Gate.traverse_ne_negativeWait :
    g.traverse e s c ≠ .error .negativeWait := by
  unfold Gate.traverse
  split_ifs
  · exact Gate.leave_ne_negativeWait
  · exact Gate.findVehicle_ne_negativeWait

/-! ## Edges -/

theorem stay_ne_negativeWait {p : FrequencyPattern} {seconds : Except Overflow Int} :
    (do ride p (← unlessOverflow seconds) e s c) ≠ .error .negativeWait := by
  intro h
  rcases bind_eq_error.mp h with h | ⟨_, -, h⟩
  · cases unlessOverflow_eq_error h
  unfold ride at h
  split_ifs at h
  · rcases Move.advance_finish_eq_error (fun _ _ => Move.finish_eq_error) h with h | h <;> cases h
  · cases h

theorem Street.traverse_ne_negativeWait {street : Street} :
    street.traverse e s c ≠ .error .negativeWait := by
  intro h
  unfold Street.traverse at h
  simp only at h
  split_ifs at h
  · cases h
  · cases h
  · cases h
  · rcases Move.advance_finish_eq_error (fun _ _ => Move.finish_eq_error) h with h | h <;> cases h

omit [Weight W] in
theorem changeVehicles_ne_negativeWait : changeVehicles e s c ≠ .error .negativeWait := by
  intro h
  unfold changeVehicles at h
  split_ifs at h
  · cases h
  · cases Move.finish_eq_error h

/-- No edge is refused for a negative wait, whatever the state, the days and the transfers. -/
theorem Edge.traverse_never_negativeWait (integers : Integers) (network : Network)
    (request : Request) (days : ServiceDays) (e : Edge) (s : State W) :
    e.traverse s ⟨integers, network, request, days⟩ ≠ .error .negativeWait := by
  unfold Edge.traverse
  cases e.link with
  | board p i => exact Gate.traverse_ne_negativeWait
  | alight p i => exact Gate.traverse_ne_negativeWait
  | hop p i j => exact stay_ne_negativeWait
  | dwell p i => exact stay_ne_negativeWait
  | timedTransfer => exact changeVehicles_ne_negativeWait
  | street street => exact Street.traverse_ne_negativeWait

end JourneyPlanner
