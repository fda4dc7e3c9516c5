import Mathlib.Tactic.Linarith
import Mathlib.Tactic.Positivity
import JourneyPlanner.Journey.Bounds
import JourneyPlanner.Proofs.Arithmetic.Exact
import JourneyPlanner.Proofs.Journey.Ride
import JourneyPlanner.Proofs.Journey.Timetable

/-!
# What steps weigh

In exact arithmetic and for a regular request no step weighs less than the bound of its edge, when
a boarding is taken to pay for the edge that leaves the vehicle (`Context.Takes.pays`).
-/

namespace JourneyPlanner

/-- The number that a double stands for. -/
def Exact.number (x : Float) : ℚ := (Weight.ofFloat x : Exact).value

/-- The seconds for each metre at a speed. -/
def Exact.slowness (x : Float) : ℚ := (Exact.inv (Weight.ofFloat x)).value

namespace Request

/-- The costs, penalties and factors of a request. -/
def costs (r : Request) : List Float :=
  [r.otherRoutePenalty, r.unpreferredRoutePenalty, r.waitReluctance, r.firstWaitFactor,
    r.walkReluctance, r.walkBoardCost, r.bikeBoardCost, r.nonpreferredTransferPenalty]

/-- Whether costs are finite and not negative, and speeds positive. -/
structure Regular (r : Request) : Prop where
  costs : ∀ x ∈ r.costs, x.isFinite = true ∧ 0.0 ≤ x
  walkSpeed_pos : 0.0 < r.walkSpeed
  bikeSpeed_pos : 0.0 < r.bikeSpeed

instance (r : Request) : Decidable r.Regular :=
  decidable_of_iff ((∀ x ∈ r.costs, x.isFinite = true ∧ 0.0 ≤ x) ∧ 0.0 < r.walkSpeed ∧
    0.0 < r.bikeSpeed) ⟨fun ⟨h, h', h''⟩ => ⟨h, h', h''⟩, fun ⟨h, h', h''⟩ => ⟨h, h', h''⟩⟩

/-- What a second on a street weighs in a mode. -/
def streetRate (r : Request) (mode : Mode) : ℚ :=
  if mode = .walk then Exact.number r.walkReluctance else 1

/-- What a second of waiting weighs. -/
def waitRate (r : Request) (first : Bool) : ℚ :=
  Exact.number (if first then r.firstWaitFactor else r.waitReluctance)

end Request

/-- Whether no street measured as a distance is shorter than nothing. -/
def Network.DistancesNonneg (n : Network) : Prop :=
  ∀ e ∈ n.edges, ∀ (street : Street) (x y : Point), e.link = .street street →
    street.length = x.distance y → ¬ street.length < 0.0

theorem Exact.isCharge_iff {w : Exact} : Weight.IsCharge w ↔ w.Nonneg := by
  unfold Weight.IsCharge
  rw [Exact.zero_eq]
  constructor
  · rintro ⟨hnan, hless⟩
    cases w with
    | finite q =>
      rw [Bool.eq_false_iff, Ne, Exact.less_finite, not_lt] at hless
      exact Exact.nonneg_finite.mpr hless
    | infinite negative =>
      cases negative with
      | false => exact .inr rfl
      | true => cases hless
    | undefined => cases hnan
  · rintro (⟨q, hq, rfl⟩ | rfl)
    · refine ⟨rfl, ?_⟩
      rw [Bool.eq_false_iff, Ne, Exact.less_finite, not_lt]
      exact hq
    · exact ⟨rfl, rfl⟩

theorem Exact.inv_ofFloat {x : Float} (h : 0.0 < x) :
    Exact.inv (Weight.ofFloat x) = .finite (slowness x) ∧ 0 ≤ slowness x := by
  unfold slowness
  rcases Exact.ofFloat_of_pos h with ⟨q, hq, heq⟩ | heq
  · rw [heq, Exact.inv_finite hq.ne']
    exact ⟨rfl, inv_nonneg.mpr hq.le⟩
  · rw [heq]
    exact ⟨rfl, le_refl 0⟩

/-- The greater of two speeds is the one with the less slowness. -/
theorem Exact.inv_greater {x y : Float} (hx : 0.0 < x) (hy : 0.0 < y) :
    ∃ σ, Exact.inv (Weight.greater (Weight.ofFloat x) (Weight.ofFloat y)) = .finite σ ∧ 0 ≤ σ ∧
      σ ≤ slowness x ∧ σ ≤ slowness y := by
  obtain ⟨-, hx0⟩ := Exact.inv_ofFloat hx
  obtain ⟨-, hy0⟩ := Exact.inv_ofFloat hy
  unfold slowness at *
  rcases Exact.ofFloat_of_pos hx with ⟨p, hp, hpx⟩ | hpx <;>
    rcases Exact.ofFloat_of_pos hy with ⟨q, hq, hqy⟩ | hqy <;> rw [hpx] at hx0 ⊢ <;>
    rw [hqy] at hy0 ⊢
  · show ∃ σ, Exact.inv (if Weight.less (finite p) (finite q) = true then _ else _) = _ ∧ _
    by_cases h : p < q
    · rw [if_pos ((Exact.less_finite p q).mpr h), Exact.inv_finite hq.ne', Exact.inv_finite hp.ne']
      exact ⟨q⁻¹, rfl, inv_nonneg.mpr hq.le, inv_anti₀ hp h.le, le_refl _⟩
    · rw [if_neg fun hl => h ((Exact.less_finite p q).mp hl), Exact.inv_finite hq.ne',
        Exact.inv_finite hp.ne']
      exact ⟨p⁻¹, rfl, inv_nonneg.mpr hp.le, le_refl _, inv_anti₀ hq (not_lt.mp h)⟩
  · exact ⟨0, rfl, le_refl 0, hx0, hy0⟩
  · exact ⟨0, rfl, le_refl 0, hx0, hy0⟩
  · exact ⟨0, rfl, le_refl 0, hx0, hy0⟩

namespace Request.Regular

variable {r : Request} (hr : r.Regular)

omit hr in
theorem boardCost_mem (r : Request) (mode : Mode) : r.boardCost mode ∈ r.costs := by
  unfold boardCost
  split_ifs <;> simp [Request.costs]

include hr

theorem ofFloat {x : Float} (hx : x ∈ r.costs) :
    (Weight.ofFloat x : Exact) = .finite (Exact.number x) ∧ 0 ≤ Exact.number x := by
  obtain ⟨hf, h⟩ := hr.costs x hx
  obtain ⟨q, hq, heq⟩ := Exact.ofFloat_of_zero_le hf h
  unfold Exact.number
  rw [heq]
  exact ⟨rfl, hq⟩

theorem waitRate_nonneg (first : Bool) : 0 ≤ r.waitRate first := by
  refine (hr.ofFloat ?_).2
  cases first <;> simp [Request.costs]

theorem speed_pos (mode : Mode) : 0.0 < r.speed mode := by
  unfold speed
  split_ifs
  · exact hr.bikeSpeed_pos
  · exact hr.walkSpeed_pos

theorem preferencePenalty (trip : Trip) :
    ∃ q, 0 ≤ q ∧ (r.preferencePenalty trip : Exact) = .finite q := by
  obtain ⟨h₁, hq₁⟩ := hr.ofFloat (x := r.otherRoutePenalty) (by simp [Request.costs])
  obtain ⟨h₂, hq₂⟩ := hr.ofFloat (x := r.unpreferredRoutePenalty) (by simp [Request.costs])
  unfold Request.preferencePenalty
  rw [h₁, h₂, Exact.zero_eq]
  simp only [Exact.finite_add_finite]
  split_ifs
  · exact ⟨_, by linarith, rfl⟩
  · exact ⟨_, by linarith, rfl⟩
  · exact ⟨_, by linarith, rfl⟩
  · exact ⟨_, le_refl 0, rfl⟩

theorem maxStreetSpeed : ∃ σ, Exact.inv (r.maxStreetSpeed : Exact) = .finite σ ∧ 0 ≤ σ ∧
    σ ≤ Exact.slowness (r.speed r.initialMode) := by
  obtain ⟨hw, hw0⟩ := Exact.inv_ofFloat hr.walkSpeed_pos
  unfold Request.maxStreetSpeed Request.initialMode Request.speed
  cases hb : r.modes.contains .bicycle with
  | false =>
    rw [if_neg Bool.false_ne_true, Bool.false_and, if_neg Bool.false_ne_true]
    exact ⟨_, hw, hw0, le_refl _⟩
  | true =>
    obtain ⟨σ, hσ, h0, hle, hle'⟩ := Exact.inv_greater hr.walkSpeed_pos hr.bikeSpeed_pos
    rw [if_pos rfl]
    refine ⟨σ, hσ, h0, ?_⟩
    cases r.modes.contains .walk
    · exact hle'
    · exact hle

theorem minStreetReluctance : ∃ ρ, (r.minStreetReluctance : Exact) = .finite ρ ∧ 0 ≤ ρ ∧
    ρ ≤ r.streetRate r.initialMode := by
  obtain ⟨hw, hw0⟩ := hr.ofFloat (x := r.walkReluctance) (by simp [Request.costs])
  unfold Request.minStreetReluctance Request.initialMode Request.streetRate
  rw [hw]
  cases hb : r.modes.contains .bicycle with
  | false =>
    rw [if_neg Bool.false_ne_true, Bool.false_and, if_neg Bool.false_ne_true, if_pos rfl]
    exact ⟨_, rfl, hw0, le_refl _⟩
  | true =>
    rw [if_pos rfl, Exact.ofInt_eq, Exact.lesser_finite]
    refine ⟨_, rfl, le_min hw0 (by norm_num), ?_⟩
    cases r.modes.contains .walk
    · refine (min_le_right _ _).trans ?_
      show ((1 : Int) : ℚ) ≤ 1
      norm_num
    · exact min_le_left _ _

end Request.Regular

/-! ## Boarding -/

/-- The lower bound of board costs. -/
def Request.leastBoardCost (r : Request) : ℚ :=
  min (Exact.number r.walkBoardCost) (Exact.number r.bikeBoardCost)

/-- What boarding at a gate weighs besides the wait. -/
def Gate.fixedFare (g : Gate) (c : Context) (mode : Mode) (penalty : ℚ) : ℚ :=
  (c.request.preferencePenalty g.pattern.trip : Exact).value + penalty +
    Exact.number (c.request.boardCost mode)

variable {c : Context} {g : Gate} {e : Edge} {s s' : State Exact} {wait meeting : Int} {t : ℚ}

section

variable (hr : c.request.Regular)

include hr

theorem Request.Regular.boardCostLowerBound :
    (c.request.boardCostLowerBound : Exact) = .finite c.request.leastBoardCost := by
  unfold Request.boardCostLowerBound
  rw [(hr.ofFloat (by simp [Request.costs])).1, (hr.ofFloat (by simp [Request.costs])).1,
    Exact.lesser_finite]
  rfl

theorem Request.Regular.leastBoardCost_nonneg : 0 ≤ c.request.leastBoardCost :=
  le_min (hr.ofFloat (by simp [Request.costs])).2 (hr.ofFloat (by simp [Request.costs])).2

theorem Gate.fare_eq : g.fare s c wait (.finite t) =
    .finite (g.fixedFare c s.streetMode t + wait * c.request.waitRate (!s.everBoarded)) := by
  obtain ⟨q, -, hq⟩ := hr.preferencePenalty g.pattern.trip
  unfold Gate.fare Gate.fixedFare Request.boardingWeight Request.waitCost Request.waitRate
  simp only
  rw [hq, (hr.ofFloat (Request.Regular.boardCost_mem _ s.streetMode)).1,
    (hr.ofFloat (x := if (!s.everBoarded) = true then c.request.firstWaitFactor
      else c.request.waitReluctance) (by split_ifs <;> simp [Request.costs])).1, Exact.ofInt_eq]
  simp only [Exact.finite_add_finite, Exact.finite_mul_finite, Exact.value]
  congr 1
  ring

theorem Gate.leastBoardCost_le (ht : 0 ≤ t) (mode : Mode) :
    c.request.leastBoardCost ≤ g.fixedFare c mode t := by
  obtain ⟨q, hq0, hq⟩ := hr.preferencePenalty g.pattern.trip
  have hleast : c.request.leastBoardCost ≤ Exact.number (c.request.boardCost mode) := by
    unfold Request.leastBoardCost Request.boardCost
    split_ifs
    · exact min_le_right _ _
    · exact min_le_left _ _
  unfold Gate.fixedFare
  rw [hq]
  simp only [Exact.value]
  linarith

theorem penalty_of_checkTransfer {stop : StopId} {trip : Trip} {penalty : Exact}
    (h : checkTransfer c s stop trip = .ok (meeting, penalty)) :
    ∃ t, 0 ≤ t ∧ penalty = .finite t := by
  obtain ⟨hn, hn0⟩ := hr.ofFloat (x := c.request.nonpreferredTransferPenalty)
    (by simp [Request.costs])
  cases hever : s.everBoarded with
  | false =>
    rw [checkTransfer_first hever, Except.ok.injEq, Prod.mk.injEq] at h
    exact ⟨0, le_refl 0, h.2.symm.trans Exact.zero_eq⟩
  | true =>
    obtain ⟨hallowed, -, -, hp⟩ := (checkTransfer_eq_ok hever).mp h
    rw [hp]
    cases htr : transferAt c s stop trip with
    | forbidden => exact absurd htr hallowed
    | timed | preferred => exact ⟨0, le_refl 0, Exact.zero_eq⟩
    | minimum | unknown => exact ⟨_, hn0, hn⟩

/-! ## Streets -/

/-- The whole seconds that a street takes in a mode. -/
def Street.wholeSeconds (street : Street) (r : Request) (mode : Mode) : Int :=
  ⌈Exact.number street.length * Exact.slowness (r.speed mode)⌉

/-- A street whose charge is a number takes whole seconds, each at the rate of the mode. -/
theorem Street.charge_eq {street : Street} {mode : Mode} {w : ℚ}
    (h : c.request.streetWeight (street.seconds c mode) mode = Exact.finite w) :
    Weight.ofFloat street.length = Exact.finite (Exact.number street.length) ∧
      street.seconds c mode = Exact.finite (street.wholeSeconds c.request mode) ∧
      w = street.wholeSeconds c.request mode * c.request.streetRate mode := by
  have hspeed := (Exact.inv_ofFloat (hr.speed_pos mode)).1
  have hrel := (hr.ofFloat (x := c.request.walkReluctance) (by simp [Request.costs])).1
  obtain ⟨y, hy⟩ : ∃ y, street.seconds c mode = Exact.finite y := by
    unfold Request.streetWeight at h
    split_ifs at h
    · rw [hrel] at h
      exact Exact.mul_finite_eq_finite h
    · exact ⟨w, h⟩
  have hlength : Weight.ofFloat street.length = Exact.finite (Exact.number street.length) := by
    have hy' := hy
    unfold Street.seconds Request.streetSeconds at hy'
    rw [Exact.div_eq hspeed] at hy'
    obtain ⟨x, hx⟩ := Exact.ceil_eq_finite hy'
    obtain ⟨ℓ, hℓ⟩ := Exact.mul_finite_eq_finite hx
    unfold Exact.number
    rw [hℓ]
    rfl
  have hseconds : street.seconds c mode = Exact.finite (street.wholeSeconds c.request mode) := by
    unfold Street.seconds Request.streetSeconds
    rw [Exact.div_eq hspeed, hlength]
    rfl
  refine ⟨hlength, hseconds, ?_⟩
  rw [hseconds] at h
  unfold Request.streetWeight at h
  unfold Request.streetRate
  split_ifs at h ⊢
  · rw [hrel] at h
    exact (Exact.finite.inj h).symm
  · rw [mul_one]
    exact (Exact.finite.inj h).symm

/-- A street has an infinite charge only if it takes forever. -/
theorem Street.seconds_eq_infinite {street : Street} {mode : Mode}
    (h : c.request.streetWeight (street.seconds c mode) mode = Exact.infinite false) :
    street.seconds c mode = Exact.infinite false := by
  obtain ⟨hrel, hrel0⟩ := hr.ofFloat (x := c.request.walkReluctance) (by simp [Request.costs])
  unfold Request.streetWeight at h
  rw [hrel] at h
  split_ifs at h
  · change Exact.mul _ (.finite _) = _ at h
    cases hs : (street.seconds c mode : Exact) with
    | finite x => rw [hs] at h; cases h
    | infinite negative =>
      rw [hs] at h
      simp only [Exact.mul, decide_eq_false (not_lt.mpr hrel0), Bool.xor_false] at h
      split_ifs at h
      rw [Exact.infinite.inj h]
    | undefined => rw [hs] at h; cases h
  · exact h

omit hr in
theorem Street.not_length_lt {street : Street} (hn : c.network.Wired)
    (hd : c.network.DistancesNonneg) (he : e ∈ c.network.edges) (hl : e.link = .street street) :
    ¬ street.length < 0.0 := by
  have hj := hn.joins e he
  rw [hl] at hj
  cases hj with
  | street _ _ _ _ hlen =>
    rcases hlen with hlen | ⟨x, y, hxy⟩
    · exact Exact.not_lt_of_zero_le hlen
    · exact hd e he street x y hl hxy

omit hr in
theorem Street.length_nonneg {street : Street} (hn : c.network.Wired)
    (hd : c.network.DistancesNonneg) (he : e ∈ c.network.edges) (hl : e.link = .street street)
    (h : Weight.ofFloat street.length = Exact.finite (Exact.number street.length)) :
    0 ≤ Exact.number street.length := by
  rcases Exact.ofFloat_of_not_lt (Street.not_length_lt hn hd he hl) with hnn | hnan
  · exact Exact.nonneg_finite.mp (h ▸ hnn)
  · rw [h] at hnan
    cases hnan

omit hr in
theorem Edge.weightBound_of_street {street : Street} (hl : e.link = .street street) :
    (e.weightBound c : Exact) = street.timeBound c * c.request.minStreetReluctance := by
  unfold Edge.weightBound
  rw [hl]

/-- The bounds of a street, by a slowness and a rate that are no more than those of the mode. -/
theorem Street.bounds_eq {street : Street} (hl : e.link = .street street)
    (h : Weight.ofFloat street.length = Exact.finite (Exact.number street.length)) :
    ∃ σ ρ, 0 ≤ σ ∧ σ ≤ Exact.slowness (c.request.speed c.request.initialMode) ∧
      0 ≤ ρ ∧ ρ ≤ c.request.streetRate c.request.initialMode ∧
      street.timeBound c = Exact.finite (Exact.number street.length * σ) ∧
      e.weightBound c = Exact.finite (Exact.number street.length * σ * ρ) := by
  obtain ⟨σ, hσ, hσ0, hσle⟩ := hr.maxStreetSpeed
  obtain ⟨ρ, hρ, hρ0, hρle⟩ := hr.minStreetReluctance
  have htime : street.timeBound c = Exact.finite (Exact.number street.length * σ) := by
    unfold Street.timeBound
    rw [Exact.div_eq hσ, h]
    rfl
  refine ⟨σ, ρ, hσ0, hσle, hρ0, hρle, htime, ?_⟩
  rw [Edge.weightBound_of_street hl, htime, hρ]
  rfl

/-- The bound of a street is not negative, and no more than what the street weighs. -/
theorem Street.bound_le {street : Street} (hn : c.network.Wired)
    (hd : c.network.DistancesNonneg) (he : e ∈ c.network.edges) (hl : e.link = .street street)
    (h : Weight.ofFloat street.length = Exact.finite (Exact.number street.length)) :
    ∃ β, e.weightBound c = Exact.finite β ∧ 0 ≤ β ∧
      β ≤ street.wholeSeconds c.request c.request.initialMode *
        c.request.streetRate c.request.initialMode := by
  obtain ⟨σ, ρ, hσ0, hσle, hρ0, hρle, -, hβ⟩ := Street.bounds_eq hr hl h
  have hlen := Street.length_nonneg hn hd he hl h
  refine ⟨_, hβ, by positivity, mul_le_mul ?_ hρle hρ0 ?_⟩
  · exact (mul_le_mul_of_nonneg_left hσle hlen).trans (Int.le_ceil _)
  · exact_mod_cast Int.ceil_nonneg (mul_nonneg hlen (Exact.inv_ofFloat (hr.speed_pos _)).2)

end

/-! ## Vehicles -/

theorem Edge.exactStay_eq {k : Integers} {seconds : Int} (h : e.staySeconds k = .ok seconds) :
    e.exactStay = seconds := by
  unfold exactStay
  rw [(e.staySeconds_same k).eq_ok h]
  rfl

theorem Edge.weightBound_of_stay {k : Integers} {p : FrequencyPattern} {seconds : Int}
    (h : e.stay? k = some (p, seconds)) :
    e.weightBound c = Exact.finite seconds := by
  obtain ⟨hlink, hseconds⟩ := Edge.stay?_eq_some.mp h
  unfold Edge.weightBound
  rcases hlink with ⟨i, j, hl⟩ | ⟨i, hl⟩
  · rw [hl, ← exactStay_eq hseconds]
    rfl
  · rw [hl, ← exactStay_eq hseconds]
    rfl

theorem Edge.weightBound_of_gate (hl : e.link = g.link) : (e.weightBound c : Exact) =
    if g.boarding = c.arriveBy then c.request.boardCostLowerBound else g.pattern.reachBound c := by
  obtain ⟨p, i, boarding⟩ := g
  unfold Edge.weightBound
  rw [hl]
  cases boarding <;> cases c.arriveBy <;> rfl

/-- A pattern of which a vehicle was found is within reach. -/
theorem Gate.Finds.reachBound {stop : StopId} {day : ServiceDay} {penalty : Exact}
    (h : g.Finds s c stop meeting wait day penalty) :
    g.pattern.reachBound c = Exact.finite 0 := by
  obtain ⟨hday, hwait⟩ := Gate.exactVehicle?_mem (Gate.exactVehicle?_eq h.vehicle_eq)
  obtain ⟨-, -, hruns, -⟩ := Gate.exactWait?_eq_some.mp hwait
  have hany : c.days.anyRunning g.pattern.service = true :=
    List.any_eq_true.mpr ⟨day, hday, hruns⟩
  unfold FrequencyPattern.reachBound
  rw [h.mode_allowed, hany, Bool.and_true, if_pos rfl, Exact.zero_eq]

theorem Gate.Finds.weightBound {stop : StopId} {day : ServiceDay} {penalty : Exact}
    (hl : e.link = g.link) (hside : g.boarding ≠ c.arriveBy)
    (h : g.Finds s c stop meeting wait day penalty) : e.weightBound c = Exact.finite 0 := by
  rw [Edge.weightBound_of_gate hl, if_neg hside, h.reachBound]

/-- The bound of a gate by which vehicles are left is the lower bound of board costs. -/
theorem Edge.weightBound_of_leave (hr : c.request.Regular) (hl : e.link = g.link)
    (hside : g.boarding = c.arriveBy) :
    e.weightBound c = Exact.finite c.request.leastBoardCost := by
  rw [Edge.weightBound_of_gate hl, if_pos hside, hr.boardCostLowerBound]

/-! ## All steps -/

theorem FrequencyPattern.reachBound_nonneg (p : FrequencyPattern) (c : Context) :
    (p.reachBound c : Exact).Nonneg := by
  unfold reachBound
  split_ifs
  · exact .inl ⟨0, le_refl 0, Exact.zero_eq⟩
  · exact .inr rfl

/-- No edge has a negative bound, though the distance of two points may be no number. -/
theorem Context.weightBound_nonneg (hn : c.network.Wired) (hr : c.request.Regular)
    (hd : c.network.DistancesNonneg) (he : e ∈ c.network.edges) :
    (e.weightBound c : Exact).Nonneg ∨ e.weightBound c = Exact.undefined := by
  have hgate : ∀ g : Gate, e.link = g.link → (e.weightBound c : Exact).Nonneg := by
    intro g hl
    rw [Edge.weightBound_of_gate hl]
    split_ifs
    · rw [hr.boardCostLowerBound]
      exact Exact.nonneg_finite.mpr hr.leastBoardCost_nonneg
    · exact g.pattern.reachBound_nonneg c
  have hstay : ∀ p, ((∃ i j, e.link = .hop p i j) ∨ ∃ i, e.link = .dwell p i) →
      (e.weightBound c : Exact).Nonneg := by
    intro p hl
    obtain ⟨seconds, hseconds⟩ := Edge.exists_staySeconds fun q _ => q.timesFit_unbounded
    have hs := Edge.stay?_eq_some.mpr ⟨hl, hseconds⟩
    rw [Edge.weightBound_of_stay hs]
    exact Exact.nonneg_finite.mpr (Int.cast_nonneg (hn.stay_nonneg he hs))
  cases hl : e.link with
  | board p i => exact .inl (hgate ⟨p, i, true⟩ hl)
  | alight p i => exact .inl (hgate ⟨p, i, false⟩ hl)
  | hop p i j => exact .inl (hstay p (.inl ⟨i, j, hl⟩))
  | dwell p i => exact .inl (hstay p (.inr ⟨i, hl⟩))
  | timedTransfer =>
    unfold Edge.weightBound
    rw [hl]
    exact .inl (.inl ⟨0, le_refl 0, Exact.zero_eq⟩)
  | street street =>
    obtain ⟨σ, hσ, hσ0, -⟩ := hr.maxStreetSpeed
    obtain ⟨ρ, hρ, hρ0, -⟩ := hr.minStreetReluctance
    rw [Edge.weightBound_of_street hl, Street.timeBound, Exact.div_eq hσ, hρ]
    rcases Exact.ofFloat_of_not_lt (Street.not_length_lt hn hd he hl) with hlen | hnan
    · rcases hlen.mul_finite hσ0 with htime | hnan
      · exact htime.mul_finite hρ0
      · exact .inr (by rw [hnan]; rfl)
    · exact .inr (by rw [hnan]; rfl)

theorem Context.boundsNonneg (hn : c.network.Wired) (hr : c.request.Regular)
    (hd : c.network.DistancesNonneg) :
    ∀ e ∈ c.network.edges, ∀ β, e.weightBound c = Exact.finite β → 0 ≤ β := by
  intro e he β hβ
  rcases Context.weightBound_nonneg hn hr hd he with hnn | hnan
  · exact Exact.nonneg_finite.mp (hβ ▸ hnn)
  · rw [hβ] at hnan
    cases hnan

/-- What a state on board has paid ahead for the edge that leaves the vehicle. -/
def Context.credit (c : Context) (s : State Exact) : ℚ :=
  if s.isOnBoard then c.request.leastBoardCost else 0

theorem Context.credit_nonneg (hr : c.request.Regular) (s : State Exact) : 0 ≤ c.credit s := by
  unfold credit
  split_ifs
  · exact hr.leastBoardCost_nonneg
  · exact le_refl 0

theorem Context.credit_of_onBoard (h : s.isOnBoard = true) :
    c.credit s = c.request.leastBoardCost := if_pos h

theorem Context.Takes.weight_nonneg (h : c.Takes e s s') (hs : s.weight.Nonneg) :
    s'.weight.Nonneg := by
  cases h with
  | find _ _ hfinds => exact hs.add (Exact.isCharge_iff.mp hfinds.charge)
  | leave | change => exact hs
  | stay _ _ _ hcharge | walk _ _ _ hcharge => exact hs.add (Exact.isCharge_iff.mp hcharge)

/-- No step takes weight off. -/
theorem Context.Takes.weight_le (h : c.Takes e s s') (hs : s.weight.Nonneg) :
    Weight.atMost s.weight s'.weight = true := by
  cases h with
  | find _ _ hfinds => exact hs.atMost_add (Exact.isCharge_iff.mp hfinds.charge)
  | leave | change => exact hs.atMost_self
  | stay _ _ _ hcharge | walk _ _ _ hcharge => exact hs.atMost_add (Exact.isCharge_iff.mp hcharge)

theorem Context.Journey.weights_nonneg {v : VertexId} {time : Int} {request : Request}
    {l : List (State Exact)} (h : c.Journey (State.origin v time request) l) :
    ∀ s ∈ l, s.weight.Nonneg :=
  h.forall_of_step (.inl ⟨0, le_refl 0, Exact.zero_eq⟩) fun _ _ _ _ ⟨_, _, ht⟩ hs =>
    (Edge.traverse_eq_ok.mp ht).weight_nonneg hs

/-- A step pays the bound of its edge, out of the credit if need be. -/
theorem Context.Takes.pays (hn : c.network.Wired) (hr : c.request.Regular)
    (hd : c.network.DistancesNonneg) (hs : c.Standing s)
    (he : e ∈ c.network.edges) (hsrc : e.source c.arriveBy = s.vertex) (h : c.Takes e s s')
    {q' : ℚ} (hq' : s'.weight = .finite q') :
    ∃ q β, s.weight = .finite q ∧ e.weightBound c = Exact.finite β ∧ q ≤ q' ∧
      q + β + c.credit s' ≤ q' + c.credit s := by
  have hcredit := c.credit_nonneg hr s
  cases h with
  | @find g stop meeting wait day penalty hl hside hfinds =>
    obtain ⟨t, ht, rfl⟩ := penalty_of_checkTransfer hr hfinds.transfer_eq
    change s.weight + g.fare s c wait (.finite t) = _ at hq'
    rw [Gate.fare_eq hr] at hq'
    obtain ⟨q, f, hq, hf, hsum⟩ := Exact.add_eq_finite hq'
    rw [Exact.finite.injEq] at hf
    have hfixed := Gate.leastBoardCost_le (g := g) hr ht s.streetMode
    have hwait : 0 ≤ wait * c.request.waitRate (!s.everBoarded) :=
      mul_nonneg (by exact_mod_cast hfinds.wait_nonneg) (hr.waitRate_nonneg _)
    have hleast := hr.leastBoardCost_nonneg
    refine ⟨q, 0, hq, hfinds.weightBound hl hside, by linarith, ?_⟩
    rw [Context.credit_of_onBoard rfl]
    linarith
  | @leave g stop hl hside _ _ _ =>
    have hon : s.isOnBoard = true := by
      rcases hs.placed with hfoot | ⟨k, p, haboard⟩
      · exact absurd hside (hfoot.not_leave hn he hsrc hl)
      · exact State.isOnBoard_eq_true.mpr (by rw [haboard.trip_eq]; nofun)
    refine ⟨q', _, hq', Edge.weightBound_of_leave hr hl hside, le_refl _, ?_⟩
    rw [Context.credit_of_onBoard hon]
    show q' + _ + 0 ≤ _
    linarith
  | stay hl _ hnonneg _ =>
    change s.weight + Exact.finite _ = _ at hq'
    obtain ⟨q, f, hq, hf, hsum⟩ := Exact.add_eq_finite hq'
    rw [Exact.finite.injEq] at hf
    have hsec : (0 : ℚ) ≤ _ := Int.cast_nonneg hnonneg
    refine ⟨q, _, hq, Edge.weightBound_of_stay hl, by linarith, ?_⟩
    show q + _ + c.credit s ≤ _
    linarith
  | change hl _ =>
    refine ⟨q', 0, hq', ?_, le_refl _, ?_⟩
    · unfold Edge.weightBound
      rw [hl]
      exact Exact.zero_eq
    · show q' + 0 + c.credit s ≤ _
      linarith
  | @walk street hl _ _ _ =>
    change s.weight + c.request.streetWeight _ _ = _ at hq'
    obtain ⟨q, w, hq, hw, hsum⟩ := Exact.add_eq_finite hq'
    rw [hs.mode_eq] at hw
    obtain ⟨hlen, -, hw⟩ := Street.charge_eq hr hw
    obtain ⟨β, hβ, hβ0, hle⟩ := Street.bound_le hr hn hd he hl hlen
    refine ⟨q, β, hq, hβ, by linarith, ?_⟩
    show q + β + c.credit s ≤ _
    linarith

end JourneyPlanner
