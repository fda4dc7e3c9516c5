import JourneyPlanner.Proofs.Journey.Change
import JourneyPlanner.Proofs.Journey.Charges
import JourneyPlanner.Proofs.Journey.Days
import JourneyPlanner.Search.Frontier

/-!
# Exchanging states

Of two states at one place the one that is no later, after no more boardings and with no less slack
can take every edge that the other takes, and covers it again behind the edge
(`Context.Takes.mirror`). Two things that edges look at are not part of a label, and are asked for
here (`Context.AlikeUnseen`): whether a timed-transfer edge was the last one, and whether the day of
a vehicle has begun.
-/

namespace JourneyPlanner

variable {W : Type}

/-- Whether a state stands where another does, no later, after no more boardings and with no less
slack. -/
structure State.Covers (arriveBy : Bool) (s' s : State W) : Prop where
  place_eq : s'.place = s.place
  sooner : Sooner arriveBy s'.time s.time
  boardings_le : s'.boardings ≤ s.boardings
  alighted : Option.Rel (Sooner arriveBy) s'.label.alighted s.label.alighted

theorem noWorseTime_iff {arriveBy : Bool} {a b : Int} :
    noWorseTime arriveBy a b = true ↔ Sooner arriveBy a b := by
  unfold noWorseTime Sooner
  cases arriveBy <;> simp

theorem noWorseAlighting_iff {arriveBy : Bool} {a b : Option Int} :
    noWorseAlighting arriveBy a b = true ↔ Option.Rel (Sooner arriveBy) a b := by
  unfold noWorseAlighting
  cases a <;> cases b <;> simp [noWorseTime_iff]

theorem Label.dominates_iff [Weight W] {arriveBy : Bool} {a b : Label W} :
    a.dominates arriveBy b = true ↔ a.place = b.place ∧ Weight.atMost a.weight b.weight = true ∧
      Sooner arriveBy a.time b.time ∧ a.boardings ≤ b.boardings ∧
        Option.Rel (Sooner arriveBy) a.alighted b.alighted := by
  unfold dominates
  simp only [Bool.and_eq_true, beq_iff_eq, decide_eq_true_eq, noWorseTime_iff,
    noWorseAlighting_iff, and_assoc]

section

variable {s s' s'' : State W} {arriveBy : Bool}

theorem State.dominates_iff [Weight W] : s'.label.dominates arriveBy s.label = true ↔
    s'.Covers arriveBy s ∧ Weight.atMost s'.weight s.weight = true := by
  rw [Label.dominates_iff]
  constructor
  · rintro ⟨hp, hw, ht, hb, ha⟩
    exact ⟨⟨hp, ht, hb, ha⟩, hw⟩
  · rintro ⟨⟨hp, ht, hb, ha⟩, hw⟩
    exact ⟨hp, hw, ht, hb, ha⟩

theorem Option.Rel.sooner_trans {a b d : Option Int} (h : Option.Rel (Sooner arriveBy) a b)
    (h' : Option.Rel (Sooner arriveBy) b d) : Option.Rel (Sooner arriveBy) a d := by
  cases h with
  | none => exact h'
  | some hab =>
    cases h' with
    | some hbd => exact .some (hab.trans hbd)

theorem Option.Rel.sooner_refl (a : Option Int) : Option.Rel (Sooner arriveBy) a a := by
  cases a with
  | none => exact .none
  | some a => exact .some (.refl _ _)

theorem State.Covers.refl (s : State W) : s.Covers arriveBy s :=
  ⟨rfl, .refl _ _, le_refl _, Option.Rel.sooner_refl _⟩

theorem State.Covers.trans (h : s''.Covers arriveBy s') (h' : s'.Covers arriveBy s) :
    s''.Covers arriveBy s :=
  ⟨h.place_eq.trans h'.place_eq, h.sooner.trans h'.sooner, h.boardings_le.trans h'.boardings_le,
    Option.Rel.sooner_trans h.alighted h'.alighted⟩

theorem State.Covers.vertex_eq (h : s'.Covers arriveBy s) : s'.vertex = s.vertex :=
  congrArg Place.vertex h.place_eq

theorem State.Covers.riding_eq (h : s'.Covers arriveBy s) :
    s'.trip.map (·.id) = s.trip.map (·.id) := congrArg Place.riding h.place_eq

theorem State.isOnBoard_of_place_eq (h : s'.place = s.place) : s'.isOnBoard = s.isOnBoard := by
  have hriding : s'.trip.map (·.id) = s.trip.map (·.id) := congrArg Place.riding h
  have := congrArg Option.isSome hriding
  rwa [Option.isSome_map, Option.isSome_map] at this

theorem State.Covers.isOnBoard_eq (h : s'.Covers arriveBy s) : s'.isOnBoard = s.isOnBoard :=
  State.isOnBoard_of_place_eq h.place_eq

theorem State.Covers.trip_eq_none (h : s'.Covers arriveBy s) (hs : s.trip = none) :
    s'.trip = none := by
  have := h.riding_eq
  rw [hs] at this
  exact Option.map_eq_none_iff.mp this

end

variable {c : Context} {e : Edge} {time : Int}

/-- What a covering state on the ground remembers is what the other does, with no less slack. -/
structure State.Recalls (arriveBy : Bool) (s' s : State W) : Prop where
  ever_eq : s'.everBoarded = s.everBoarded
  trip_eq : s'.previousTrip = s.previousTrip
  stop_eq : s'.previousStop = s.previousStop
  alighted : Option.Rel (Sooner arriveBy) s'.lastAlighted s.lastAlighted

theorem State.label_alighted {s : State W} (hs : s.trip = none) :
    s.label.alighted = s.lastAlighted := by
  unfold State.label State.isOnBoard
  simp [hs]

theorem State.place_left {s : State W} (hs : s.trip = none) :
    s.place.left = match s.previousTrip, s.previousStop with
      | some trip, some stop => some (trip.id, stop)
      | _, _ => none := by
  unfold State.place State.isOnBoard
  cases s.previousTrip <;> cases s.previousStop <;> simp [hs]

theorem State.place_left_eq_some {s : State W} {trip : Trip} {stop : StopId} (hs : s.trip = none)
    (htrip : s.previousTrip = some trip) (hstop : s.previousStop = some stop) :
    s.place.left = some (trip.id, stop) := by
  rw [State.place_left hs, htrip, hstop]

theorem State.Covers.recalls {s s' : State W} (hn : c.network.Wired) (hs : c.Reached time s)
    (hs' : c.Reached time s') (h : s'.Covers c.arriveBy s) (hoff : s.trip = none) :
    s'.Recalls c.arriveBy s := by
  have hoff' := h.trip_eq_none hoff
  have hleft : s'.place.left = s.place.left := congrArg Place.left h.place_eq
  rw [State.place_left hoff, State.place_left hoff'] at hleft
  have halighted := h.alighted
  rw [State.label_alighted hoff, State.label_alighted hoff'] at halighted
  cases hs.ledger with
  | unused hever _ _ hprev hstop _ =>
    cases hs'.ledger with
    | unused hever' _ _ hprev' hstop' _ =>
      exact ⟨hever'.trans hever.symm, hprev'.trans hprev.symm, hstop'.trans hstop.symm, halighted⟩
    | used _ _ _ hprev' hmem' =>
      obtain ⟨stop', _, hstop', -⟩ := hmem' hoff'
      rw [hprev, hprev', hstop'] at hleft
      cases hleft
  | @used k p hever _ hp hprev hmem =>
    obtain ⟨stop, _, hstop, -⟩ := hmem hoff
    cases hs'.ledger with
    | unused _ _ _ hprev' hstop' _ =>
      rw [hprev, hstop, hprev'] at hleft
      cases hleft
    | @used k' p' hever' _ hp' hprev' hmem' =>
      obtain ⟨stop', _, hstop', -⟩ := hmem' hoff'
      rw [hprev, hstop, hprev', hstop'] at hleft
      obtain ⟨hid, rfl⟩ := Prod.mk.inj (Option.some.inj hleft)
      obtain rfl := hn.trip_inj _ _ _ _ hp' hp hid
      rw [hp, Option.some.injEq] at hp'
      exact ⟨hever'.trans hever.symm, by rw [hprev, hprev', hp'], by rw [hstop, hstop'], halighted⟩

/-! ## Meeting the same vehicle -/

variable {s s' y : State Exact} {g : Gate} {stop : StopId} {meeting wait : Int} {day : ServiceDay}

/-- Whether, where one state finds a vehicle, another is like it in what labels do not show: both
have come over a timed transfer or neither has, and in a search forward the day of the vehicle has
begun. -/
structure Context.AlikeUnseen {W : Type} (c : Context) (s y s' : State W) : Prop where
  timed : s.everBoarded = true → s'.cameBy .timedTransfer = s.cameBy .timedTransfer
  begun : c.arriveBy = false → ∀ day, y.serviceDay = some day → day.midnight ≤ s'.time

/-- Whether the edges of a network that lead to a vertex are all timed transfers or none is. -/
def Context.TimedAlike (c : Context) (v : VertexId) : Prop :=
  ∀ e ∈ c.network.edges, ∀ e' ∈ c.network.edges, e.target c.arriveBy = v →
    e'.target c.arriveBy = v → (e.kind = .timedTransfer ↔ e'.kind = .timedTransfer)

/-- Whether the days of a search begin within five days of a time. -/
def Context.DaysNear (c : Context) (time : Int) : Prop :=
  ∀ day ∈ c.days.toList, time - 5 * 86400 ≤ day.midnight ∧ day.midnight ≤ time + 5 * 86400

theorem Context.TimedAlike.cameBy_eq (h : c.TimedAlike s.vertex) (hs : c.Reached time s)
    (hs' : c.Reached time s') (hv : s'.vertex = s.vertex) (hever : s.everBoarded = true)
    (hever' : s'.everBoarded = true) : s'.cameBy .timedTransfer = s.cameBy .timedTransfer := by
  obtain ⟨e, he, hback, ht⟩ := hs.arrived hever
  obtain ⟨e', he', hback', ht'⟩ := hs'.arrived hever'
  unfold State.cameBy
  rw [hback, hback', Option.any_some, Option.any_some, Bool.eq_iff_iff, beq_iff_eq, beq_iff_eq]
  exact h e' he' e he (ht'.trans hv) ht

/-- A transfer that one state makes, a covering state makes too, and may meet vehicles no later. -/
theorem State.Covers.checkTransfer {trip : Trip} {penalty : Exact} (hk : c.integers = .unbounded)
    (hn : c.network.Wired) (hs : c.Reached time s) (hs' : c.Reached time s')
    (h : s'.Covers c.arriveBy s) (hoff : s.trip = none)
    (htimed : s.everBoarded = true → s'.cameBy .timedTransfer = s.cameBy .timedTransfer)
    (ht : checkTransfer c s stop trip = .ok (meeting, penalty)) :
    ∃ meeting', checkTransfer c s' stop trip = .ok (meeting', penalty) ∧
      Sooner c.arriveBy s'.time meeting' ∧ Sooner c.arriveBy meeting' meeting := by
  have hmem := h.recalls hn hs hs' hoff
  cases hever : s.everBoarded with
  | false =>
    rw [checkTransfer_first hever, Except.ok.injEq, Prod.mk.injEq] at ht
    rw [checkTransfer_first (hmem.ever_eq.trans hever)]
    exact ⟨s'.time, by rw [ht.2], .refl _ _, ht.1 ▸ h.sooner⟩
  | true =>
    have hever' := hmem.ever_eq.trans hever
    obtain ⟨hallowed, hcame, hmeeting, hpenalty⟩ := (checkTransfer_eq_ok hever).mp ht
    have htransfer : transferAt c s' stop trip = transferAt c s stop trip := by
      unfold transferAt
      rw [hmem.stop_eq, hmem.trip_eq]
    refine ⟨_, (checkTransfer_eq_ok hever').mpr ⟨?_, ?_, earliestMeeting_unbounded hk _, ?_⟩,
      sooner_exactMeeting _, ?_⟩
    · rw [htransfer]
      exact hallowed
    · rw [htransfer, htimed hever]
      exact hcame
    · rw [htransfer]
      exact hpenalty
    · rw [htransfer, ← exactMeeting_eq hmeeting]
      exact exactMeeting_mono _ h.sooner hmem.alighted

/-- The day of a vehicle that one state meets is in range for a covering state, if in a search
forward it has begun for it. -/
theorem begun_of_sooner {meeting' : Int} (hnear : c.DaysNear time) (hday : day ∈ c.days.toList)
    (hbegun : c.arriveBy = false → day.midnight ≤ s'.time)
    (hsince : Sooner c.arriveBy time s'.time) (hs' : Sooner c.arriveBy s'.time meeting')
    (hm : Sooner c.arriveBy meeting' meeting)
    (h0 : 0 ≤ meeting - day.midnight) (h1 : meeting - day.midnight < 2 ^ 31) :
    0 ≤ meeting' - day.midnight ∧ meeting' - day.midnight < 2 ^ 31 := by
  obtain ⟨hlow, -⟩ := hnear day hday
  unfold Sooner at *
  cases ha : c.arriveBy with
  | false =>
    have := hbegun ha
    simp only [ha, Bool.false_eq_true, if_false] at *
    omega
  | true =>
    simp only [ha, if_true] at *
    omega

/-- A vehicle that one state finds, a covering state finds too or an earlier one. -/
theorem State.Covers.finds {penalty : Exact} (hk : c.integers = .unbounded)
    (hn : c.network.Wired) (hr : c.request.Regular) (hnear : c.DaysNear time)
    (hs : c.Reached time s) (hs' : c.Reached time s') (h : s'.Covers c.arriveBy s)
    (hoff : s.trip = none)
    (htimed : s.everBoarded = true → s'.cameBy .timedTransfer = s.cameBy .timedTransfer)
    (hbegun : c.arriveBy = false → day.midnight ≤ s'.time)
    (hf : g.Finds s c stop meeting wait day penalty) :
    ∃ meeting' wait' day', g.Finds s' c stop meeting' wait' day' penalty ∧
      Sooner c.arriveBy (onward c.arriveBy s'.time wait') (onward c.arriveBy s.time wait) := by
  obtain ⟨meeting', htransfer, hs'm, hm⟩ :=
    h.checkTransfer hk hn hs hs' hoff htimed hf.transfer_eq
  have hexact := Gate.exactVehicle?_eq hf.vehicle_eq
  obtain ⟨hday, hwait⟩ := Gate.exactVehicle?_mem hexact
  obtain ⟨h0, h1, -⟩ := Gate.exactWait?_eq_some.mp hwait
  obtain ⟨h0', h1'⟩ := begun_of_sooner hnear hday hbegun hs'.since hs'm hm h0 h1
  obtain ⟨wait', day', hvehicle, hnonneg, hsooner⟩ := Gate.exactVehicle?_mono hexact hm hs'm
    (hs'.mode_eq.trans hs.mode_eq.symm) h0' h1'
  obtain ⟨t, ht, rfl⟩ := penalty_of_checkTransfer hr hf.transfer_eq
  refine ⟨meeting', wait', day', ⟨hf.mode_allowed, hf.stop_eq, htransfer, hf.trip_allowed,
    (Gate.nearestVehicle?_unbounded hk).trans (congrArg _ hvehicle), hnonneg,
    hk ▸ Integers.holds_unbounded, hf.route_allowed, hf.access, ?_⟩, hsooner⟩
  rw [Gate.fare_eq hr, Exact.isCharge_iff, Exact.nonneg_finite]
  have hfixed := Gate.leastBoardCost_le (g := g) hr ht s'.streetMode
  have hleast := hr.leastBoardCost_nonneg
  have hwait' : 0 ≤ wait' * c.request.waitRate (!s'.everBoarded) :=
    mul_nonneg (by exact_mod_cast hnonneg) (hr.waitRate_nonneg _)
  linarith

/-! ## Taking the same edge -/

theorem State.place_congr {a b : State W} (hv : a.vertex = b.vertex) (ht : a.trip = b.trip)
    (hp : a.previousTrip = b.previousTrip) (hs : a.previousStop = b.previousStop) :
    a.place = b.place := by
  unfold State.place State.isOnBoard
  rw [hv, ht, hp, hs]

theorem State.place_eq_of_onBoard {a b : State W} (hv : a.vertex = b.vertex)
    (ht : a.trip.map (·.id) = b.trip.map (·.id)) (ha : a.isOnBoard = true)
    (hb : b.isOnBoard = true) : a.place = b.place := by
  unfold State.place
  rw [hv, ht, ha, hb]
  rfl

theorem State.label_alighted_of_onBoard {a : State W} (ha : a.isOnBoard = true) :
    a.label.alighted = none := if_pos ha

/-- Where no vehicle is found or left, a state that covers another goes on to do so. -/
theorem State.Covers.keep {arriveBy : Bool} {a b a' b' : State W} (h : b.Covers arriveBy a)
    (hoff : a.trip = none → b.Recalls arriveBy a) (ha : a'.SameRides a) (hb : b'.SameRides b)
    (hv : b'.vertex = a'.vertex) (ht : Sooner arriveBy b'.time a'.time) :
    b'.Covers arriveBy a' := by
  have hon : a'.isOnBoard = a.isOnBoard := congrArg Option.isSome ha.trip_eq
  have hon' : b'.isOnBoard = b.isOnBoard := congrArg Option.isSome hb.trip_eq
  have hboard : b'.boardings ≤ a'.boardings := by
    rw [ha.boardings_eq, hb.boardings_eq]
    exact h.boardings_le
  cases hs : a.isOnBoard with
  | true =>
    rw [hs] at hon
    rw [h.isOnBoard_eq, hs] at hon'
    refine ⟨place_eq_of_onBoard hv ?_ hon' hon, ht, hboard, ?_⟩
    · rw [ha.trip_eq, hb.trip_eq, h.riding_eq]
    · rw [label_alighted_of_onBoard hon, label_alighted_of_onBoard hon']
      exact .none
  | false =>
    have hnone := State.isOnBoard_eq_false.mp hs
    have hnone' := h.trip_eq_none hnone
    have hmem := hoff hnone
    refine ⟨place_congr hv ?_ ?_ ?_, ht, hboard, ?_⟩
    · rw [ha.trip_eq, hb.trip_eq, hnone, hnone']
    · rw [ha.previous_eq, hb.previous_eq, hmem.trip_eq]
    · rw [ha.stop_eq, hb.stop_eq, hmem.stop_eq]
    · rw [label_alighted (ha.trip_eq.trans hnone), label_alighted (hb.trip_eq.trans hnone'),
        ha.alighted_eq, hb.alighted_eq]
      exact hmem.alighted

/-- Whether a step adds to the lighter of two states no more than to the other. -/
def State.Lighter (s' s y' y : State Exact) : Prop :=
  ∀ q' r, s'.weight = .finite q' → y.weight = .finite r →
    (∃ q, s.weight = .finite q ∧ q' ≤ q) → ∃ r', y'.weight = .finite r' ∧ r' ≤ r

theorem State.lighter_of_add {y' : State Exact} {w : Exact} (hy : y.weight = s.weight + w)
    (hy' : y'.weight = s'.weight + w) : s'.Lighter s y' y := by
  rintro q' r hq' hr ⟨q, hq, hle⟩
  rw [hy] at hr
  obtain ⟨a, b, ha, hb, hsum⟩ := Exact.add_eq_finite hr
  obtain rfl : a = q := Exact.finite.inj (ha.symm.trans hq)
  refine ⟨q' + b, by rw [hy', hq', hb]; rfl, ?_⟩
  linarith

/-- Whether the lighter of two states is so by what it will wait longer. -/
def Context.WaitsPaid (c : Context) (s' s : State Exact) : Prop :=
  ∀ q q', s.weight = .finite q → s'.weight = .finite q' → q' ≤ q →
    q' + secondsTo c.arriveBy s'.time s.time * c.request.waitRate (!s.everBoarded) ≤ q

/-- A longer wait for a vehicle weighs no more than what a state has paid less. -/
theorem Context.WaitsPaid.lighter {t : ℚ} {wait' : Int} {y' : State Exact} (hr : c.request.Regular)
    (h : c.WaitsPaid s' s) (hever : s'.everBoarded = s.everBoarded)
    (hmode : s'.streetMode = s.streetMode)
    (hy : y.weight = s.weight + g.fare s c wait (.finite t))
    (hy' : y'.weight = s'.weight + g.fare s' c wait' (.finite t))
    (hsooner : Sooner c.arriveBy (onward c.arriveBy s'.time wait')
      (onward c.arriveBy s.time wait)) :
    s'.Lighter s y' y := by
  rintro q' r hq' hr' ⟨q, hq, hle⟩
  have hpaid := h q q' hq hq' hle
  rw [hy, hq, Gate.fare_eq hr, Exact.finite_add_finite, Exact.finite.injEq] at hr'
  rw [Gate.fare_eq hr, hever, hmode] at hy'
  have hwaits : (wait' : ℚ) ≤ wait + secondsTo c.arriveBy s'.time s.time := by
    have : wait' ≤ wait + secondsTo c.arriveBy s'.time s.time := by
      unfold Sooner onward at hsooner
      unfold secondsTo
      split_ifs at * <;> omega
    exact_mod_cast this
  have hmul := mul_le_mul_of_nonneg_right hwaits (hr.waitRate_nonneg (!s.everBoarded))
  refine ⟨_, by rw [hy', hq']; rfl, ?_⟩
  linarith

theorem Context.Reached.trip_eq_none (hn : c.network.Wired) (hs : c.Reached time s)
    (he : e ∈ c.network.edges) (hsrc : e.source c.arriveBy = s.vertex) (hl : e.link = g.link)
    (hside : g.boarding ≠ c.arriveBy) : s.trip = none := by
  rcases hs.placed with hfoot | ⟨k, p, d, start, hrun⟩
  · exact hfoot.trip_eq
  · exact absurd (hrun.aboard.not_find hn he hsrc hl) hside

/-- Only finding a vehicle counts a boarding. -/
theorem Context.Step.finds (hn : c.network.Wired) (hs : c.Reached time s) (h : c.Step s y)
    (hne : y.boardings ≠ s.boardings) : s.trip = none ∧
      ∃ (g : Gate) (stop : StopId) (meeting wait : Int) (day : ServiceDay) (penalty : Exact),
        g.Finds s c stop meeting wait day penalty := by
  obtain ⟨e, he, hsrc, ht⟩ := hn.step_iff.mp h
  cases ht with
  | find hl hside hf => exact ⟨hs.trip_eq_none hn he hsrc hl hside, _, _, _, _, _, _, hf⟩
  | leave | stay | change | walk => exact absurd rfl hne

/-- An edge that one state takes, a covering state takes too, and covers the other behind it. -/
theorem Context.Takes.mirror (hk : c.integers = .unbounded) (hn : c.network.Wired)
    (hr : c.request.Regular) (hnear : c.DaysNear time) (hs : c.Reached time s)
    (hs' : c.Reached time s') (h : s'.Covers c.arriveBy s) (he : e ∈ c.network.edges)
    (hsrc : e.source c.arriveBy = s.vertex) (ht : c.Takes e s y)
    (hunseen : y.boardings ≠ s.boardings → c.AlikeUnseen s y s') :
    ∃ y', c.Takes e s' y' ∧ y'.Covers c.arriveBy y ∧
      ((y.boardings ≠ s.boardings → c.WaitsPaid s' s) → s'.Lighter s y' y) := by
  have hmode := hs'.mode_eq.trans hs.mode_eq.symm
  have hrecalls := h.recalls hn hs hs'
  have hsooner : ∀ seconds : Int, Sooner c.arriveBy (onward s'.arriveBy s'.time seconds)
      (onward s.arriveBy s.time seconds) := fun seconds => by
    rw [hs.arriveBy_eq, hs'.arriveBy_eq]
    exact h.sooner.onward
  have hheld : ∀ time : Int, c.integers.Holds 64 time := fun _ => hk ▸ Integers.holds_unbounded
  cases ht with
  | @find g stop meeting wait day penalty hl hside hf =>
    have hoff := hs.trip_eq_none hn he hsrc hl hside
    obtain ⟨htimed, hbegun⟩ := hunseen (Nat.succ_ne_self _)
    obtain ⟨meeting', wait', day', hf', hle⟩ :=
      h.finds hk hn hr hnear hs hs' hoff htimed (fun ha => hbegun ha day rfl) hf
    obtain ⟨t, -, rfl⟩ := penalty_of_checkTransfer hr hf.transfer_eq
    have hmem := hrecalls hoff
    refine ⟨_, .find hl hside hf', ⟨?_, ?_, ?_, .none⟩, fun hpaid =>
      (hpaid (Nat.succ_ne_self _)).lighter (g := g) (t := t) hr hmem.ever_eq hmode rfl rfl hle⟩
    · exact State.place_congr rfl rfl rfl hmem.stop_eq
    · show Sooner _ (onward s'.arriveBy _ _) (onward s.arriveBy _ _)
      rw [hs.arriveBy_eq, hs'.arriveBy_eq]
      exact hle
    · exact Nat.succ_le_succ h.boardings_le
  | @leave g stop hl hside _ hstop haccess =>
    have hon : s.trip ≠ none := fun hoff =>
      (hs.onFoot hoff).not_leave hn he hsrc hl hside
    have hon' : s'.trip ≠ none := by
      rw [← State.isOnBoard_eq_true, h.isOnBoard_eq, State.isOnBoard_eq_true]
      exact hon
    obtain ⟨k, p, d, start, hrun⟩ := hs.onRun hon
    obtain ⟨k', p', d', start', hrun'⟩ := hs'.onRun hon'
    have hriding := h.riding_eq
    rw [hrun.trip_eq, hrun'.trip_eq] at hriding
    obtain rfl := hn.trip_inj _ _ _ _ hrun'.pattern_eq hrun.pattern_eq (Option.some.inj hriding)
    obtain rfl := Option.some.inj (hrun.pattern_eq.symm.trans hrun'.pattern_eq)
    have hfresh : s'.cameBy g.kind = false := by
      rw [Gate.kind_eq_leavingKind hside]
      exact hrun'.not_leaving
    refine ⟨_, .leave hl hside hfresh hstop haccess, ⟨?_, h.sooner, h.boardings_le, .some h.sooner⟩,
      fun _ => ?_⟩
    · exact State.place_congr rfl rfl (hrun'.previous_eq.trans hrun.previous_eq.symm) rfl
    · rintro q' r hq' hr' ⟨q, hq, hle⟩
      obtain rfl : q = r := Exact.finite.inj (hq.symm.trans hr')
      exact ⟨q', hq', hle⟩
  | stay hl htrip hnonneg hcharge =>
    refine ⟨_, .stay hl (h.riding_eq.trans htrip) hnonneg hcharge (hheld _),
      h.keep hrecalls e.sameRides_moved e.sameRides_moved rfl (hsooner _),
      fun _ => State.lighter_of_add rfl rfl⟩
  | change hl hoff =>
    refine ⟨_, .change hl (h.isOnBoard_eq.trans hoff),
      h.keep hrecalls e.sameRides_changed e.sameRides_changed rfl h.sooner, fun _ => ?_⟩
    rintro q' r hq' hr' ⟨q, hq, hle⟩
    obtain rfl : q = r := Exact.finite.inj (hq.symm.trans hr')
    exact ⟨q', hq', hle⟩
  | @walk street hl hopen hnonneg hcharge =>
    rw [← hmode] at hnonneg hcharge
    refine ⟨_, .walk hl ⟨h.isOnBoard_eq.trans hopen.off_board, hmode ▸ hopen.mode_allowed,
      hmode ▸ hopen.permitted, hopen.exposure⟩ hnonneg hcharge (hheld _), ?_, fun _ => ?_⟩
    · refine h.keep hrecalls e.sameRides_moved e.sameRides_moved rfl ?_
      rw [hmode]
      exact hsooner _
    · rw [hmode]
      exact State.lighter_of_add rfl rfl

end JourneyPlanner
