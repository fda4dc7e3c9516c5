import JourneyPlanner.Proofs.Arithmetic.Quotients
import JourneyPlanner.Proofs.Journey.Charges
import JourneyPlanner.Proofs.Journey.Overflow
import JourneyPlanner.Proofs.Search.Chronicle

/-!
# Times on streets

With doubles for weights, a street takes its length divided by the speed, rounded up to whole
seconds. In words of 64 bits the seconds are cut off at the greatest word, and their sum with the
time of a state overflows when it does not fit; where neither happens the time is right
(`Edge.traverse_street_time`). It goes wrong only on a street of more than a thousand light years
(`Edge.time_of_length_le`): the walk overflows (`oneLane_overflows`), or it ends too early
(`oneLane_cut`).
-/

namespace JourneyPlanner

open Float.Model (UnpackedFloat)

/-! ## Speeds and lengths -/

/-- Speeds as they are when a traveller gives none. -/
structure Request.UsualSpeeds (r : Request) : Prop where
  walk_eq : r.walkSpeed = ({} : Request).walkSpeed
  bike_eq : r.bikeSpeed = ({} : Request).bikeSpeed

theorem Request.UsualSpeeds.ofFloat_speed {r : Request} (h : r.UsualSpeeds) (mode : Mode) :
    ∃ v : ℚ, Weight.ofFloat (r.speed mode) = Exact.finite v ∧ 133 / 100 ≤ v := by
  have hwalk : (1.33 : Float).toModel.unpack =
      .finite .positive 5989787504402760 (-52) (by decide) := rfl
  have hbike : (5.0 : Float).toModel.unpack =
      .finite .positive 5629499534213120 (-50) (by decide) := rfl
  show ∃ v : ℚ, Exact.ofUnpacked (r.speed mode).toModel.unpack = Exact.finite v ∧ _
  unfold Request.speed
  rw [h.walk_eq, h.bike_eq]
  split_ifs
  · exact ⟨_, congrArg Exact.ofUnpacked hbike, by decide +kernel⟩
  · exact ⟨_, congrArg Exact.ofUnpacked hwalk, by decide +kernel⟩

/-- A length that a street can have: one that is given, or the distance of two points. -/
structure Street.Measured (street : Street) : Prop where
  not_neg : ¬ street.length < 0.0
  not_inf : street.length.isInf = false

variable {c : Context} {e : Edge} {s s' : State Float} {street : Street} {mode : Mode}

/-- In a network that is put together from a description every length is measured, as long as none
is infinite. -/
theorem Network.Wired.measured (hn : c.network.Wired) (hd : c.network.DistancesNonneg)
    (he : e ∈ c.network.edges) (hl : e.link = .street street)
    (hinf : street.length.isInf = false) : street.Measured :=
  ⟨Street.not_length_lt hn hd he hl, hinf⟩

theorem div_notANumber (x : UnpackedFloat) :
    UnpackedFloat.div .binary64 .notANumber x = .notANumber := by
  cases x <;> rfl

theorem Street.Measured.length_cases (h : street.Measured) :
    (∃ p, Weight.ofFloat street.length = Exact.finite p ∧ 0 ≤ p) ∨
      street.length.toModel.unpack = .notANumber := by
  rcases Exact.ofFloat_of_not_lt h.not_neg with (⟨p, hp, heq⟩ | heq) | heq
  · exact .inl ⟨p, heq, hp⟩
  · have hinf := h.not_inf
    change street.length.toModel.unpack.isInf = false at hinf
    change Exact.ofUnpacked street.length.toModel.unpack = _ at heq
    cases hx : street.length.toModel.unpack with
    | infinity => rw [hx] at hinf; cases hinf
    | notANumber | zero | finite => rw [hx] at heq; cases heq
  · change Exact.ofUnpacked street.length.toModel.unpack = _ at heq
    cases hx : street.length.toModel.unpack with
    | notANumber => exact .inr rfl
    | infinity sign => rw [hx] at heq; cases sign <;> cases heq
    | zero | finite => rw [hx] at heq; cases heq

/-! ## Times -/

/-- The whole seconds that a street takes in a mode, where lengths are divided as doubles. -/
def Street.clockTime (street : Street) (r : Request) (mode : Mode) : Int :=
  ⌈Exact.number (street.length / r.speed mode)⌉

theorem Street.clockTime_notANumber (h : street.length.toModel.unpack = .notANumber) :
    street.clockTime c.request mode = 0 ∧ Weight.truncate (street.seconds c mode : Float) = 0 := by
  have hquotient : (street.length / c.request.speed mode).toModel.unpack = .notANumber := by
    show (Float.Model.pack (UnpackedFloat.div _ street.length.toModel.unpack _)).unpack = _
    rw [h, div_notANumber]
    rfl
  constructor
  · show ⌈(Exact.ofUnpacked (street.length / c.request.speed mode).toModel.unpack).value⌉ = 0
    rw [hquotient]
    rfl
  · have hseconds : (street.seconds c mode : Float).toModel.unpack = .notANumber := by
      show (Float.Model.pack (ceilUnpacked
        (street.length / c.request.speed mode).toModel.unpack)).unpack = _
      rw [hquotient]
      rfl
    show (street.seconds c mode : Float).toModel.unpack.toInt64.toInt = 0
    rw [hseconds]
    rfl

/-- The seconds that are added to a time are cut off at the greatest word of 64 bits. -/
theorem Street.truncate_seconds (hspeeds : c.request.UsualSpeeds) (hlen : street.Measured) :
    0 ≤ street.clockTime c.request mode ∧ Weight.truncate (street.seconds c mode : Float) =
      min (street.clockTime c.request mode) (2 ^ 63 - 1) := by
  rcases hlen.length_cases with ⟨p, hp, h⟩ | h
  · obtain ⟨v, hv, hlow⟩ := hspeeds.ofFloat_speed mode
    obtain ⟨q, hq, hnonneg, -⟩ := ofFloat_div hp h hv (by linarith)
    have hclock : street.clockTime c.request mode = ⌈q⌉ := by
      unfold clockTime Exact.number
      rw [hq]
      rfl
    rw [hclock]
    exact ⟨Int.ceil_nonneg hnonneg, truncate_ceilFloat hq hnonneg⟩
  · rw [(Street.clockTime_notANumber h).1, (Street.clockTime_notANumber h).2]
    exact ⟨le_refl _, rfl⟩

/-- Whether a number is in a signed word of 64 bits. -/
def InWord64 (n : Int) : Prop := -2 ^ 63 ≤ n ∧ n < 2 ^ 63

instance (n : Int) : Decidable (InWord64 n) := inferInstanceAs (Decidable (_ ∧ _))

theorem Integers.holds_words_iff {n : Int} : words.Holds 64 n ↔ InWord64 n :=
  ⟨fun h => h rfl, fun h _ => h⟩

theorem Edge.street_overflow_iff (hk : c.integers = .words) (hspeeds : c.request.UsualSpeeds)
    (hl : e.link = .street street) (hlen : street.Measured) :
    e.traverse s c = .error .overflow ↔ street.Open e s c ∧ ¬ InWord64 (onward s.arriveBy s.time
      (min (street.clockTime c.request s.streetMode) (2 ^ 63 - 1))) := by
  obtain ⟨hnonneg, htruncate⟩ : _ ∧ Weight.truncate (street.seconds c s.streetMode : Float) = _ :=
    Street.truncate_seconds hspeeds hlen
  unfold Edge.traverse
  rw [hl]
  simp only
  rw [Street.traverse_overflow_iff, htruncate, hk, Integers.holds_words_iff]
  exact ⟨fun h => ⟨h.1, h.2.2⟩, fun h => ⟨h.1, by omega, h.2⟩⟩

theorem Edge.time_of_street (hspeeds : c.request.UsualSpeeds) (hl : e.link = .street street)
    (hlen : street.Measured) (h : e.traverse s c = .ok s') :
    s'.time = onward s.arriveBy s.time
      (min (street.clockTime c.request s.streetMode) (2 ^ 63 - 1)) := by
  unfold Edge.traverse at h
  rw [hl] at h
  obtain ⟨-, -, -, -, rfl⟩ := Street.traverse_eq_ok.mp h
  rw [← (Street.truncate_seconds hspeeds hlen).2]
  rfl

/-- In words of 64 bits, a street that can be taken overflows exactly when the sum of the time
before and the seconds that it takes, which are cut off at the greatest word, does not fit. When it
is taken the time after it is the one before, later or earlier by those seconds, exactly when none
are cut off. -/
theorem Edge.traverse_street_time (hk : c.integers = .words) (hspeeds : c.request.UsualSpeeds)
    (hl : e.link = .street street) (hlen : street.Measured) :
    (e.traverse s c = .error .overflow ↔ street.Open e s c ∧ ¬ InWord64 (onward s.arriveBy s.time
      (min (street.clockTime c.request s.streetMode) (2 ^ 63 - 1)))) ∧
    ∀ s', e.traverse s c = .ok s' →
      (s'.time = onward s.arriveBy s.time (street.clockTime c.request s.streetMode) ↔
        street.clockTime c.request s.streetMode < 2 ^ 63) := by
  refine ⟨Edge.street_overflow_iff hk hspeeds hl hlen, ?_⟩
  intro s' h
  rw [Edge.time_of_street hspeeds hl hlen h]
  unfold onward
  split_ifs <;> omega

/-! ## Strolls -/

/-- A street of a network that may be walked at some time. -/
structure Stroll (description : NetworkDescription) (request : Request) (time : Int) where
  network : Network
  days : ServiceDays
  edge : Edge
  street : Street
  build_eq : description.build onlyUtc = .ok network
  days_eq : network.calendar.serviceDays time = .ok days
  edge_mem : edge ∈ network.edges
  link_eq : edge.link = .street street
  measured : street.Measured

/-- What comes of the walk, with doubles for weights and times in words of 64 bits. -/
def Stroll.walk {description : NetworkDescription} {request : Request} {time : Int}
    (w : Stroll description request time) : Except Rejection (State Float) :=
  w.edge.traverse (State.origin (w.edge.source request.arriveBy) time request)
    ⟨.words, w.network, request, w.days⟩

/-- The stroll along the first edge of a network. -/
def Stroll.run? (description : NetworkDescription) (request : Request) (time : Int) :
    Option (Stroll description request time) :=
  match hb : description.build onlyUtc with
  | .error _ => none
  | .ok n =>
    match hd : n.calendar.serviceDays time with
    | .error _ => none
    | .ok days =>
      match he : n.edges[0]? with
      | none => none
      | some e =>
        match hl : e.link with
        | .street street =>
          if h : ¬ street.length < 0.0 ∧ street.length.isInf = false then
            some ⟨n, days, e, street, hb, hd, Array.mem_of_getElem? he, hl, ⟨h.1, h.2⟩⟩
          else none
        | _ => none

/-- A walk of a hundred seconds. -/
theorem twoLanes_detour_time : ∃ (w : Stroll twoLanes {} shuttleTime) (s : State Float),
    w.street.clockTime {} .walk = 100 ∧ w.walk = .ok s ∧ s.time = shuttleTime + 100 := by
  have h : ((Stroll.run? twoLanes {} shuttleTime).any fun w =>
      w.street.clockTime {} .walk == 100 && w.walk.toOption.isSome) = true := by
    decide +kernel
  obtain ⟨w, -, h⟩ := (Option.any_eq_true _ _).mp h
  rw [Bool.and_eq_true, beq_iff_eq] at h
  obtain ⟨hseconds, hwalk⟩ := h
  obtain ⟨s, hwalk⟩ := Option.isSome_iff_exists.mp hwalk
  have hwalk : w.walk = .ok s := eq_ok_of_toOption hwalk
  have htime := ((Edge.traverse_street_time rfl ⟨rfl, rfl⟩ w.link_eq w.measured).2 s hwalk).mpr
    (show w.street.clockTime {} .walk < 2 ^ 63 by rw [hseconds]; decide)
  exact ⟨w, s, hseconds, hwalk, htime.trans (congrArg (onward false shuttleTime) hseconds)⟩

/-- A single lane of some length. -/
def oneLane (length : Float) : NetworkDescription :=
  { twoLanes with streets := [⟨"A", "B", "lane", some length, [.walk], false⟩] }

/-- A walk that is open to a traveller and does not fit into the time. -/
theorem oneLane_overflows : ∃ w : Stroll (oneLane 1.3e19) {} shuttleTime,
    w.street.clockTime {} .walk = 9774436090225563648 ∧ w.walk = .error .overflow := by
  have h : ((Stroll.run? (oneLane 1.3e19) {} shuttleTime).any fun w =>
      w.street.clockTime {} .walk == 9774436090225563648 &&
        w.walk.map (fun _ => ()) == .error .overflow) = true := by
    decide +kernel
  obtain ⟨w, -, h⟩ := (Option.any_eq_true _ _).mp h
  rw [Bool.and_eq_true, beq_iff_eq, beq_iff_eq] at h
  refine ⟨w, h.1, ?_⟩
  cases hwalk : w.walk with
  | error r => rw [hwalk] at h; exact congrArg _ (Except.error.inj h.2)
  | ok s => rw [hwalk] at h; cases h.2

/-- A walk that ends a second too early, although the right time fits in a word. -/
theorem oneLane_cut : ∃ (w : Stroll (oneLane 1.2267084809016852e19) {} (-1)) (s : State Float),
    w.street.clockTime {} .walk = 2 ^ 63 ∧ w.walk = .ok s ∧ s.time = 2 ^ 63 - 2 := by
  have h : ((Stroll.run? (oneLane 1.2267084809016852e19) {} (-1)).any fun w =>
      w.street.clockTime {} .walk == 2 ^ 63 &&
        w.walk.toOption.any fun s => s.time == 2 ^ 63 - 2) = true := by
    decide +kernel
  obtain ⟨w, -, h⟩ := (Option.any_eq_true _ _).mp h
  rw [Bool.and_eq_true, beq_iff_eq] at h
  obtain ⟨s, hs, htime⟩ := (Option.any_eq_true _ _).mp h.2
  exact ⟨w, s, h.1, eq_ok_of_toOption hs, beq_iff_eq.mp htime⟩

/-! ## Streets of moderate length -/

/-- Whether a time is on a date of the calendar. -/
def IsInstant (t : Int) : Prop := Date.first.day * 86400 ≤ t ∧ t < (Date.last.day + 1) * 86400

/-- A street of a thousand light years takes a time that fits in a word. -/
theorem Street.clockTime_le (hspeeds : c.request.UsualSpeeds) (hlen : street.Measured)
    (hle : Exact.number street.length ≤ 12 * 10 ^ 18) :
    street.clockTime c.request mode ≤ 91 * 10 ^ 17 := by
  rcases hlen.length_cases with ⟨p, hp, h⟩ | h
  · have hnumber : Exact.number street.length = p := by
      unfold Exact.number
      rw [hp]
      rfl
    obtain ⟨v, hv, hlow⟩ := hspeeds.ofFloat_speed mode
    obtain ⟨q, hq, -, hbound⟩ := ofFloat_div hp h hv (by linarith)
    have hquotient : p / v ≤ 12 * 10 ^ 18 / (133 / 100) :=
      div_le_div₀ (by norm_num) (hnumber ▸ hle) (by norm_num) hlow
    have hleast : (2 : ℚ) ^ (-1074 : Int) ≤ 1 :=
      zpow_le_one_of_nonpos₀ (by norm_num) (by norm_num)
    have hround : max ((2 : ℚ) ^ (-1074 : Int)) (p / v / 2 ^ 52) ≤ 10 ^ 4 :=
      max_le (hleast.trans (by norm_num)) (by linarith)
    unfold clockTime Exact.number
    rw [hq]
    refine Int.ceil_le.mpr ?_
    push_cast
    show q ≤ _
    linarith
  · rw [(Street.clockTime_notANumber h).1]
    decide

/-- From a time on a date of the calendar, a street of up to a thousand light years does not
overflow, and gives the right time. -/
theorem Edge.time_of_length_le (hk : c.integers = .words) (hspeeds : c.request.UsualSpeeds)
    (hl : e.link = .street street) (hlen : street.Measured)
    (hle : Exact.number street.length ≤ 12 * 10 ^ 18) (ht : IsInstant s.time) :
    e.traverse s c ≠ .error .overflow ∧ ∀ s', e.traverse s c = .ok s' →
      s'.time = onward s.arriveBy s.time (street.clockTime c.request s.streetMode) := by
  have hnonneg : 0 ≤ street.clockTime c.request s.streetMode :=
    (Street.truncate_seconds hspeeds hlen).1
  have hsmall : street.clockTime c.request s.streetMode ≤ 91 * 10 ^ 17 :=
    Street.clockTime_le hspeeds hlen hle
  have hcut : min (street.clockTime c.request s.streetMode) (2 ^ 63 - 1) =
      street.clockTime c.request s.streetMode := min_eq_left (by omega)
  refine ⟨fun h => ((Edge.street_overflow_iff hk hspeeds hl hlen).mp h).2 ?_,
    fun s' h => (Edge.time_of_street hspeeds hl hlen h).trans (by rw [hcut])⟩
  have hfirst : Date.first.day = -96465292 := rfl
  have hlast : Date.last.day = 95026236 := rfl
  unfold IsInstant at ht
  rw [hcut]
  unfold InWord64 onward
  split_ifs <;> omega

end JourneyPlanner
