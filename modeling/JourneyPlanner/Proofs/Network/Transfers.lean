import JourneyPlanner.Proofs.Splits
import JourneyPlanner.Transfer
import Mathlib.Tactic.SplitIfs

/-!
# Which transfer rule counts

A table is made by adding rules to pairs of stops and by putting stops into stations. The transfer
between two trips is that of the last of the most specific rules that match them, first for the
stops and then for their stations (`TransferTable.transferTime_made`).
-/

namespace JourneyPlanner

namespace TransferRule

variable {rules : List TransferRule} {q r : TransferRule}

/-! ## Rules -/

theorem accepts_iff {α : Type} [DecidableEq α] {restriction : Option α} {a : α} :
    accepts restriction a = true ↔ ∀ b, restriction = some b → b = a := by
  unfold accepts
  cases restriction with
  | none => exact ⟨fun _ => nofun, fun _ => rfl⟩
  | some b => exact beq_iff_eq.trans ⟨fun h _ hb => Option.some.inj hb ▸ h, fun h => h b rfl⟩

/-- A rule matches two trips that have the routes and are the trips that it names. -/
theorem isMatch_iff {x y : Trip} : r.isMatch x y = true ↔
    (∀ route, r.fromRoute = some route → route = x.route) ∧
      (∀ route, r.toRoute = some route → route = y.route) ∧
      (∀ trip, r.fromTrip = some trip → trip = x.id) ∧
      ∀ trip, r.toTrip = some trip → trip = y.id := by
  unfold isMatch
  rw [Bool.and_eq_true, Bool.and_eq_true, Bool.and_eq_true, accepts_iff, accepts_iff, accepts_iff,
    accepts_iff, and_assoc, and_assoc]

/-- One side is narrower than another when it names a trip and the other does not, or a route and
the other neither. -/
theorem sideSpecificity_lt_iff {route route' : Option RouteId} {trip trip' : Option TripId} :
    sideSpecificity route trip < sideSpecificity route' trip' ↔
      trip = none ∧ (trip' ≠ none ∨ route = none ∧ route' ≠ none) := by
  cases route <;> cases trip <;> cases route' <;> cases trip' <;> simp [sideSpecificity]

/-- How narrow a rule is where the traveller alights. -/
def fromSpecificity (r : TransferRule) : Nat := sideSpecificity r.fromRoute r.fromTrip

/-- How narrow a rule is where the traveller boards. -/
def toSpecificity (r : TransferRule) : Nat := sideSpecificity r.toRoute r.toTrip

/-- A rule is as narrow as another on both sides, and narrower on one. -/
def Outranks (q r : TransferRule) : Prop :=
  r.fromSpecificity ≤ q.fromSpecificity ∧ r.toSpecificity ≤ q.toSpecificity ∧
    (r.fromSpecificity < q.fromSpecificity ∨ r.toSpecificity < q.toSpecificity)

/-- A rule of the list that is at least as specific as those before it, and more specific than those
after it. -/
def Foremost (rules : List TransferRule) (r : TransferRule) : Prop :=
  SplitsAt rules fun earlier x later => (x = r ∧ ∀ q ∈ earlier, q.specificity ≤ r.specificity) ∧
    ∀ q ∈ later, q.specificity < r.specificity

theorem Foremost.mem (h : Foremost rules r) : r ∈ rules := by
  obtain ⟨earlier, _, later, rfl, ⟨rfl, -⟩, -⟩ := h
  exact List.mem_append_right _ List.mem_cons_self

theorem Foremost.specificity_le (h : Foremost rules r) (hq : q ∈ rules) :
    q.specificity ≤ r.specificity := by
  obtain ⟨earlier, _, later, rfl, ⟨rfl, hearlier⟩, hlater⟩ := h
  rcases List.mem_append.mp hq with hq | hq
  · exact hearlier q hq
  · rcases List.mem_cons.mp hq with rfl | hq
    · exact Nat.le_refl _
    · exact Nat.le_of_lt (hlater q hq)

theorem Outranks.specificity_lt (h : q.Outranks r) : r.specificity < q.specificity := by
  obtain ⟨hfrom, hto, hlt⟩ := h
  unfold fromSpecificity at hfrom hlt
  unfold toSpecificity at hto hlt
  unfold specificity
  omega

theorem foremost_append : Foremost (rules ++ [q]) r ↔
    (q = r ∧ ∀ p ∈ rules, p.specificity ≤ r.specificity) ∨
      (Foremost rules r ∧ q.specificity < r.specificity) := by
  unfold Foremost
  rw [splitsAt_append]
  simp only [List.forall_mem_append, List.forall_mem_singleton, ← and_assoc, splitsAt_and,
    List.not_mem_nil, IsEmpty.forall_iff, implies_true, and_true]

theorem best?_append : best? (rules ++ [q]) = preferLater (best? rules) q := by
  unfold best?
  rw [List.foldl_append]
  rfl

theorem best?_eq_none : best? rules = none ↔ rules = [] := by
  induction rules using List.reverseRecOn with
  | nil => exact ⟨fun _ => rfl, fun _ => rfl⟩
  | append_singleton rules q _ =>
    rw [best?_append]
    unfold preferLater
    cases best? rules with
    | none => simp
    | some b =>
      simp only
      split_ifs <;> simp

/-- The rule that counts is the one in front. -/
theorem best?_eq_some : best? rules = some r ↔ Foremost rules r := by
  induction rules using List.reverseRecOn generalizing r with
  | nil => exact ⟨fun h => (nomatch h), fun h => absurd h not_splitsAt_nil⟩
  | append_singleton rules q ih =>
    rw [best?_append, foremost_append]
    unfold preferLater
    cases hbest : best? rules with
    | none =>
      obtain rfl := best?_eq_none.mp hbest
      simp only [Option.some.injEq, List.not_mem_nil, IsEmpty.forall_iff, implies_true, and_true]
      exact ⟨.inl, fun h => h.elim id fun h => absurd h.1 not_splitsAt_nil⟩
    | some b =>
      have hfront (x : TransferRule) : Foremost rules x ↔ b = x := by
        rw [← ih, hbest, Option.some.injEq]
      have hb := (hfront b).mpr rfl
      have hbound (n : Nat) : (∀ p ∈ rules, p.specificity ≤ n) ↔ b.specificity ≤ n :=
        ⟨fun h => h b hb.mem, fun h p hp => Nat.le_trans (hb.specificity_le hp) h⟩
      rw [hfront, hbound]
      simp only
      split_ifs with hle
      · rw [Option.some.injEq]
        constructor
        · rintro rfl
          exact .inl ⟨rfl, hle⟩
        · rintro (⟨hq, -⟩ | ⟨rfl, hlt⟩)
          · exact hq
          · exact absurd hle (Nat.not_le_of_lt hlt)
      · rw [Option.some.injEq]
        constructor
        · rintro rfl
          exact .inr ⟨rfl, Nat.lt_of_not_le hle⟩
        · rintro (⟨rfl, hle'⟩ | ⟨hb, -⟩)
          · exact absurd hle' hle
          · exact hb

end TransferRule

namespace TransferTable

open TransferRule

variable {t : TransferTable} {a b : StopId} {x y : Trip}

/-- The rules of a stop pair that match two trips, in the order added. -/
def matching (t : TransferTable) (a b : StopId) (x y : Trip) : List TransferRule :=
  (t.rulesFor a b).filter (·.isMatch x y)

theorem ruleOf?_eq : t.ruleOf? a b x y = (best? (t.matching a b x y)).map (·.transfer) := rfl

theorem ruleOf?_cases (t : TransferTable) (a b : StopId) (x y : Trip) :
    (∃ r, Foremost (t.matching a b x y) r ∧ t.ruleOf? a b x y = some r.transfer) ∨
      (t.matching a b x y = [] ∧ t.ruleOf? a b x y = none) := by
  rw [ruleOf?_eq]
  cases h : best? (t.matching a b x y) with
  | none => exact .inr ⟨best?_eq_none.mp h, rfl⟩
  | some r => exact .inl ⟨r, best?_eq_some.mp h, rfl⟩

/-! ## How a table is made -/

/-- A call that changes a table. -/
inductive Edit where
  | add (fromStop toStop : StopId) (rule : TransferRule)
  | setParent (stop parent : StopId)

/-- The table after a call. -/
def edit (t : TransferTable) : Edit → TransferTable
  | .add a b rule => t.add a b rule
  | .setParent stop parent => t.setParent stop parent

/-- The table that a sequence of calls makes. -/
def made (edits : List Edit) : TransferTable := edits.foldl edit empty

/-- The rules that a sequence of calls adds to a pair of stops. -/
def rulesAdded (edits : List Edit) (a b : StopId) : List TransferRule :=
  edits.filterMap fun
    | .add c d rule => if c = a ∧ d = b then some rule else none
    | .setParent _ _ => none

/-- The station that a stop was last put into; a stop that was put into none stands for itself. -/
def stationSet (edits : List Edit) (stop : StopId) : StopId :=
  edits.foldl (fun station e => match e with
    | .add _ _ _ => station
    | .setParent s parent => if s = stop then parent else station) stop

theorem made_append (edits : List Edit) (e : Edit) : made (edits ++ [e]) = (made edits).edit e := by
  unfold made
  rw [List.foldl_append]
  rfl

theorem rulesFor_made (edits : List Edit) (a b : StopId) :
    (made edits).rulesFor a b = rulesAdded edits a b := by
  induction edits using List.reverseRecOn with
  | nil => rfl
  | append_singleton edits e ih =>
    rw [made_append]
    unfold rulesAdded at ih ⊢
    rw [List.filterMap_append, ← ih]
    cases e with
    | add c d rule =>
      unfold edit add rulesFor
      rw [List.filterMap_append]
      rfl
    | setParent stop parent =>
      exact (List.append_nil _).symm

theorem parentOf_made (edits : List Edit) (stop : StopId) :
    (made edits).parentOf stop = stationSet edits stop := by
  induction edits using List.reverseRecOn with
  | nil => rfl
  | append_singleton edits e ih =>
    rw [made_append]
    unfold stationSet at ih ⊢
    rw [List.foldl_append, ← ih]
    cases e with
    | add c d rule => rfl
    | setParent s parent =>
      unfold edit setParent parentOf
      rw [List.lookup_cons]
      by_cases h : s = stop
      · simp [h]
      · simp [h, beq_eq_false_iff_ne.mpr (Ne.symm h)]

/-! ## What counts -/

/-- A rule of the stops counts, or one of their stations, or none. -/
theorem travel_cases (t : TransferTable) (a b : StopId) (x y : Trip) :
    (∃ r, Foremost (t.matching a b x y) r ∧ t.travel a b x y = r.transfer) ∨
      (t.matching a b x y = [] ∧ (t.parentOf a ≠ a ∨ t.parentOf b ≠ b) ∧
        ∃ r, Foremost (t.matching (t.parentOf a) (t.parentOf b) x y) r ∧
          t.travel a b x y = r.transfer) ∨
      (t.matching a b x y = [] ∧ (t.parentOf a = a ∧ t.parentOf b = b ∨
        t.matching (t.parentOf a) (t.parentOf b) x y = []) ∧ t.travel a b x y = .unknown) := by
  unfold travel
  rcases t.ruleOf?_cases a b x y with ⟨r, hr, hfound⟩ | ⟨hnone, hfound⟩
  · rw [hfound]
    exact .inl ⟨r, hr, rfl⟩
  · rw [hfound]
    simp only
    by_cases hsame : t.parentOf a = a ∧ t.parentOf b = b
    · rw [if_pos hsame]
      exact .inr (.inr ⟨hnone, .inl hsame, rfl⟩)
    · rw [if_neg hsame]
      rcases t.ruleOf?_cases (t.parentOf a) (t.parentOf b) x y with ⟨r, hr, hfound⟩ | ⟨hno, hfound⟩
      · rw [hfound]
        exact .inr (.inl ⟨hnone, not_and_or.mp hsame, r, hr, rfl⟩)
      · rw [hfound]
        exact .inr (.inr ⟨hnone, .inr hno, rfl⟩)

/-- However a table was made, the transfer between two trips is that of a rule of the stops that
matches both trips and is the last of the most specific ones that do. When none of the stops
matches and at least one of them is in another station, it is that of such a rule of the stations.
Otherwise nothing is known. A backward search that meets the boarding first gets the same. The rule
that counts is never one that is outranked by another one of the same stops that matches too. -/
theorem transferTime_made (edits : List Edit) (a b : StopId) (x y : Trip) :
    ((∃ r, Foremost ((rulesAdded edits a b).filter (·.isMatch x y)) r ∧
        (made edits).transferTime a b x y true = r.transfer) ∨
      ((∀ r ∈ rulesAdded edits a b, r.isMatch x y = false) ∧
        (stationSet edits a ≠ a ∨ stationSet edits b ≠ b) ∧
        ∃ r, Foremost ((rulesAdded edits (stationSet edits a) (stationSet edits b)).filter
          (·.isMatch x y)) r ∧ (made edits).transferTime a b x y true = r.transfer) ∨
      ((∀ r ∈ rulesAdded edits a b, r.isMatch x y = false) ∧
        (stationSet edits a = a ∧ stationSet edits b = b ∨
          ∀ r ∈ rulesAdded edits (stationSet edits a) (stationSet edits b),
            r.isMatch x y = false) ∧
        (made edits).transferTime a b x y true = .unknown)) ∧
    (made edits).transferTime b a y x false = (made edits).transferTime a b x y true ∧
    ∀ c d q r, q ∈ rulesAdded edits c d → q.isMatch x y = true → q.Outranks r →
      best? (((made edits).rulesFor c d).filter (·.isMatch x y)) ≠ some r := by
  refine ⟨?_, rfl, fun c d q r hq hmatch houtranks hbest => ?_⟩
  · have h := (made edits).travel_cases a b x y
    unfold matching at h
    simp only [rulesFor_made, parentOf_made, List.filter_eq_nil_iff, Bool.not_eq_true] at h
    exact h
  · rw [rulesFor_made] at hbest
    have hle := (best?_eq_some.mp hbest).specificity_le (List.mem_filter.mpr ⟨hq, hmatch⟩)
    exact absurd houtranks.specificity_lt (Nat.not_lt_of_le hle)

/-- A tram on its line. -/
def lastTram : Trip := ⟨⟨"last tram", by decide⟩, ⟨"tram line", by decide⟩⟩

/-- Another tram on the same line. -/
def firstTram : Trip := ⟨⟨"first tram", by decide⟩, lastTram.route⟩

/-- A bus on its line. -/
def lastBus : Trip := ⟨⟨"last bus", by decide⟩, ⟨"bus line", by decide⟩⟩

/-- A bus on another line. -/
def nightBus : Trip := ⟨⟨"night bus", by decide⟩, ⟨"night line", by decide⟩⟩

/-- The stop of the trams. -/
def tramStop : StopId := ⟨"tram stop", by decide⟩

/-- The stop of the buses. -/
def busStop : StopId := ⟨"bus stop", by decide⟩

/-- A rule for every change. -/
def noChange : TransferRule := ⟨none, none, none, none, .forbidden⟩

/-- At a crossing the buses of a line wait for the last tram, two minutes are enough after the other
trams of its line, and all other changes are forbidden. -/
def crossing : List Edit :=
  [.add tramStop busStop ⟨none, some lastBus.route, some lastTram.id, none, .timed⟩,
    .add tramStop busStop ⟨some lastTram.route, some lastBus.route, none, none, .minimum 120⟩,
    .add tramStop busStop noChange]

/-- The rule for the last tram counts, although the others were added after it. -/
theorem crossing_last_tram :
    best? (((made crossing).rulesFor tramStop busStop).filter (·.isMatch lastTram lastBus)) ≠
      some noChange ∧
    (made crossing).transferTime tramStop busStop lastTram lastBus true = .timed ∧
    (made crossing).transferTime tramStop busStop firstTram lastBus true = .minimum 120 ∧
    (made crossing).transferTime tramStop busStop lastTram nightBus true = .forbidden ∧
    (made crossing).transferTime busStop tramStop lastBus lastTram false = .timed := by
  obtain ⟨-, hbackward, hnever⟩ := transferTime_made crossing tramStop busStop lastTram lastBus
  have htimed : (made crossing).transferTime tramStop busStop lastTram lastBus true = .timed := by
    decide
  refine ⟨hnever _ _ ⟨none, some lastBus.route, some lastTram.id, none, .timed⟩ _ ?_ ?_ ?_,
    htimed, by decide, by decide, hbackward.trans htimed⟩
  · decide
  · decide
  · exact ⟨by decide, by decide, .inl (by decide)⟩

end TransferTable

end JourneyPlanner
