import JourneyPlanner.Proofs.Journey.Step
import JourneyPlanner.Time.ZoneRule

/-!
# The days of a search

The service days that a search looks at are near its reference time: where local time is less than
a day from UTC, the days begin at most a few days before the time (`Context.make_near`). Zones given
by rules are of that sort when their offsets are (`Zone.database_lawful`).
-/

namespace JourneyPlanner

namespace Zone

theorem lastChange_mem (initial : Int) (later : List (Int × Int)) (instant : Int) :
    lastChange initial later instant ∈ initial :: later.map Prod.snd := by
  unfold lastChange
  induction later generalizing initial with
  | nil => exact List.mem_cons_self
  | cons change rest ih =>
    rw [List.foldl_cons, List.map_cons]
    rcases List.mem_cons.mp (ih (if change.1 ≤ instant then change.2 else initial)) with h | h
    · rw [h]
      split_ifs
      · exact List.mem_cons_of_mem _ List.mem_cons_self
      · exact List.mem_cons_self
    · exact List.mem_cons_of_mem _ (List.mem_cons_of_mem _ h)

theorem Rule.aheadAt_mem (r : Rule) (instant : Int) : r.aheadAt instant ∈ r.offsets := by
  unfold Rule.aheadAt Rule.offsets
  cases r with
  | fixed ahead => exact List.mem_singleton.mpr rfl
  | changes initial later => exact lastChange_mem initial later instant
  | seasonal standard saving begins ends =>
    simp only
    split_ifs <;> simp

/-- Clocks show what they are said to show. -/
theorem Rule.earliest?_shows {r : Rule} {localSeconds instant : Int}
    (h : r.earliest? localSeconds = some instant) : instant + r.aheadAt instant = localSeconds := by
  have hmem := (List.mem_filter.mp (List.min?_eq_some_iff.mp h).1).2
  have := of_decide_eq_true hmem
  omega

theorem ofRule_lawful {name : String} {r : Rule}
    (h : ∀ ahead ∈ r.offsets, -86400 < ahead ∧ ahead < 86400) : (ofRule name r).Lawful :=
  ⟨fun instant => h _ (r.aheadAt_mem instant), fun _ _ => Rule.earliest?_shows⟩

theorem database_lawful {rules : List (String × Rule)} {name : String} {z : Zone}
    (h : ∀ x ∈ rules, ∀ ahead ∈ x.2.offsets, -86400 < ahead ∧ ahead < 86400)
    (hz : database rules name = some z) : z.Lawful := by
  obtain ⟨r, hr, rfl⟩ := Option.map_eq_some_iff.mp hz
  obtain ⟨_, _, hrules, -⟩ := List.lookup_eq_some_iff.mp hr
  exact ofRule_lawful (h (name, r) (hrules ▸ List.mem_append_right _ List.mem_cons_self))

end Zone

namespace ServiceCalendar

variable {c : ServiceCalendar} {day : ServiceDay} {d : Date} {instant : Int}

theorem serviceDay_bounds (hz : c.zone.Lawful) (h : c.serviceDay d = .ok day) :
    d.day * 86400 - 86400 ≤ day.midnight ∧ day.midnight ≤ d.day * 86400 + 86400 := by
  unfold serviceDay at h
  cases he : c.zone.earliest? (d.day * 86400 + 43200) with
  | none => rw [he] at h; cases h
  | some noon =>
    rw [he] at h
    cases h
    have := hz.shows _ _ he
    have := hz.near noon
    show _ ≤ noon - 43200 ∧ noon - 43200 ≤ _
    omega

theorem localDate_bounds (hz : c.zone.Lawful) (h : c.localDate instant = .ok d) :
    instant - 2 * 86400 ≤ d.day * 86400 ∧ d.day * 86400 ≤ instant + 86400 := by
  unfold localDate at h
  simp only at h
  split_ifs at h
  cases h
  obtain ⟨h₁, h₂⟩ := hz.near instant
  have := Int.fdiv_eq_ediv_of_nonneg (instant + c.zone.aheadAt instant)
    (show (0 : Int) ≤ 86400 by decide)
  show _ ≤ (instant + c.zone.aheadAt instant).fdiv 86400 * 86400 ∧
    (instant + c.zone.aheadAt instant).fdiv 86400 * 86400 ≤ _
  rw [this]
  omega

/-- The days that a search looks at begin within five days of its time. -/
theorem serviceDays_bounds (hz : c.zone.Lawful) {days : ServiceDays}
    (h : c.serviceDays instant = .ok days) (hday : day ∈ days.toList) :
    instant - 5 * 86400 ≤ day.midnight ∧ day.midnight ≤ instant + 5 * 86400 := by
  unfold serviceDays at h
  obtain ⟨today, htoday, h⟩ := bind_eq_ok.mp h
  have ht := localDate_bounds hz htoday
  cases hp : today.previous? with
  | none => rw [hp] at h; cases h
  | some yesterday =>
    cases hx : today.next? with
    | none => rw [hp, hx] at h; cases h
    | some tomorrow =>
      rw [hp, hx] at h
      obtain ⟨first, h₁, h⟩ := bind_eq_ok.mp h
      obtain ⟨second, h₂, h⟩ := bind_eq_ok.mp h
      obtain ⟨third, h₃, h⟩ := bind_eq_ok.mp h
      cases h
      unfold Date.previous? at hp
      unfold Date.next? at hx
      split_ifs at hp hx
      cases hp
      cases hx
      simp only [ServiceDays.toList, List.mem_cons, List.not_mem_nil, or_false] at hday
      rcases hday with rfl | rfl | rfl
      · have := serviceDay_bounds hz h₁
        simp only at this
        omega
      · have := serviceDay_bounds hz h₂
        omega
      · have := serviceDay_bounds hz h₃
        simp only at this
        omega

end ServiceCalendar

namespace Context

variable {k : Integers} {n : Network} {r : Request} {time : Int} {c : Context}

theorem make_eq_ok : make k n r time = .ok c ↔
    ∃ days, n.calendar.serviceDays time = .ok days ∧ c = ⟨k, n, r, days⟩ := by
  unfold make
  cases n.calendar.serviceDays time with
  | error e => exact ⟨nofun, fun ⟨_, h, _⟩ => nomatch h⟩
  | ok days =>
    constructor
    · intro h
      exact ⟨days, rfl, (Except.ok.inj h).symm⟩
    · rintro ⟨_, h, rfl⟩
      cases h
      rfl

theorem make_near (hz : n.calendar.zone.Lawful) (h : make k n r time = .ok c)
    {day : ServiceDay} (hday : day ∈ c.days.toList) :
    time - 5 * 86400 ≤ day.midnight ∧ day.midnight ≤ time + 5 * 86400 := by
  obtain ⟨days, hdays, rfl⟩ := make_eq_ok.mp h
  exact ServiceCalendar.serviceDays_bounds hz hdays hday

end Context

end JourneyPlanner
