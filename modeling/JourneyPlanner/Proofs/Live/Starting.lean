import Mathlib.Data.List.Basic
import JourneyPlanner.Live.Manager
import JourneyPlanner.Network.Builder
import JourneyPlanner.Time.ZoneRule

/-!
# Starting updaters

The error of a description is the first of its faults (`build_eq`), and a manager goes through a
list of descriptions up to the first one with a fault (`started_until_fault`). The updaters of the
descriptions before it are left running.
-/

namespace JourneyPlanner

/-! ## Faults of descriptions -/

/-- The first fault, and an answer when there is none. -/
def firstFault {α : Type} (faults : List UpdaterError) (answer : α) : Except UpdaterError α :=
  faults.head?.elim (.ok answer) .error

theorem firstFault_bind {α β : Type} {faults faults' : List UpdaterError} {a : α} {b : β}
    {f : α → Except UpdaterError β} (h : f a = firstFault faults' b) :
    (firstFault faults a >>= f) = firstFault (faults ++ faults') b := by
  cases faults with
  | nil => exact h
  | cons e es => rfl

theorem firstFault_of_head? {α : Type} {faults : List UpdaterError} {a : α} {e : UpdaterError}
    (h : faults.head? = some e) : firstFault faults a = .error e := by
  rw [firstFault, h]
  rfl

theorem firstFault_bind_pure {α β : Type} {faults : List UpdaterError} {a : α} {b : β} :
    (firstFault faults a >>= fun _ => pure b) = firstFault faults b := by
  cases faults <;> rfl

namespace UpdaterDescription

/-- The header, when both its parts are given. -/
def header? (d : UpdaterDescription) : Option Header :=
  match d.headerName, d.headerValue with
  | some name, some value => some ⟨name, value⟩
  | _, _ => none

/-- What keeps the header from being sent. -/
def headerFaults (d : UpdaterDescription) : List UpdaterError :=
  ((d.header?.bind Header.fault?).map UpdaterError.invalidHeader).toList

/-- A field that must be given and is not. -/
def missing (field : String) (content : Option String) : List UpdaterError :=
  if content.isNone then [.missingField field] else []

/-- What is wrong with the source and the fields that it needs. -/
def sourceFaults (d : UpdaterDescription) : List UpdaterError :=
  if d.source = some "openaq" then missing "url" d.url ++ d.headerFaults
  else if d.source = some "medio-ambiente-madrid" then
    missing "urlStationsPosition" d.positions ++
      (missing "urlStationsData" d.levels ++ d.headerFaults)
  else [.unknownSource (d.source.getD "")]

/-- All that is wrong with a description, in the order in which it is looked at. -/
def faults (d : UpdaterDescription) : List UpdaterError :=
  (if d.type = environmental then [] else [.unknownType d.type]) ++
    ((if d.headerName.isSome then missing "headerValue" d.headerValue else []) ++ d.sourceFaults)

/-- The updater that a description without faults gives. -/
def updater (d : UpdaterDescription) : Updater :=
  if d.source = some "openaq" then
    .air { name := d.name, source := airSource (d.url.getD "") none, frequency := d.frequency }
  else
    .noise
      { name := d.name, source := noiseSource (d.positions.getD "") (d.levels.getD "") none
        frequency := d.frequency }

theorem getD_eq_iff {content : Option String} {text : String} (h : text ≠ "") :
    content.getD "" = text ↔ content = some text := by
  rw [Option.getD_eq_iff]
  exact or_iff_left fun hnone => h hnone.2.symm

theorem needed_eq (field : String) (content : Option String) :
    needed field content = firstFault (missing field content) (content.getD "") := by
  cases content <;> rfl

theorem header_eq (d : UpdaterDescription) : d.header =
    firstFault (if d.headerName.isSome then missing "headerValue" d.headerValue else [])
      d.header? := by
  unfold header header?
  rcases d.headerName with _ | name <;> rcases d.headerValue with _ | value <;> rfl

theorem check_header? (d : UpdaterDescription) :
    Header.check d.header? = firstFault d.headerFaults () := by
  unfold headerFaults Header.check
  rcases d.header? with _ | header
  · rfl
  · simp only [Option.bind_some]
    rcases header.fault? with _ | text <;> rfl

/-- The error of a description is the first of its faults. -/
theorem build_eq (d : UpdaterDescription) : d.build = firstFault d.faults d.updater := by
  unfold build faults
  by_cases htype : d.type = environmental
  · rw [if_neg (not_not.mpr htype), if_pos htype, List.nil_append]
    show (d.header >>= _) = _
    rw [header_eq]
    refine firstFault_bind ?_
    unfold sourceFaults updater
    split
    · rename_i hair
      rw [getD_eq_iff (by decide)] at hair
      rw [if_pos hair, if_pos hair, needed_eq, check_header?]
      exact firstFault_bind firstFault_bind_pure
    · rename_i hnoise
      rw [getD_eq_iff (by decide)] at hnoise
      have hair : d.source ≠ some "openaq" := by rw [hnoise]; decide
      rw [if_neg hair, if_neg hair, if_pos hnoise, needed_eq, needed_eq, check_header?]
      exact firstFault_bind (firstFault_bind firstFault_bind_pure)
    · rename_i hair hnoise
      rw [getD_eq_iff (by decide)] at hair hnoise
      rw [if_neg hair, if_neg hnoise]
      rfl
  · rw [if_pos htype, if_neg htype]
    rfl

end UpdaterDescription

/-! ## Lists of descriptions -/

namespace Manager

open UpdaterDescription

variable {m m' : Manager} {d : UpdaterDescription} {ds before after : List UpdaterDescription}
  {e : UpdaterError}

/-- What a step comes to on a manager, and what it leaves. -/
def Step.on {α : Type} (step : Step α) (m : Manager) : Except UpdaterError α × Manager :=
  (step.run.run m).run

/-- The manager with one more updater for each description. -/
def started (m : Manager) (ds : List UpdaterDescription) : Manager :=
  { m with updaters := m.updaters ++ ds.map updater }

theorem started_nil (m : Manager) : m.started [] = m := by
  unfold started
  rw [List.map_nil, List.append_nil]

theorem started_started (m : Manager) (ds ds' : List UpdaterDescription) :
    (m.started ds).started ds' = m.started (ds ++ ds') := by
  unfold started
  rw [List.map_append, List.append_assoc]

theorem eq_nil_of_started_eq (h : m.started ds = m) : ds = [] := by
  have hupdaters : m.updaters ++ ds.map updater = m.updaters := congrArg updaters h
  exact List.map_eq_nil_iff.mp (List.append_right_eq_self.mp hupdaters)

theorem startUpdater_on (d : UpdaterDescription) (m : Manager) : (startUpdater d).on m =
    (firstFault d.faults (), if d.faults = [] then m.started [d] else m) := by
  have hon : (startUpdater d).on m = match d.build with
      | .ok u => (.ok (), { m with updaters := m.updaters ++ [u] })
      | .error e => (.error e, m) := by
    unfold startUpdater
    cases d.build <;> rfl
  rw [hon, build_eq]
  -- Without faults the updater built is that of the description.
  cases d.faults <;> rfl

theorem startUpdaters_cons (d : UpdaterDescription) (ds : List UpdaterDescription) (m : Manager) :
    (startUpdaters (d :: ds)).on m = if d.faults = [] then (startUpdaters ds).on (m.started [d])
      else (firstFault d.faults (), m) := by
  have hcons : (startUpdaters (d :: ds)).on m = match (startUpdater d).on m with
      | (.ok _, m') => (startUpdaters ds).on m'
      | (.error e, m') => (.error e, m') := by
    show ((startUpdater d >>= fun _ => startUpdaters ds).run.run m).run = _
    rw [ExceptT.run_bind, StateT.run_bind]
    unfold Step.on
    rcases (startUpdater d).run.run m with ⟨_ | _, m'⟩ <;> rfl
  rw [hcons, startUpdater_on]
  cases d.faults <;> rfl

theorem startUpdaters_of_faultless (h : ∀ d ∈ ds, d.faults = []) :
    (startUpdaters ds).on m = (.ok (), m.started ds) := by
  induction ds generalizing m with
  | nil => rw [started_nil]; rfl
  | cons d ds ih =>
    rw [startUpdaters_cons, if_pos (h d List.mem_cons_self),
      ih fun d' hd' => h d' (List.mem_cons_of_mem d hd'), started_started]
    rfl

/-- The first fault ends the start, and what is started before stays. -/
theorem startUpdaters_of_fault (hbefore : ∀ b ∈ before, b.faults = [])
    (hd : d.faults.head? = some e) :
    (startUpdaters (before ++ d :: after)).on m = (.error e, m.started before) := by
  induction before generalizing m with
  | nil =>
    have hne : d.faults ≠ [] := by
      intro hnil
      rw [hnil] at hd
      cases hd
    rw [List.nil_append, startUpdaters_cons, if_neg hne, firstFault_of_head? hd, started_nil]
  | cons b before ih =>
    rw [List.cons_append, startUpdaters_cons, if_pos (hbefore b List.mem_cons_self),
      ih fun b' hb' => hbefore b' (List.mem_cons_of_mem b hb'), started_started]
    rfl

/-- There is a first description with a fault unless there is none. -/
theorem faultless_or_exists_first (ds : List UpdaterDescription) : (∀ d ∈ ds, d.faults = []) ∨
    ∃ before d after e, ds = before ++ d :: after ∧ (∀ b ∈ before, b.faults = []) ∧
      d.faults.head? = some e := by
  rcases hfirst : ds.find? (fun d => d.faults ≠ []) with _ | d
  · rw [List.find?_eq_none] at hfirst
    exact .inl fun d hd => by simpa using hfirst d hd
  · obtain ⟨hd, before, after, hds, hbefore⟩ := List.find?_eq_some_iff_append.mp hfirst
    cases hfaults : d.faults with
    | nil => simp [hfaults] at hd
    | cons e es =>
      exact .inr ⟨before, d, after, e, hds, by simpa using hbefore, by rw [hfaults]; rfl⟩

theorem startUpdaters_eq_ok : (startUpdaters ds).on m = (.ok (), m') ↔
    (∀ d ∈ ds, d.faults = []) ∧ m' = m.started ds := by
  constructor
  · intro h
    obtain hok | ⟨before, d, after, e, rfl, hbefore, hd⟩ := faultless_or_exists_first ds
    · rw [startUpdaters_of_faultless hok] at h
      cases h
      exact ⟨hok, rfl⟩
    · rw [startUpdaters_of_fault hbefore hd] at h
      cases h
  · rintro ⟨hok, rfl⟩
    exact startUpdaters_of_faultless hok

theorem startUpdaters_eq_error : (startUpdaters ds).on m = (.error e, m') ↔
    ∃ before d after, ds = before ++ d :: after ∧ (∀ b ∈ before, b.faults = []) ∧
      d.faults.head? = some e ∧ m' = m.started before := by
  constructor
  · intro h
    obtain hok | ⟨before, d, after, e', rfl, hbefore, hd⟩ := faultless_or_exists_first ds
    · rw [startUpdaters_of_faultless hok] at h
      cases h
    · rw [startUpdaters_of_fault hbefore hd] at h
      cases h
      exact ⟨before, d, after, rfl, hbefore, hd, rfl⟩
  · rintro ⟨before, d, after, rfl, hbefore, hd, rfl⟩
    exact startUpdaters_of_fault hbefore hd

theorem startUpdaters_eq_error_self : (startUpdaters ds).on m = (.error e, m) ↔
    ∃ d after, ds = d :: after ∧ d.faults.head? = some e := by
  rw [startUpdaters_eq_error]
  constructor
  · rintro ⟨before, d, after, rfl, -, hd, hm⟩
    obtain rfl := eq_nil_of_started_eq hm.symm
    exact ⟨d, after, rfl, hd⟩
  · rintro ⟨d, after, rfl, hd⟩
    exact ⟨[], d, after, rfl, List.forall_mem_nil _, hd, (started_nil m).symm⟩

/-- The error of a description is the first of its faults. A list of descriptions starts exactly
when none has a fault, and then each adds its updater, in order. Otherwise the error is that of the
first description with a fault; those before it have added their updaters and no other has, so the
manager is as it was exactly when that description is the first of the list. -/
theorem started_until_fault (m : Manager) (ds : List UpdaterDescription) :
    (∀ d : UpdaterDescription, d.build = firstFault d.faults d.updater) ∧
    (∀ m', (startUpdaters ds).on m = (.ok (), m') ↔
      (∀ d ∈ ds, d.faults = []) ∧ m' = m.started ds) ∧
    (∀ e m', (startUpdaters ds).on m = (.error e, m') ↔
      ∃ before d after, ds = before ++ d :: after ∧ (∀ b ∈ before, b.faults = []) ∧
        d.faults.head? = some e ∧ m' = m.started before) ∧
    ∀ e, (startUpdaters ds).on m = (.error e, m) ↔
      ∃ d after, ds = d :: after ∧ d.faults.head? = some e :=
  ⟨build_eq, fun _ => startUpdaters_eq_ok, fun _ _ => startUpdaters_eq_error,
    fun _ => startUpdaters_eq_error_self⟩

/-- A source of air quality. -/
def airDescription : UpdaterDescription where
  type := "environmental-updater"
  frequency := 0
  source := some "openaq"
  url := some "latest.json"
  headerName := none
  headerValue := none
  positions := none
  levels := none

/-- The manager of a network without stops. -/
def quiet : Manager := .start (Draft.empty ⟨.ofRule "UTC" (.fixed 0), []⟩).toNetwork

/-- The refused list leaves an updater running. -/
theorem refused_list_starts_one : ∃ m',
    (startUpdaters [airDescription, { airDescription with type := "bike-rental" }]).on quiet =
      (.error (.unknownType "bike-rental"), m') ∧ m'.updaters.length = 1 := by
  refine ⟨_, ((started_until_fault _ _).2.2.1 _ _).mpr
    ⟨[airDescription], _, [], rfl, ?_, rfl, rfl⟩, rfl⟩
  rw [List.forall_mem_singleton]
  rfl

end Manager

end JourneyPlanner
