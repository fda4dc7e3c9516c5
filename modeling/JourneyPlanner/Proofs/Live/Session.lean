import Mathlib.Data.List.Nodup
import JourneyPlanner.Live.Session

/-!
# Sessions in order

However callers and writer interleave, the jobs accepted are those handled, then the one in hand,
then those in the queue, and the published value is what the handled ones made of the first
(`Session.Orderly`). A call that hears that its job is handled is right, and none hears that its
job was dropped. One lemma for each kind of change keeps this, and a run is a series of changes.
-/

namespace JourneyPlanner.Writer

variable {α : Type}

/-- What jobs make of a value, in order; one that fails changes nothing. -/
def applied (value : α) (jobs : List (Nat × Job α)) : α :=
  jobs.foldl (fun value x => (x.2 value).getD value) value

theorem applied_append (value : α) (jobs jobs' : List (Nat × Job α)) :
    applied value (jobs ++ jobs') = applied (applied value jobs) jobs' := List.foldl_append

/-- The job of a message, with its call. -/
def Parcel.job? (p : Parcel α) : Option (Nat × Job α) :=
  match p.message with
  | .job job => some (p.call, job)
  | .stop => none

/-- The job in hand that is not handled yet, with its call. -/
def Hand.held : Hand α → List (Nat × Job α)
  | .taken i job | .copied i job _ | .ran i job _ => [(i, job)]
  | .idle | .done _ | .stopped => []

namespace Session

variable {s s' : Session α} {i : Nat} {request : Request α}

/-! ## What an action does -/

/-- Everything that an action can do. -/
inductive Moves (s : Session α) : Session α → Prop
  | call (request : Request α) : Moves s { s with calls := s.calls ++ [⟨request, .sending⟩] }
  | reserve {i : Nat} {request : Request α} (call_eq : s.calls[i]? = some ⟨request, .sending⟩)
      (room : s.hasPlace = true) : Moves s (s.setStage i .placed)
  | refuse {i : Nat} {request : Request α} (call_eq : s.calls[i]? = some ⟨request, .sending⟩)
      (closed : s.isOpen = false) : Moves s (s.setStage i request.refused)
  | send {i : Nat} {request : Request α} (call_eq : s.calls[i]? = some ⟨request, .placed⟩) :
      Moves s (s.push i request)
  | hear {i : Nat} {request : Request α} {reply : Except WriterError Unit}
      (call_eq : s.calls[i]? = some ⟨request, .waiting⟩)
      (reply_eq : s.reply? i request = some reply) :
      Moves s (s.setStage i (.answered reply))
  | giveUp {i : Nat} {request : Request α} {stage : Stage}
      (call_eq : s.calls[i]? = some ⟨request, stage⟩) (pending : stage.isPending = true) :
      Moves s (s.setStage i .givenUp)
  | takeJob {i : Nat} {job : Job α} {queue : List (Parcel α)} (idle : s.hand = .idle)
      (queue_eq : s.queue = ⟨i, .job job⟩ :: queue) :
      Moves s { s with queue := queue, hand := .taken i job }
  | takeStop {i : Nat} {queue : List (Parcel α)} (idle : s.hand = .idle)
      (queue_eq : s.queue = ⟨i, .stop⟩ :: queue) :
      Moves s { s with queue := queue, isOpen := false }
  | copy {i : Nat} {job : Job α} (hand_eq : s.hand = .taken i job) :
      Moves s { s with hand := .copied i job s.published }
  | run {i : Nat} {job : Job α} {copy : α} (hand_eq : s.hand = .copied i job copy) :
      Moves s { s with hand := .ran i job (job copy) }
  | publish {i : Nat} {job : Job α} {result : Option α} (hand_eq : s.hand = .ran i job result) :
      Moves s { s with
        published := result.getD s.published
        handled := s.handled ++ [(i, job)]
        hand := .done i }
  | tell {i : Nat} (hand_eq : s.hand = .done i) :
      Moves s { s with told := s.told ++ [i], hand := .idle }
  | finish (idle : s.hand = .idle) (queue_eq : s.queue = []) (closed : s.isOpen = false)
      (no_places : s.places = 0) : Moves s { s with hand := .stopped }

theorem moves_of_act? {action : Action α} (h : s.act? action = some s') : s.Moves s' := by
  cases action with
  | call request => exact Option.some.inj h ▸ .call request
  | reserve i =>
    simp only [act?] at h
    split at h
    · rename_i hc
      split_ifs at h with hroom
      exact Option.some.inj h ▸ .reserve hc hroom
    · cases h
  | refuse i =>
    simp only [act?] at h
    split at h
    · rename_i hc
      split_ifs at h with hopen
      exact Option.some.inj h ▸ .refuse hc (Bool.eq_false_iff.mpr hopen)
    · cases h
  | send i =>
    simp only [act?] at h
    split at h
    · rename_i hc
      exact Option.some.inj h ▸ .send hc
    · cases h
  | hear i =>
    simp only [act?] at h
    split at h
    · rename_i hc
      obtain ⟨reply, hreply, rfl⟩ := Option.map_eq_some_iff.mp h
      exact .hear hc hreply
    · cases h
  | giveUp i =>
    simp only [act?] at h
    split at h
    · rename_i hc
      split_ifs at h with hpending
      exact Option.some.inj h ▸ .giveUp hc hpending
    · cases h
  | take =>
    simp only [act?] at h
    split at h
    · rename_i hidle hqueue
      exact Option.some.inj h ▸ .takeJob hidle hqueue
    · rename_i hidle hqueue
      exact Option.some.inj h ▸ .takeStop hidle hqueue
    · cases h
  | copy =>
    simp only [act?] at h
    split at h
    · rename_i hhand
      exact Option.some.inj h ▸ .copy hhand
    · cases h
  | run =>
    simp only [act?] at h
    split at h
    · rename_i hhand
      exact Option.some.inj h ▸ .run hhand
    · cases h
  | publish =>
    simp only [act?] at h
    split at h
    · rename_i hhand
      exact Option.some.inj h ▸ .publish hhand
    · cases h
  | tell =>
    simp only [act?] at h
    split at h
    · rename_i hhand
      exact Option.some.inj h ▸ .tell hhand
    · cases h
  | finish =>
    simp only [act?] at h
    split at h
    · rename_i hidle hqueue
      split_ifs at h with hlast
      rw [Bool.or_eq_true, not_or, Bool.not_eq_true, bne_iff_ne, not_not] at hlast
      exact Option.some.inj h ▸ .finish hidle hqueue hlast.1 hlast.2
    · cases h

theorem run?_induction {I : Session α → Prop} (keep : ∀ s s', Session.Moves s s' → I s → I s') :
    ∀ {actions : List (Action α)} {s s' : Session α}, s.run? actions = some s' → I s → I s' := by
  intro actions
  induction actions with
  | nil =>
    intro s s' h hs
    exact Option.some.inj h ▸ hs
  | cons action rest ih =>
    intro s s' h hs
    obtain ⟨s₁, h₁, h⟩ := Option.bind_eq_some_iff.mp h
    exact ih h (keep s s₁ (moves_of_act? h₁) hs)

/-! ## Stages -/

theorem getElem?_setStage (s : Session α) (i j : Nat) (stage : Stage) :
    (s.setStage i stage).calls[j]? =
      if i = j then s.calls[j]?.map fun c => { c with stage := stage } else s.calls[j]? := by
  unfold setStage
  rw [List.getElem?_modify]
  split_ifs
  · rfl
  · exact Option.map_id'

/-- The job of a call. -/
def jobOf? (s : Session α) (i : Nat) : Option (Job α) := s.calls[i]?.bind (·.request.job?)

theorem jobOf?_setStage (s : Session α) (i j : Nat) (stage : Stage) :
    (s.setStage i stage).jobOf? j = s.jobOf? j := by
  unfold jobOf?
  rw [getElem?_setStage]
  split_ifs
  · cases s.calls[j]? <;> rfl
  · rfl

theorem cases_setStage {j : Nat} {c c' : Call α} {stage : Stage} (hc : s.calls[i]? = some c)
    (h : (s.setStage i stage).calls[j]? = some c') :
    i = j ∧ c' = { c with stage := stage } ∨ i ≠ j ∧ s.calls[j]? = some c' := by
  rw [getElem?_setStage] at h
  split_ifs at h with hij
  · subst hij
    rw [hc, Option.map_some, Option.some.injEq] at h
    exact .inl ⟨rfl, h.symm⟩
  · exact .inr ⟨hij, h⟩

theorem Moves.answered (h : s.Moves s') {c : Call α} {reply : Except WriterError Unit}
    (hc : s.calls[i]? = some c) (hr : c.stage = .answered reply) : s'.calls[i]? = some c := by
  -- an action that changes the stage of a call finds it at another stage
  have other : ∀ {j : Nat} {c' : Call α} {stage : Stage}, s.calls[j]? = some c' →
      (∀ reply, c'.stage ≠ .answered reply) → (s.setStage j stage).calls[i]? = some c := by
    intro j c' stage hc' hstage
    rw [getElem?_setStage, if_neg, hc]
    rintro rfl
    rw [hc] at hc'
    exact hstage reply (Option.some.inj hc' ▸ hr)
  cases h with
  | call request =>
    rw [List.getElem?_append_left (List.getElem?_eq_some_iff.mp hc).1, hc]
  | reserve hc' => exact other hc' (by simp)
  | refuse hc' => exact other hc' (by simp)
  | send hc' => exact other hc' (by simp)
  | hear hc' => exact other hc' (by simp)
  | giveUp hc' hpending =>
    refine other hc' ?_
    rintro reply rfl
    cases hpending
  | takeJob | takeStop | copy | run | publish | tell | finish => exact hc

/-! ## Places -/

theorem countP_modify (p : Call α → Bool) (f : Call α → Call α) {c : Call α} :
    ∀ {calls : List (Call α)} {i : Nat}, calls[i]? = some c →
      (calls.modify i f).countP p + (p c).toNat = calls.countP p + (p (f c)).toNat
  | first :: rest, 0, hc => by
    obtain rfl := Option.some.inj hc
    rw [List.modify_zero_cons, List.countP_cons, List.countP_cons]
    cases p first <;> cases p (f first) <;> simp
  | first :: rest, i + 1, hc => by
    have ih : (rest.modify i f).countP p + (p c).toNat = rest.countP p + (p (f c)).toNat :=
      countP_modify p f hc
    rw [List.modify_succ_cons, List.countP_cons, List.countP_cons]
    omega

theorem places_setStage {c : Call α} (hc : s.calls[i]? = some c) (stage : Stage) :
    (s.setStage i stage).places + c.stage.isPlaced.toNat = s.places + stage.isPlaced.toNat :=
  countP_modify (·.stage.isPlaced) _ hc

theorem Moves.bounded (h : s.Moves s') (hs : s.queue.length + s.places ≤ capacity) :
    s'.queue.length + s'.places ≤ capacity := by
  -- a stage that holds no place does not take one
  have fewer : ∀ {i : Nat} {c : Call α} {stage : Stage}, s.calls[i]? = some c →
      stage.isPlaced = false → (s.setStage i stage).places + c.stage.isPlaced.toNat = s.places :=
    fun hc hstage => by
      rw [places_setStage hc, hstage]
      rfl
  cases h with
  | call request =>
    unfold places
    rw [List.countP_append]
    exact hs
  | reserve hc hroom =>
    have hplaces := places_setStage hc .placed
    rw [hasPlace, Bool.and_eq_true, decide_eq_true_eq] at hroom
    change (s.setStage _ .placed).places + 0 = s.places + 1 at hplaces
    show s.queue.length + (s.setStage _ .placed).places ≤ capacity
    omega
  | @refuse i request hc _ =>
    have hplaces := fewer hc (show request.refused.isPlaced = false by cases request <;> rfl)
    show s.queue.length + (s.setStage i request.refused).places ≤ capacity
    omega
  | @send i request hc =>
    have hplaces : (s.setStage i request.sent).places + 1 = s.places :=
      fewer hc (by cases request <;> rfl)
    show (s.queue ++ [_]).length + (s.setStage i request.sent).places ≤ capacity
    rw [List.length_append, List.length_singleton]
    omega
  | @hear i request reply hc _ =>
    have hplaces : (s.setStage i (.answered reply)).places + 0 = s.places := fewer hc rfl
    show s.queue.length + (s.setStage i (.answered reply)).places ≤ capacity
    omega
  | @giveUp i request stage hc _ =>
    have hplaces := fewer hc (show Stage.givenUp.isPlaced = false from rfl)
    show s.queue.length + (s.setStage i .givenUp).places ≤ capacity
    omega
  | takeJob _ hqueue | takeStop _ hqueue =>
    rw [hqueue, List.length_cons] at hs
    exact Nat.le_trans (Nat.add_le_add_right (Nat.le_succ _) _) hs
  | copy | run | publish | tell | finish => exact hs

/-! ## Order -/

/-- What holds of one call: its job is accepted when it has been sent, handled when it hears so, and
neither when there was no place for it. -/
structure CallOrderly (s : Session α) (i : Nat) (c : Call α) : Prop where
  unsent : c.stage = .sending ∨ c.stage = .placed ∨ c.stage = .answered (.error .closed) →
    ∀ job, (i, job) ∉ s.accepted
  sent : ∀ job, c.request.job? = some job → c.stage = .waiting ∨ c.stage = .answered (.ok ()) →
    (i, job) ∈ s.accepted
  heard : ∀ job, c.request = .executeAndWait job → c.stage = .answered (.ok ()) →
    (i, job) ∈ s.handled
  stopped : c.request = .shutDown → c.stage = .answered (.ok ()) → s.hand = .stopped
  not_dropped : c.stage ≠ .answered (.error .dropped)

/-- What holds of every session that starts with a value. -/
structure Orderly (initial : α) (s : Session α) : Prop where
  published_eq : s.published = applied initial s.handled
  accepted_eq : s.accepted = s.handled ++ s.hand.held ++ s.queue.filterMap Parcel.job?
  copy_eq : ∀ i job copy, s.hand = .copied i job copy → copy = s.published
  result_eq : ∀ i job result, s.hand = .ran i job result → result = job s.published
  once : (s.accepted.map (·.1)).Nodup
  own_job : ∀ x ∈ s.accepted, s.jobOf? x.1 = some x.2
  told_or_done : ∀ x ∈ s.handled, x.1 ∈ s.told ∨ s.hand = .done x.1
  told_handled : ∀ i ∈ s.told, i ∈ s.handled.map (·.1)
  done_handled : ∀ i, s.hand = .done i → i ∈ s.handled.map (·.1)
  calls : ∀ i c, s.calls[i]? = some c → s.CallOrderly i c
  closed : s.hand = .stopped → s.isOpen = false ∧ s.queue = [] ∧
    ∀ (i : Nat) (c : Call α), s.calls[i]? = some c → c.stage.isPlaced = false

variable {initial : α}

theorem CallOrderly.frame {c : Call α} (h : s.CallOrderly i c) (ha : s'.accepted = s.accepted)
    (hh : s.handled ⊆ s'.handled) (hs : s.hand = .stopped → s'.hand = .stopped) :
    s'.CallOrderly i c where
  unsent hc := ha ▸ h.unsent hc
  sent := ha ▸ h.sent
  heard job hr hc := hh (h.heard job hr hc)
  stopped hr hc := hs (h.stopped hr hc)
  not_dropped := h.not_dropped

theorem orderly_start (value : α) : (start value).Orderly value := by
  constructor <;> simp [start, applied, Hand.held]

/-- A call may go on when it keeps its own promises. -/
theorem Orderly.setStage (h : s.Orderly initial) {c : Call α} {stage : Stage}
    (hc : s.calls[i]? = some c) (hnew : s.CallOrderly i { c with stage := stage })
    (hplaced : s.hand = .stopped → stage.isPlaced = false) :
    (s.setStage i stage).Orderly initial where
  published_eq := h.published_eq
  accepted_eq := h.accepted_eq
  copy_eq := h.copy_eq
  result_eq := h.result_eq
  once := h.once
  own_job x hx := (jobOf?_setStage s i x.1 stage).trans (h.own_job x hx)
  told_or_done := h.told_or_done
  told_handled := h.told_handled
  done_handled := h.done_handled
  calls j c' hc' := by
    rcases cases_setStage hc hc' with ⟨rfl, rfl⟩ | ⟨-, hc'⟩
    · exact hnew.frame rfl (fun _ hx => hx) id
    · exact (h.calls j c' hc').frame rfl (fun _ hx => hx) id
  closed hs := by
    obtain ⟨hopen, hqueue, hplaces⟩ := h.closed hs
    refine ⟨hopen, hqueue, fun j c' hc' => ?_⟩
    rcases cases_setStage hc hc' with ⟨-, rfl⟩ | ⟨-, hc'⟩
    · exact hplaced hs
    · exact hplaces j c' hc'

theorem Orderly.call (h : s.Orderly initial) (request : Request α) :
    Orderly initial { s with calls := s.calls ++ [⟨request, .sending⟩] } where
  published_eq := h.published_eq
  accepted_eq := h.accepted_eq
  copy_eq := h.copy_eq
  result_eq := h.result_eq
  once := h.once
  own_job x hx := by
    obtain ⟨c, hc, hjob⟩ := Option.bind_eq_some_iff.mp (h.own_job x hx)
    unfold jobOf?
    rw [List.getElem?_append_left (List.getElem?_eq_some_iff.mp hc).1, hc]
    exact hjob
  told_or_done := h.told_or_done
  told_handled := h.told_handled
  done_handled := h.done_handled
  calls j c hc := by
    rw [List.getElem?_append] at hc
    split_ifs at hc with hj
    · exact (h.calls j c hc).frame rfl (fun _ hx => hx) id
    · -- the job of a new call is not accepted yet
      obtain rfl := List.mem_singleton.mp (List.mem_of_getElem? hc)
      have hfresh (job : Job α) : (j, job) ∉ s.accepted := fun hjob => by
        obtain ⟨c, hc, -⟩ := Option.bind_eq_some_iff.mp (h.own_job _ hjob)
        exact hj (List.getElem?_eq_some_iff.mp hc).1
      exact ⟨fun _ => hfresh, by simp, by simp, by simp, by simp⟩
  closed hs := by
    obtain ⟨hopen, hqueue, hplaces⟩ := h.closed hs
    refine ⟨hopen, hqueue, fun j c hc => ?_⟩
    rw [List.getElem?_append] at hc
    split_ifs at hc with hj
    · exact hplaces j c hc
    · obtain rfl := List.mem_singleton.mp (List.mem_of_getElem? hc)
      rfl

theorem fst_of_mem_accepted {x : Nat × Job α} (hx : x ∈ (request.job?.map (i, ·)).toList) :
    x.1 = i := by
  obtain ⟨job, -, rfl⟩ := Option.map_eq_some_iff.mp (Option.mem_toList.mp hx)
  rfl

theorem callOrderly_push (s : Session α) (i : Nat) (request : Request α) :
    (s.push i request).CallOrderly i ⟨request, request.sent⟩ where
  unsent := by cases request <;> simp [Request.sent]
  sent job hjob _ :=
    List.mem_append_right _ (Option.mem_toList.mpr (congrArg (Option.map (i, ·)) hjob))
  heard := by
    rintro job rfl hstage
    cases hstage
  stopped := by
    rintro rfl hstage
    cases hstage
  not_dropped := by cases request <;> simp [Request.sent]

theorem CallOrderly.push {j : Nat} {c : Call α} (h : s.CallOrderly j c) (hij : i ≠ j) :
    (s.push i request).CallOrderly j c where
  unsent hstage job hjob := by
    rcases List.mem_append.mp hjob with hjob | hjob
    · exact h.unsent hstage job hjob
    · exact hij (fst_of_mem_accepted hjob).symm
  sent job hjob hstage := List.mem_append_left _ (h.sent job hjob hstage)
  heard := h.heard
  stopped := h.stopped
  not_dropped := h.not_dropped

theorem Orderly.send (h : s.Orderly initial) (hc : s.calls[i]? = some ⟨request, .placed⟩) :
    (s.push i request).Orderly initial where
  published_eq := h.published_eq
  accepted_eq := by
    show s.accepted ++ (request.job?.map (i, ·)).toList = s.handled ++ s.hand.held ++
      (s.queue ++ [(⟨i, request.message⟩ : Parcel α)]).filterMap Parcel.job?
    rw [List.filterMap_append, h.accepted_eq, List.append_assoc]
    cases request <;> rfl
  copy_eq := h.copy_eq
  result_eq := h.result_eq
  once := by
    show ((s.accepted ++ (request.job?.map (i, ·)).toList).map (·.1)).Nodup
    rw [List.map_append, List.nodup_append]
    refine ⟨h.once, ?_, ?_⟩
    · cases request <;> simp [Request.job?]
    · intro j hj k hk
      obtain ⟨x, hx, rfl⟩ := List.mem_map.mp hj
      obtain ⟨y, hy, rfl⟩ := List.mem_map.mp hk
      rw [fst_of_mem_accepted hy]
      rintro rfl
      exact (h.calls x.1 _ hc).unsent (.inr (.inl rfl)) x.2 hx
  own_job x hx := by
    refine (jobOf?_setStage s i x.1 request.sent).trans ?_
    rcases List.mem_append.mp hx with hx | hx
    · exact h.own_job x hx
    · obtain ⟨job, hjob, rfl⟩ := Option.map_eq_some_iff.mp (Option.mem_toList.mp hx)
      unfold jobOf?
      rw [hc]
      exact hjob
  told_or_done := h.told_or_done
  told_handled := h.told_handled
  done_handled := h.done_handled
  calls j c hj := by
    rcases cases_setStage hc hj with ⟨rfl, rfl⟩ | ⟨hij, hj⟩
    · exact callOrderly_push s i request
    · exact (h.calls j c hj).push hij
  closed hs := by
    -- a writer that has stopped leaves no place to fill
    have := (h.closed hs).2.2 i _ hc
    cases this

/-! ## Replies -/

theorem Orderly.handled_of_told (h : s.Orderly initial) {job : Job α}
    (hjob : (i, job) ∈ s.accepted) (ht : i ∈ s.told) : (i, job) ∈ s.handled := by
  obtain ⟨x, hx, hxi⟩ := List.mem_map.mp (h.told_handled i ht)
  have hxa : x ∈ s.accepted := by
    rw [h.accepted_eq]
    exact List.mem_append_left _ (List.mem_append_left _ hx)
  -- each call is accepted once
  obtain rfl : x = (i, job) := List.inj_on_of_nodup_map h.once hxa hjob hxi
  exact hx

/-- A job accepted is still with the writer, unless its call was told. -/
theorem Orderly.told_or_holds (h : s.Orderly initial) {job : Job α}
    (hjob : (i, job) ∈ s.accepted) : i ∈ s.told ∨ s.holds i = true := by
  unfold holds
  rw [Bool.or_eq_true, beq_iff_eq]
  rw [h.accepted_eq, List.mem_append, List.mem_append] at hjob
  rcases hjob with (hjob | hjob) | hjob
  · rcases h.told_or_done _ hjob with ht | hdone
    · exact .inl ht
    · exact .inr (.inr (by rw [hdone]; rfl))
  · refine .inr (.inr ?_)
    cases hh : s.hand with
    | idle | done | stopped => rw [hh] at hjob; cases hjob
    | taken j job' | copied j job' copy | ran j job' result =>
      rw [hh] at hjob
      rw [(Prod.mk.inj (List.mem_singleton.mp hjob)).1]
      rfl
  · obtain ⟨⟨j, message⟩, hp, hj⟩ := List.mem_filterMap.mp hjob
    cases message with
    | stop => cases hj
    | job job' =>
      obtain ⟨rfl, -⟩ := Prod.mk.inj (Option.some.inj hj)
      exact .inr (.inl (List.any_eq_true.mpr ⟨_, hp, beq_self_eq_true _⟩))

/-- A waiting call hears that its job is handled, when it is, or that the writer has stopped, and
nothing else. -/
theorem Orderly.hear (h : s.Orderly initial) {reply : Except WriterError Unit}
    (hc : s.calls[i]? = some ⟨request, .waiting⟩) (hr : s.reply? i request = some reply) :
    (s.setStage i (.answered reply)).Orderly initial := by
  have hold := h.calls i _ hc
  have hjob (job : Job α) (hj : request.job? = some job) : (i, job) ∈ s.accepted :=
    hold.sent job hj (.inl rfl)
  have hreply : reply = .ok () ∧ (request = .shutDown → s.hand = .stopped) ∧
      ∀ job, request.job? = some job → (i, job) ∈ s.handled := by
    cases request with
    | shutDown =>
      simp only [reply?] at hr
      split at hr
      · rename_i hs
        exact ⟨(Option.some.inj hr).symm, fun _ => hs, fun _ hj => by cases hj⟩
      · cases hr
    | execute job | executeAndWait job =>
      have hacc := hjob job rfl
      simp only [reply?] at hr
      split_ifs at hr with ht hh
      · refine ⟨(Option.some.inj hr).symm, by simp, fun job' hj => ?_⟩
        obtain rfl := Option.some.inj hj
        exact h.handled_of_told hacc (List.contains_iff_mem.mp ht)
      · rcases h.told_or_holds hacc with ht' | hh'
        · exact absurd (List.contains_iff_mem.mpr ht') ht
        · exact absurd hh' hh
  obtain ⟨rfl, hstopped, hhandled⟩ := hreply
  refine h.setStage hc ⟨by simp, fun job hj _ => hjob job hj, ?_, fun hreq _ => hstopped hreq,
    by simp⟩ fun _ => rfl
  rintro job rfl -
  exact hhandled job rfl

/-! ## The writer -/

/-- The writer goes on with the same jobs, before it has handled the one in hand. -/
theorem Orderly.proceed (h : s.Orderly initial) {hand : Hand α} {queue : List (Parcel α)}
    (busy : ∀ i, s.hand ≠ .done i ∧ hand ≠ .done i) (running : s.hand ≠ .stopped)
    (jobs_eq : hand.held ++ queue.filterMap Parcel.job? =
      s.hand.held ++ s.queue.filterMap Parcel.job?)
    (copy_eq : ∀ i job copy, hand = .copied i job copy → copy = s.published)
    (result_eq : ∀ i job result, hand = .ran i job result → result = job s.published)
    (closed : hand = .stopped → s.isOpen = false ∧ queue = [] ∧ s.places = 0) :
    Orderly initial { s with queue := queue, hand := hand } where
  published_eq := h.published_eq
  accepted_eq := by
    show s.accepted = s.handled ++ hand.held ++ queue.filterMap Parcel.job?
    rw [h.accepted_eq, List.append_assoc, List.append_assoc, jobs_eq]
  copy_eq := copy_eq
  result_eq := result_eq
  once := h.once
  own_job := h.own_job
  told_or_done x hx := .inl ((h.told_or_done x hx).resolve_right (busy x.1).1)
  told_handled := h.told_handled
  done_handled i hi := absurd hi (busy i).2
  calls j c hc := (h.calls j c hc).frame rfl (fun _ hx => hx) fun hs => absurd hs running
  closed hs := by
    obtain ⟨hopen, hqueue, hplaces⟩ := closed hs
    exact ⟨hopen, hqueue, fun _ c hc =>
      Bool.eq_false_iff.mpr (List.countP_eq_zero.mp hplaces c (List.mem_of_getElem? hc))⟩

theorem Orderly.takeJob (h : s.Orderly initial) {job : Job α} {queue : List (Parcel α)}
    (idle : s.hand = .idle) (queue_eq : s.queue = ⟨i, .job job⟩ :: queue) :
    Orderly initial { s with queue := queue, hand := .taken i job } := by
  refine h.proceed (by simp [idle]) (by simp [idle]) ?_ (by simp) (by simp) (by simp)
  rw [idle, queue_eq]
  rfl

theorem Orderly.takeStop (h : s.Orderly initial) {queue : List (Parcel α)}
    (idle : s.hand = .idle) (queue_eq : s.queue = ⟨i, .stop⟩ :: queue) :
    Orderly initial { s with queue := queue, isOpen := false } where
  published_eq := h.published_eq
  accepted_eq := by
    rw [h.accepted_eq, queue_eq]
    rfl
  copy_eq := h.copy_eq
  result_eq := h.result_eq
  once := h.once
  own_job := h.own_job
  told_or_done := h.told_or_done
  told_handled := h.told_handled
  done_handled := h.done_handled
  calls j c hc := (h.calls j c hc).frame rfl (fun _ hx => hx) id
  closed := by simp [idle]

theorem Orderly.copy (h : s.Orderly initial) {job : Job α} (hand_eq : s.hand = .taken i job) :
    Orderly initial { s with hand := .copied i job s.published } := by
  refine h.proceed (by simp [hand_eq]) (by simp [hand_eq]) ?_ ?_ (by simp) (by simp)
  · rw [hand_eq]
    rfl
  · rintro _ _ _ ⟨⟩
    rfl

theorem Orderly.run (h : s.Orderly initial) {job : Job α} {copy : α}
    (hand_eq : s.hand = .copied i job copy) :
    Orderly initial { s with hand := .ran i job (job copy) } := by
  refine h.proceed (by simp [hand_eq]) (by simp [hand_eq]) ?_ (by simp) ?_ (by simp)
  · rw [hand_eq]
    rfl
  · -- nobody has published anything since the copy was made
    rintro _ _ _ ⟨⟩
    rw [h.copy_eq _ _ _ hand_eq]

theorem Orderly.finish (h : s.Orderly initial) (idle : s.hand = .idle) (queue_eq : s.queue = [])
    (closed : s.isOpen = false) (no_places : s.places = 0) :
    Orderly initial { s with hand := .stopped } := by
  refine h.proceed (by simp [idle]) (by simp [idle]) ?_ (by simp) (by simp) fun _ =>
    ⟨closed, queue_eq, no_places⟩
  rw [idle]
  rfl

theorem Orderly.publish (h : s.Orderly initial) {job : Job α} {result : Option α}
    (hand_eq : s.hand = .ran i job result) :
    Orderly initial { s with
      published := result.getD s.published
      handled := s.handled ++ [(i, job)]
      hand := .done i } where
  published_eq := by
    rw [applied_append, ← h.published_eq, h.result_eq _ _ _ hand_eq]
    rfl
  accepted_eq := by
    rw [h.accepted_eq, hand_eq]
    simp [Hand.held]
  copy_eq := by simp
  result_eq := by simp
  once := h.once
  own_job := h.own_job
  told_or_done x hx := by
    rcases List.mem_append.mp hx with hx | hx
    · exact .inl ((h.told_or_done x hx).resolve_right (by simp [hand_eq]))
    · obtain rfl := List.mem_singleton.mp hx
      exact .inr rfl
  told_handled j hj := by
    rw [List.map_append]
    exact List.mem_append_left _ (h.told_handled j hj)
  done_handled j hj := by
    obtain rfl := Hand.done.inj hj
    simp
  calls j c hc := (h.calls j c hc).frame rfl (List.subset_append_left _ _) (by simp [hand_eq])
  closed := by simp

theorem Orderly.tell (h : s.Orderly initial) (hand_eq : s.hand = .done i) :
    Orderly initial { s with told := s.told ++ [i], hand := .idle } where
  published_eq := h.published_eq
  accepted_eq := by
    rw [h.accepted_eq, hand_eq]
    rfl
  copy_eq := by simp
  result_eq := by simp
  once := h.once
  own_job := h.own_job
  told_or_done x hx := by
    refine .inl (List.mem_append.mpr ?_)
    rcases h.told_or_done x hx with ht | hd
    · exact .inl ht
    · rw [hand_eq] at hd
      exact .inr (List.mem_singleton.mpr (Hand.done.inj hd).symm)
  told_handled j hj := by
    rcases List.mem_append.mp hj with hj | hj
    · exact h.told_handled j hj
    · exact List.mem_singleton.mp hj ▸ h.done_handled i hand_eq
  done_handled := by simp
  calls j c hc := (h.calls j c hc).frame rfl (fun _ hx => hx) (by simp [hand_eq])
  closed := by simp

/-! ## Runs -/

theorem Orderly.moves (h : s.Orderly initial) (hm : s.Moves s') : s'.Orderly initial := by
  cases hm with
  | call request => exact h.call request
  | reserve hc hroom =>
    refine h.setStage hc ⟨fun _ => (h.calls _ _ hc).unsent (.inl rfl), by simp, by simp, by simp,
      by simp⟩ fun hs => ?_
    -- a writer that has stopped gives out no place
    rw [hasPlace, (h.closed hs).1] at hroom
    cases hroom
  | @refuse i request hc hclosed =>
    have hfresh := (h.calls _ _ hc).unsent (.inl rfl)
    refine h.setStage hc ?_ fun _ => by cases request <;> rfl
    cases request with
    | execute job | executeAndWait job =>
      exact ⟨fun _ => hfresh, by simp [Request.refused], by simp [Request.refused], by simp,
        by simp [Request.refused]⟩
    | shutDown =>
      exact ⟨fun _ => hfresh, by simp [Request.job?], by simp, by simp [Request.refused],
        by simp [Request.refused]⟩
  | send hc => exact h.send hc
  | hear hc hr => exact h.hear hc hr
  | giveUp hc _ =>
    exact h.setStage hc ⟨by simp, by simp, by simp, by simp, by simp⟩ fun _ => rfl
  | takeJob idle queue_eq => exact h.takeJob idle queue_eq
  | takeStop idle queue_eq => exact h.takeStop idle queue_eq
  | copy hand_eq => exact h.copy hand_eq
  | run hand_eq => exact h.run hand_eq
  | publish hand_eq => exact h.publish hand_eq
  | tell hand_eq => exact h.tell hand_eq
  | finish idle queue_eq closed no_places => exact h.finish idle queue_eq closed no_places

/-- However callers and writer interleave, a session is in order. -/
theorem orderly_run {actions : List (Action α)} (h : (start initial).run? actions = some s) :
    s.Orderly initial :=
  run?_induction (I := Orderly initial) (fun _ _ hm hs => hs.moves hm) h (orderly_start initial)

end Session

end JourneyPlanner.Writer
