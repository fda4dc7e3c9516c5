import JourneyPlanner.Proofs.Live.Session

/-!
# One request after the other

The writer that takes one event after the other is a special case of a session: what it makes of
events, some actions make of a session at rest. So a job submitted, a job submitted and waited for
and a wish to stop come to what the calls of a session come to.
-/

namespace JourneyPlanner.Writer

variable {α : Type}

namespace Session

variable {initial : α} {s s' : Session α} {i : Nat}

/-! ## Actions one after the other -/

/-- The session with one call more. -/
def withCall (s : Session α) (request : Request α) (stage : Stage) : Session α :=
  { s with calls := s.calls ++ [⟨request, stage⟩] }

theorem getElem?_withCall (s : Session α) (request : Request α) (stage : Stage) :
    (s.withCall request stage).calls[s.calls.length]? = some ⟨request, stage⟩ :=
  List.getElem?_concat_length

theorem setStage_withCall (s : Session α) (request : Request α) (stage stage' : Stage) :
    (s.withCall request stage).setStage s.calls.length stage' = s.withCall request stage' := by
  have hmodify (f : Call α → Call α) (c : Call α) : ∀ calls : List (Call α),
      (calls ++ [c]).modify calls.length f = calls ++ [f c] := by
    intro calls
    induction calls with
    | nil => rfl
    | cons first rest ih =>
      rw [List.cons_append, List.length_cons, List.modify_succ_cons, ih, List.cons_append]
  unfold setStage withCall
  rw [hmodify]

theorem places_withCall (s : Session α) (request : Request α) (stage : Stage) :
    (s.withCall request stage).places = s.places + stage.isPlaced.toNat := by
  show (s.calls ++ [_]).countP _ = _
  rw [List.countP_append, List.countP_singleton]
  cases stage <;> rfl

theorem run?_append (actions actions' : List (Action α)) :
    s.run? (actions ++ actions') = (s.run? actions).bind (·.run? actions') := List.foldlM_append

theorem run?_send (hroom : s.hasPlace = true) (request : Request α) :
    s.run? [.call request, .reserve s.calls.length, .send s.calls.length] =
      some ((s.withCall request .placed).push s.calls.length request) := by
  have hreserve : (s.withCall request .sending).act? (.reserve s.calls.length) =
      some (s.withCall request .placed) := by
    have hplace : (s.withCall request .sending).hasPlace = s.hasPlace := by
      unfold hasPlace
      rw [places_withCall]
      rfl
    simp only [act?, getElem?_withCall]
    rw [if_pos (hplace.trans hroom), setStage_withCall]
  have hsend : (s.withCall request .placed).act? (.send s.calls.length) =
      some ((s.withCall request .placed).push s.calls.length request) := by
    simp only [act?, getElem?_withCall]
  show ((s.withCall request .sending).act? _).bind _ = _
  rw [hreserve, Option.bind_some]
  show ((s.withCall request .placed).act? _).bind _ = _
  rw [hsend]
  rfl

/-- No job is in hand, and no place waits to be filled. -/
structure AtRest (s : Session α) : Prop where
  idle : s.hand = .idle
  no_places : s.places = 0

theorem AtRest.hasPlace_eq (hs : s.AtRest) : s.hasPlace = s.writer.hasRoom := by
  unfold hasPlace Writer.hasRoom writer
  rw [hs.no_places, List.length_map, Nat.add_zero]

/-- Actions lead from one session to another, which has the calls of the first as they were. -/
def LeadsTo (s s' : Session α) : Prop :=
  (∃ actions, s.run? actions = some s') ∧
    ∀ (i : Nat) c, s.calls[i]? = some c → s'.calls[i]? = some c

theorem LeadsTo.refl (s : Session α) : s.LeadsTo s := ⟨⟨[], rfl⟩, fun _ _ hc => hc⟩

theorem LeadsTo.trans {s'' : Session α} (h : s.LeadsTo s') (h' : s'.LeadsTo s'') :
    s.LeadsTo s'' := by
  obtain ⟨⟨actions, hrun⟩, hcalls⟩ := h
  obtain ⟨⟨actions', hrun'⟩, hcalls'⟩ := h'
  refine ⟨⟨actions ++ actions', ?_⟩, fun i c hc => hcalls' i c (hcalls i c hc)⟩
  rw [run?_append, hrun]
  exact hrun'

theorem LeadsTo.length_le (h : s.LeadsTo s') : s.calls.length ≤ s'.calls.length := by
  by_contra hlt
  have hc := h.2 _ _ (List.getElem?_eq_getElem (Nat.lt_of_not_le hlt))
  exact Nat.lt_irrefl _ (List.getElem?_eq_some_iff.mp hc).1

theorem LeadsTo.answer (h : s.LeadsTo s') {action : Action α} {stage : Stage}
    (hi : s.calls.length ≤ i) (hact : s'.act? action = some (s'.setStage i stage)) :
    s.LeadsTo (s'.setStage i stage) := by
  obtain ⟨⟨actions, hrun⟩, hcalls⟩ := h
  refine ⟨⟨actions ++ [action], ?_⟩, fun j c hc => ?_⟩
  · rw [run?_append, hrun]
    show (s'.act? action).bind _ = _
    rw [hact]
    rfl
  · have hj := (List.getElem?_eq_some_iff.mp hc).1
    rw [getElem?_setStage, if_neg (by omega), hcalls j c hc]

theorem LeadsTo.orderly (h : s.LeadsTo s') (hs : s.Orderly initial) : s'.Orderly initial := by
  obtain ⟨⟨actions, hrun⟩, -⟩ := h
  exact run?_induction (I := Orderly initial) (fun _ _ hm hs => hs.moves hm) hrun hs

theorem LeadsTo.bounded (h : s.LeadsTo s') (hs : s.queue.length + s.places ≤ capacity) :
    s'.queue.length + s'.places ≤ capacity := by
  obtain ⟨⟨actions, hrun⟩, -⟩ := h
  exact run?_induction (I := fun s : Session α => s.queue.length + s.places ≤ capacity)
    (fun _ _ hm hs => hm.bounded hs) hrun hs

theorem AtRest.send (hs : s.AtRest) (hroom : s.writer.hasRoom = true) (request : Request α) :
    ∃ s', s.LeadsTo s' ∧ s'.AtRest ∧ s'.writer = { s.writer with
        queue := s.writer.queue ++ [request.message]
        accepted := s.writer.accepted + request.job?.toList.length } ∧
      s'.calls = s.calls ++ [⟨request, request.sent⟩] := by
  have hcalls : ((s.withCall request .placed).push s.calls.length request).calls =
      s.calls ++ [⟨request, request.sent⟩] :=
    congrArg Session.calls (setStage_withCall s request .placed request.sent)
  refine ⟨_, ⟨⟨_, run?_send (hs.hasPlace_eq.trans hroom) request⟩, ?_⟩, ⟨hs.idle, ?_⟩, ?_, hcalls⟩
  · intro i c hc
    rw [hcalls, List.getElem?_append_left (List.getElem?_eq_some_iff.mp hc).1, hc]
  · unfold places
    rw [hcalls, List.countP_append]
    show s.places + _ = 0
    rw [hs.no_places]
    cases request <;> rfl
  · cases request <;>
      simp [writer, Session.push, setStage, withCall, Request.job?, Request.message]

/-- What one event makes of the writer, some actions make of a session at rest. -/
theorem AtRest.exists_step (hs : s.AtRest) (event : Event α) :
    ∃ s', s.LeadsTo s' ∧ s'.AtRest ∧ s'.writer = s.writer.step event := by
  have hstay : ∃ s', s.LeadsTo s' ∧ s'.AtRest ∧ s'.writer = s.writer := ⟨s, .refl s, hs, rfl⟩
  cases event with
  | offer job =>
    unfold Writer.step
    split_ifs with hroom
    · obtain ⟨s', h, hs', hw, -⟩ := hs.send hroom (.execute job)
      exact ⟨s', h, hs', hw⟩
    · exact hstay
  | stop =>
    unfold Writer.step
    split_ifs with hroom
    · obtain ⟨s', h, hs', hw, -⟩ := hs.send hroom .shutDown
      exact ⟨s', h, hs', hw⟩
    · exact hstay
  | work =>
    unfold Writer.step Writer.work
    cases hq : s.queue with
    | nil =>
      have hw : s.writer.queue = [] := by simp [writer, hq]
      rw [hw]
      exact hstay
    | cons parcel queue =>
      obtain ⟨i, message⟩ := parcel
      have hw : s.writer.queue = message :: queue.map (·.message) := by simp [writer, hq]
      rw [hw]
      cases message with
      | stop =>
        refine ⟨{ s with queue := queue, isOpen := false }, ⟨⟨[.take], ?_⟩, fun _ _ hc => hc⟩,
          ⟨hs.idle, hs.no_places⟩, rfl⟩
        simp [run?, act?, hs.idle, hq]
      | job job =>
        refine ⟨{ s with
          published := (job s.published).getD s.published
          queue := queue
          handled := s.handled ++ [(i, job)]
          told := s.told ++ [i] },
          ⟨⟨[.take, .copy, .run, .publish, .tell], ?_⟩, fun _ _ hc => hc⟩,
          ⟨hs.idle, hs.no_places⟩, ?_⟩
        · simp [run?, act?, hs.idle, hq]
        · simp [writer, Writer.perform]

/-- What a series of events makes of the writer, some run of a session at rest makes of it. -/
theorem AtRest.exists_run (events : List (Event α)) :
    ∀ {s : Session α}, s.AtRest → ∃ s', s.LeadsTo s' ∧ s'.AtRest ∧
      s'.writer = s.writer.run events := by
  induction events with
  | nil => exact fun {s} hs => ⟨s, .refl s, hs, rfl⟩
  | cons event rest ih =>
    intro s hs
    obtain ⟨s₁, h₁, hs₁, hw₁⟩ := hs.exists_step event
    obtain ⟨s', h', hs', hw'⟩ := ih hs₁
    exact ⟨s', h₁.trans h', hs', by rw [hw', hw₁, run_cons]⟩

theorem AtRest.exists_drain (hs : s.AtRest) :
    ∃ s', s.LeadsTo s' ∧ s'.AtRest ∧ s'.writer = s.writer.drain := hs.exists_run _

/-! ## Requests one by one -/

theorem work_spec (w : Writer α) :
    w.work.queue = w.queue.tail ∧ w.work.accepted = w.accepted ∧
      (w.isOpen = false ∨ .stop ∈ w.queue → w.work.isOpen = false ∨ .stop ∈ w.work.queue) := by
  unfold Writer.work
  cases h : w.queue with
  | nil => exact ⟨h, rfl, fun hw => .inl (hw.resolve_right List.not_mem_nil)⟩
  | cons message queue =>
    cases message with
    | stop => exact ⟨rfl, rfl, fun _ => .inl rfl⟩
    | job job =>
      exact ⟨rfl, rfl, fun hw => hw.imp_right fun hw =>
        (List.mem_cons.mp hw).resolve_left (by simp)⟩

theorem drain_spec (w : Writer α) :
    w.drain.queue = [] ∧ w.drain.accepted = w.accepted ∧
      (w.isOpen = false ∨ .stop ∈ w.queue → w.drain.isOpen = false) := by
  have hrun : ∀ (queue : List (Message α)) (w : Writer α), w.queue = queue →
      (w.run (queue.map fun _ => .work)).queue = [] ∧
        (w.run (queue.map fun _ => .work)).accepted = w.accepted ∧
        (w.isOpen = false ∨ .stop ∈ w.queue →
          (w.run (queue.map fun _ => .work)).isOpen = false) := by
    intro queue
    induction queue with
    | nil =>
      exact fun w hw => ⟨hw, rfl, fun h => h.resolve_right (hw ▸ List.not_mem_nil)⟩
    | cons message rest ih =>
      intro w hw
      obtain ⟨hqueue, haccepted, hstop⟩ := work_spec w
      obtain ⟨hdone, hsame, hclosed⟩ := ih w.work (by rw [hqueue, hw, List.tail_cons])
      exact ⟨hdone, hsame.trans haccepted, fun h => hclosed (hstop h)⟩
  exact hrun _ w rfl

theorem AtRest.makeRoom (hs : s.AtRest) (hbound : s.queue.length ≤ capacity) :
    ∃ s', s.LeadsTo s' ∧ s'.AtRest ∧ s'.writer = s.writer.makeRoom ∧
      (s'.writer.isOpen = true → s'.writer.hasRoom = true) := by
  unfold Writer.makeRoom
  split_ifs with hfull
  · obtain ⟨s', h, hs', hw⟩ := hs.exists_step .work
    refine ⟨s', h, hs', hw, fun hopen => ?_⟩
    have hlen : s'.writer.queue.length < capacity := by
      rw [hw, Writer.step, (work_spec _).1, List.length_tail]
      show (s.queue.map _).length - 1 < capacity
      rw [List.length_map]
      have : 0 < capacity := by decide
      omega
    unfold Writer.hasRoom
    rw [hopen, decide_eq_true hlen]
    rfl
  · rw [Bool.and_eq_true, not_and, Bool.not_eq_true, Bool.not_eq_false'] at hfull
    exact ⟨s, .refl s, hs, rfl, hfull⟩

theorem AtRest.refuse (hs : s.AtRest) (hclosed : s.writer.isOpen = false) (request : Request α) :
    ∃ s', s.LeadsTo s' ∧ s'.AtRest ∧ s'.writer = s.writer ∧
      s'.calls = s.calls ++ [⟨request, request.refused⟩] := by
  have hrefuse : (s.withCall request .sending).act? (.refuse s.calls.length) =
      some (s.withCall request request.refused) := by
    simp only [act?, getElem?_withCall]
    rw [setStage_withCall, if_neg]
    exact Bool.not_eq_true _ ▸ hclosed
  refine ⟨s.withCall request request.refused,
    ⟨⟨[.call request, .refuse s.calls.length], ?_⟩, fun i c hc => ?_⟩, ⟨hs.idle, ?_⟩, rfl, rfl⟩
  · show ((s.withCall request .sending).act? _).bind _ = _
    rw [hrefuse]
    rfl
  · exact (List.getElem?_append_left (List.getElem?_eq_some_iff.mp hc).1).trans hc
  · rw [places_withCall, hs.no_places]
    cases request <;> rfl

/-- A request made to a session can be replied to, which leaves it at rest with the given writer. -/
def Replies (s : Session α) (request : Request α) (reply : Except WriterError Unit)
    (w : Writer α) : Prop :=
  ∃ (s' : Session α) (i : Nat), s.LeadsTo s' ∧ s'.AtRest ∧ s'.writer = w ∧
    s'.calls[i]? = some ⟨request, .answered reply⟩

theorem AtRest.submit (hs : s.AtRest) (hbound : s.queue.length ≤ capacity) (job : Job α) :
    match s.writer.submit job with
    | .ok (w, _) => s.Replies (.execute job) (.ok ()) w
    | .error e => s.Replies (.execute job) (.error e) s.writer.makeRoom := by
  obtain ⟨s₁, h₁, hs₁, hw₁, hroom⟩ := hs.makeRoom hbound
  unfold Writer.submit
  rw [← hw₁]
  cases hopen : s₁.writer.isOpen with
  | true =>
    obtain ⟨s', h', hs', hw', hcalls⟩ := hs₁.send (hroom hopen) (.execute job)
    simp only [hopen, if_true]
    refine ⟨s', s₁.calls.length, h₁.trans h', hs', hw', ?_⟩
    rw [hcalls]
    exact List.getElem?_concat_length
  | false =>
    obtain ⟨s', h', hs', hw', hcalls⟩ := hs₁.refuse hopen (.execute job)
    simp only [hopen, Bool.false_eq_true, if_false]
    refine ⟨s', s₁.calls.length, h₁.trans h', hs', hw', ?_⟩
    rw [hcalls]
    exact List.getElem?_concat_length

theorem AtRest.settled (hs : s.AtRest) (ho : s.Orderly initial) (hq : s.writer.queue = []) :
    s.handled = s.accepted := by
  have hq' : s.queue = [] := List.map_eq_nil_iff.mp hq
  rw [ho.accepted_eq, hs.idle, hq']
  exact ((List.append_nil _).trans (List.append_nil _)).symm

/-- Whoever waits for a job hears that it is handled, once the writer has handled every message. -/
theorem AtRest.hear (hs : s.AtRest) (ho : s.Orderly initial) (hq : s.writer.queue = [])
    {job : Job α} (hc : s.calls[i]? = some ⟨.executeAndWait job, .waiting⟩) :
    s.act? (.hear i) = some (s.setStage i (.answered (.ok ()))) := by
  have hhandled : (i, job) ∈ s.handled :=
    hs.settled ho hq ▸ (ho.calls _ _ hc).sent job rfl (.inl rfl)
  have htold : s.told.contains i = true :=
    List.contains_iff_mem.mpr ((ho.told_or_done _ hhandled).resolve_right (by simp [hs.idle]))
  simp only [act?, hc, reply?]
  rw [if_pos htold]
  rfl

theorem AtRest.answer (hs : s.AtRest) {request : Request α}
    (hc : s.calls[i]? = some ⟨request, .waiting⟩) (reply : Except WriterError Unit) :
    (s.setStage i (.answered reply)).AtRest :=
  ⟨hs.idle, (places_setStage hc (.answered reply)).trans hs.no_places⟩

/-- A job submitted and waited for is answered like a call that waits until the job is handled. -/
theorem AtRest.submitAndWait (hs : s.AtRest) (ho : s.Orderly initial)
    (hbound : s.queue.length ≤ capacity) (job : Job α) :
    match s.writer.submitAndWait job with
    | .ok w => s.Replies (.executeAndWait job) (.ok ()) w
    | .error e => s.Replies (.executeAndWait job) (.error e) s.writer.makeRoom := by
  obtain ⟨s₁, h₁, hs₁, hw₁, hroom⟩ := hs.makeRoom hbound
  unfold Writer.submitAndWait Writer.submit
  rw [← hw₁]
  cases hopen : s₁.writer.isOpen with
  | true =>
    obtain ⟨s₂, h₂, hs₂, hw₂, hcalls⟩ := hs₁.send (hroom hopen) (.executeAndWait job)
    obtain ⟨s₃, h₃, hs₃, hw₃⟩ := hs₂.exists_drain
    have ho₃ := (h₁.trans (h₂.trans h₃)).orderly ho
    have hdone : s₃.writer.queue = [] := hw₃ ▸ (drain_spec s₂.writer).1
    have hwait : s₃.calls[s₁.calls.length]? = some ⟨.executeAndWait job, .waiting⟩ := by
      refine h₃.2 _ _ ?_
      rw [hcalls]
      exact List.getElem?_concat_length
    -- the number of the job is below the number of jobs handled
    have hnumber : s₁.writer.accepted < s₂.writer.drain.handled := by
      have hcount : s₂.writer.drain.handled = s₂.writer.drain.accepted := by
        rw [← hw₃]
        exact congrArg List.length (hs₃.settled ho₃ hdone)
      rw [hcount, (drain_spec _).2.1, hw₂]
      exact Nat.lt_succ_self _
    have hreply : s₂.writer.drain.reply? s₁.writer.accepted = some (.ok ()) := by
      unfold Writer.reply?
      rw [if_pos hnumber]
    have hpush : s₁.writer.push job = s₂.writer := hw₂.symm
    simp only [hopen, if_true, bind, Except.bind, hpush, hreply]
    have hlead := (h₁.trans (h₂.trans h₃)).answer h₁.length_le (hs₃.hear ho₃ hdone hwait)
    exact ⟨_, s₁.calls.length, hlead, hs₃.answer hwait _, hw₃, by
      rw [getElem?_setStage, if_pos rfl, hwait, Option.map_some]⟩
  | false =>
    obtain ⟨s', h', hs', hw', hcalls⟩ := hs₁.refuse hopen (.executeAndWait job)
    simp only [hopen, Bool.false_eq_true, if_false]
    refine ⟨s', s₁.calls.length, h₁.trans h', hs', hw', ?_⟩
    rw [hcalls]
    exact List.getElem?_concat_length

/-- A writer at rest that is closed and has no messages stops, and tells who waits for that. -/
theorem LeadsTo.stop (h : s.LeadsTo s') (hs : s'.AtRest) (hq : s'.writer.queue = [])
    (hclosed : s'.writer.isOpen = false) (hi : s.calls.length ≤ i)
    (hc : s'.calls[i]? = some ⟨.shutDown, .waiting⟩) :
    ∃ s'', s.LeadsTo s'' ∧ s''.hand = .stopped ∧ s''.writer = s'.writer ∧
      s''.calls[i]? = some ⟨.shutDown, .answered (.ok ())⟩ := by
  have hq' : s'.queue = [] := List.map_eq_nil_iff.mp hq
  have hopen : s'.isOpen = false := hclosed
  have hfinish : s'.act? .finish = some { s' with hand := .stopped } := by
    simp [act?, hs.idle, hq', hopen, hs.no_places]
  have hstopped : s.LeadsTo { s' with hand := .stopped } := h.trans
    ⟨⟨[.finish], by simp [run?, hfinish]⟩, fun _ _ hc => hc⟩
  have hhear : ({ s' with hand := .stopped } : Session α).act? (.hear i) =
      some (({ s' with hand := .stopped } : Session α).setStage i (.answered (.ok ()))) := by
    simp [act?, hc, reply?]
  refine ⟨_, hstopped.answer hi hhear, rfl, rfl, ?_⟩
  rw [getElem?_setStage, if_pos rfl, hc]
  rfl

/-- A writer that is shut down handles every message and stops, as it does for a call that waits
for that. -/
theorem AtRest.shutDown (hs : s.AtRest) (hbound : s.queue.length ≤ capacity) :
    ∃ (s' : Session α) (i : Nat), s.LeadsTo s' ∧ s'.hand = .stopped ∧
      s'.writer = s.writer.shutDown ∧ s'.calls[i]? = some ⟨.shutDown, .answered (.ok ())⟩ := by
  obtain ⟨s₁, h₁, hs₁, hw₁, hroom⟩ := hs.makeRoom hbound
  unfold Writer.shutDown
  rw [← hw₁]
  -- either way the call waits, and the writer is closed or finds the wish to stop
  obtain ⟨s₂, h₂, hs₂, hw₂, hcall, hstop⟩ : ∃ s₂, s₁.LeadsTo s₂ ∧ s₂.AtRest ∧
      s₂.writer = s₁.writer.step .stop ∧
      s₂.calls[s₁.calls.length]? = some ⟨.shutDown, .waiting⟩ ∧
      (s₂.writer.isOpen = false ∨ .stop ∈ s₂.writer.queue) := by
    by_cases hopen : s₁.writer.isOpen = true
    · obtain ⟨s₂, h₂, hs₂, hw₂, hcalls⟩ := hs₁.send (hroom hopen) .shutDown
      refine ⟨s₂, h₂, hs₂, ?_, hcalls ▸ List.getElem?_concat_length, .inr ?_⟩
      · simp only [Writer.step, hroom hopen, if_true]
        exact hw₂
      · rw [hw₂]
        exact List.mem_append_right _ List.mem_cons_self
    · rw [Bool.not_eq_true] at hopen
      obtain ⟨s₂, h₂, hs₂, hw₂, hcalls⟩ := hs₁.refuse hopen .shutDown
      have hroom' : s₁.writer.hasRoom = false := by simp [Writer.hasRoom, hopen]
      refine ⟨s₂, h₂, hs₂, ?_, hcalls ▸ List.getElem?_concat_length, .inl (hw₂ ▸ hopen)⟩
      simp only [Writer.step, hroom', Bool.false_eq_true, if_false]
      exact hw₂
  obtain ⟨s₃, h₃, hs₃, hw₃⟩ := hs₂.exists_drain
  obtain ⟨hdone, -, hclosed⟩ := drain_spec s₂.writer
  obtain ⟨s₄, h₄, hs₄, hw₄, hc₄⟩ := (h₁.trans (h₂.trans h₃)).stop hs₃ (hw₃ ▸ hdone)
    (hw₃ ▸ hclosed hstop) h₁.length_le (h₃.2 _ _ hcall)
  exact ⟨s₄, _, h₄, hs₄, by rw [hw₄, hw₃, hw₂], hc₄⟩

end Session

theorem submitAndWait_ne_dropped (value : α) (events : List (Event α)) (job : Job α) :
    ((start value).run events).submitAndWait job ≠ .error .dropped := by
  intro hdropped
  have hstart : (Session.start value).AtRest := ⟨rfl, rfl⟩
  obtain ⟨s, h, hs, hw⟩ := hstart.exists_run events
  change s.writer = (start value).run events at hw
  have ho := h.orderly (Session.orderly_start value)
  have hbound := h.bounded (Nat.zero_le _)
  have hreplies := hs.submitAndWait ho (Nat.le_trans (Nat.le_add_right ..) hbound) job
  rw [hw, hdropped] at hreplies
  obtain ⟨s', i, h', -, -, hc⟩ := hreplies
  exact ((h'.orderly ho).calls i _ hc).not_dropped rfl

end JourneyPlanner.Writer
