import JourneyPlanner.Proofs.Live.Session

/-!
# What callers of the writer can rely on

The writer loses, repeats and reorders nothing (`Session.faithful_run`), whatever its callers do
and whenever it is shut down: a job accepted is handled once, in its turn, even when it was queued
behind the wish to stop, and a job refused is never run.
-/

namespace JourneyPlanner.Writer

variable {α : Type}

namespace Session

variable {initial : α} {s s' : Session α} {i : Nat} {c : Call α}

/-! ## The contract -/

/-- What callers of the writer can rely on. -/
structure Faithful (initial : α) (s : Session α) : Prop where
  /-- The published value is what the jobs handled so far made of the first one, in order. -/
  published_eq : s.published = applied initial s.handled
  /-- Jobs are handled in the order in which they were accepted. -/
  in_order : s.handled <+: s.accepted
  /-- No call has its job accepted twice, and none another's. -/
  once : (s.accepted.map (·.1)).Nodup
  own_job : ∀ x ∈ s.accepted, s.jobOf? x.1 = some x.2
  /-- A job that its caller did not wait for is accepted when the call returns. -/
  queued : ∀ i job, s.calls[i]? = some ⟨.execute job, .answered (.ok ())⟩ → (i, job) ∈ s.accepted
  /-- A job that its caller waited for is handled when the call returns, and unless it failed, what
  it made of the value of its turn has been published. -/
  published : ∀ i job, s.calls[i]? = some ⟨.executeAndWait job, .answered (.ok ())⟩ →
    ∃ before after, s.handled = before ++ (i, job) :: after ∧
      s.published =
        applied ((job (applied initial before)).getD (applied initial before)) after
  never_dropped : ∀ (i : Nat) c, s.calls[i]? = some c → c.stage ≠ .answered (.error .dropped)
  /-- A job refused is never accepted, now or later. -/
  refused : ∀ (i : Nat) c, s.calls[i]? = some c → c.stage = .answered (.error .closed) →
    ∀ actions s', s.run? actions = some s' → ∀ job, (i, job) ∉ s'.accepted
  /-- A writer that has stopped has handled all that it accepted. -/
  drained : s.hand = .stopped → s.handled = s.accepted
  shut_down : ∀ i : Nat, s.calls[i]? = some ⟨.shutDown, .answered (.ok ())⟩ →
    s.hand = .stopped

theorem Orderly.drained (h : s.Orderly initial) (hs : s.hand = .stopped) :
    s.handled = s.accepted := by
  rw [h.accepted_eq, hs, (h.closed hs).2.1]
  exact ((List.append_nil _).trans (List.append_nil _)).symm

theorem Orderly.published (h : s.Orderly initial) {job : Job α}
    (hc : s.calls[i]? = some ⟨.executeAndWait job, .answered (.ok ())⟩) :
    ∃ before after, s.handled = before ++ (i, job) :: after ∧ s.published =
      applied ((job (applied initial before)).getD (applied initial before)) after := by
  obtain ⟨before, after, heq⟩ := List.append_of_mem ((h.calls i _ hc).heard job rfl rfl)
  refine ⟨before, after, heq, ?_⟩
  rw [h.published_eq, heq, applied_append]
  rfl

theorem Orderly.refused (h : s.Orderly initial) (hc : s.calls[i]? = some c)
    (hr : c.stage = .answered (.error .closed)) {actions : List (Action α)}
    (hrun : s.run? actions = some s') (job : Job α) : (i, job) ∉ s'.accepted := by
  obtain ⟨hs', hc'⟩ := run?_induction
    (I := fun s => s.Orderly initial ∧ s.calls[i]? = some c)
    (fun _ _ hm hs => ⟨hs.1.moves hm, hm.answered hs.2 hr⟩) hrun ⟨h, hc⟩
  exact (hs'.calls i c hc').unsent (.inr (.inr hr)) job

/-- The writer loses, repeats and reorders nothing, however its callers interleave. -/
theorem faithful_run {actions : List (Action α)} (h : (start initial).run? actions = some s) :
    s.Faithful initial := by
  have hs := orderly_run h
  exact {
    published_eq := hs.published_eq
    in_order := ⟨_, (List.append_assoc .. ▸ hs.accepted_eq).symm⟩
    once := hs.once
    own_job := hs.own_job
    queued := fun i job hc => (hs.calls i _ hc).sent job rfl (.inr rfl)
    published := fun i job hc => hs.published hc
    never_dropped := fun i c hc => (hs.calls i c hc).not_dropped
    refused := fun i c hc hr actions s' hrun job => hs.refused hc hr hrun job
    drained := hs.drained
    shut_down := fun i hc => (hs.calls i _ hc).stopped rfl rfl }

/-- An evening at the writer: a job waited for, one that fails and the wish to stop are queued, and
behind them another job. A place is filled only after the writer has closed, and a call that comes
even later is refused. -/
def lastOrders : List (Action Nat) :=
  [.call (.executeAndWait fun n => some (n + 1)), .call (.execute fun _ => none),
    .reserve 1, .reserve 0, .send 0, .send 1, .call .shutDown, .reserve 2, .take, .send 2, .copy,
    .call (.executeAndWait fun n => some (2 * n)), .reserve 3, .send 3, .run, .publish,
    .call (.execute fun n => some (n + 1)), .tell, .reserve 4, .take, .hear 0, .copy, .run,
    .publish, .tell, .take, .call (.execute some), .refuse 5, .take, .copy, .run, .send 4,
    .publish, .tell, .hear 3, .take, .copy, .run, .publish, .tell, .finish, .hear 2]

/-- The last two jobs are handled after the writer has closed, and the failing one counts for
nothing. -/
theorem lastOrders_faithful : ∃ s, (start 0).run? lastOrders = some s ∧ s.hand = .stopped ∧
    s.handled.map (·.1) = [0, 1, 3, 4] ∧ s.published = 3 ∧ s.Faithful 0 := by
  obtain ⟨s, hrun, hstopped, hhandled, hpublished⟩ : ∃ s, (start 0).run? lastOrders = some s ∧
      s.hand = .stopped ∧ s.handled.map (·.1) = [0, 1, 3, 4] ∧ s.published = 3 :=
    ⟨_, rfl, rfl, rfl, rfl⟩
  exact ⟨s, hrun, hstopped, hhandled, hpublished, faithful_run hrun⟩

end Session

end JourneyPlanner.Writer
