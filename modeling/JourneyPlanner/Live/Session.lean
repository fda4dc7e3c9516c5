import JourneyPlanner.Live.Writer

/-!
# Callers of the writer

Any number of callers share one writer. A call waits for a place in the queue, then puts its
message there; a closed writer gives out no more places, but a place given out before is still
filled. The writer takes one message after the other. For a job it copies the published value, runs
the job on the copy, publishes the result unless the job failed, and tells the caller; it stops
when it is closed and neither a message nor a place is left. Each of these is one action, and
actions of callers and writer follow each other in any order.
-/

namespace JourneyPlanner.Writer

variable {α : Type}

/-- What a caller asks of the writer. -/
inductive Request (α : Type) where
  /-- To queue a job. -/
  | execute (job : Job α)
  /-- To queue a job and wait until it is handled. -/
  | executeAndWait (job : Job α)
  /-- To stop, and wait until it has stopped. -/
  | shutDown

/-- How far a call has come. -/
inductive Stage where
  /-- It waits for a place in the queue. -/
  | sending
  /-- It has a place that its message does not fill yet. -/
  | placed
  /-- It waits for its reply. -/
  | waiting
  | answered (reply : Except WriterError Unit)
  /-- Nobody waits for it any more. -/
  | givenUp

/-- A request and how far it has come. -/
structure Call (α : Type) where
  request : Request α
  stage : Stage

/-- A message with the number of its call. -/
structure Parcel (α : Type) where
  call : Nat
  message : Message α

/-- What the writer is at. -/
inductive Hand (α : Type) where
  /-- It waits for a message. -/
  | idle
  | taken (call : Nat) (job : Job α)
  | copied (call : Nat) (job : Job α) (copy : α)
  | ran (call : Nat) (job : Job α) (result : Option α)
  /-- The caller is to be told. -/
  | done (call : Nat)
  | stopped

/-- A writer with all its calls, and a record of the jobs accepted and handled, each with the
number of its call. -/
structure Session (α : Type) where
  published : α
  queue : List (Parcel α)
  isOpen : Bool
  hand : Hand α
  calls : List (Call α)
  accepted : List (Nat × Job α)
  handled : List (Nat × Job α)
  /-- The calls that were told that their jobs are handled. -/
  told : List Nat

/-- What can happen in a session; calls are given by number. -/
inductive Action (α : Type) where
  /-- Somebody makes a request. -/
  | call (request : Request α)
  /-- A call gets a place in the queue. -/
  | reserve (call : Nat)
  /-- A call finds the writer closed. -/
  | refuse (call : Nat)
  /-- A call puts its message into its place. -/
  | send (call : Nat)
  /-- A call hears its reply. -/
  | hear (call : Nat)
  /-- A call is abandoned. -/
  | giveUp (call : Nat)
  /-- The writer takes the message that has waited longest. -/
  | take
  /-- The writer copies the published value. -/
  | copy
  /-- The writer runs a job on the copy. -/
  | run
  /-- The writer publishes what a job made of the copy. -/
  | publish
  /-- The writer tells the caller that a job is handled. -/
  | tell
  /-- The writer stops. -/
  | finish

/-- The job of a request. -/
def Request.job? : Request α → Option (Job α)
  | .execute job | .executeAndWait job => some job
  | .shutDown => none

/-- The message that a request sends. -/
def Request.message : Request α → Message α
  | .execute job | .executeAndWait job => .job job
  | .shutDown => .stop

/-- The stage of a call that has sent its message. -/
def Request.sent : Request α → Stage
  | .execute _ => .answered (.ok ())
  | .executeAndWait _ | .shutDown => .waiting

/-- The stage of a call that finds the writer closed: who wants it to stop still waits for that. -/
def Request.refused : Request α → Stage
  | .execute _ | .executeAndWait _ => .answered (.error .closed)
  | .shutDown => .waiting

/-- Whether a call can be abandoned. -/
def Stage.isPending : Stage → Bool
  | .sending | .placed | .waiting => true
  | .answered _ | .givenUp => false

/-- Whether a call has a place that is not filled yet. -/
def Stage.isPlaced : Stage → Bool
  | .placed => true
  | _ => false

/-- The call whose job the writer has. -/
def Hand.call? : Hand α → Option Nat
  | .taken i _ | .copied i _ _ | .ran i _ _ | .done i => some i
  | .idle | .stopped => none

namespace Session

/-- A writer that has published its first value, before any call. -/
def start (value : α) : Session α := ⟨value, [], true, .idle, [], [], [], []⟩

/-- How many places are given out and not filled yet. -/
def places (s : Session α) : Nat := s.calls.countP (·.stage.isPlaced)

/-- Whether a place can be given out. -/
def hasPlace (s : Session α) : Bool :=
  s.isOpen && decide (s.queue.length + s.places < capacity)

/-- The session with another stage of a call. -/
def setStage (s : Session α) (i : Nat) (stage : Stage) : Session α :=
  { s with calls := s.calls.modify i fun c => { c with stage := stage } }

/-- The session with the message of a call in the queue. -/
def push (s : Session α) (i : Nat) (request : Request α) : Session α :=
  { s.setStage i request.sent with
    queue := s.queue ++ [⟨i, request.message⟩]
    accepted := s.accepted ++ (request.job?.map (i, ·)).toList }

/-- Whether the writer can still tell a call: its job is in the queue or in hand. -/
def holds (s : Session α) (i : Nat) : Bool :=
  s.queue.any (·.call == i) || s.hand.call? == some i

/-- What a waiting call hears, once there is something to hear. -/
def reply? (s : Session α) (i : Nat) : Request α → Option (Except WriterError Unit)
  | .shutDown => match s.hand with
    | .stopped => some (.ok ())
    | _ => none
  | .execute _ | .executeAndWait _ =>
    if s.told.contains i then some (.ok ())
    else if s.holds i then none
    else some (.error .dropped)

/-- What an action makes of a session, when it can happen. -/
def act? (s : Session α) : Action α → Option (Session α)
  | .call request => some { s with calls := s.calls ++ [⟨request, .sending⟩] }
  | .reserve i => match s.calls[i]? with
    | some ⟨_, .sending⟩ => if s.hasPlace then some (s.setStage i .placed) else none
    | _ => none
  | .refuse i => match s.calls[i]? with
    | some ⟨request, .sending⟩ => if s.isOpen then none else some (s.setStage i request.refused)
    | _ => none
  | .send i => match s.calls[i]? with
    | some ⟨request, .placed⟩ => some (s.push i request)
    | _ => none
  | .hear i => match s.calls[i]? with
    | some ⟨request, .waiting⟩ =>
      (s.reply? i request).map fun reply => s.setStage i (.answered reply)
    | _ => none
  | .giveUp i => match s.calls[i]? with
    | some ⟨_, stage⟩ => if stage.isPending then some (s.setStage i .givenUp) else none
    | _ => none
  | .take => match s.hand, s.queue with
    | .idle, ⟨i, .job job⟩ :: queue => some { s with queue := queue, hand := .taken i job }
    | .idle, ⟨_, .stop⟩ :: queue => some { s with queue := queue, isOpen := false }
    | _, _ => none
  | .copy => match s.hand with
    | .taken i job => some { s with hand := .copied i job s.published }
    | _ => none
  | .run => match s.hand with
    | .copied i job copy => some { s with hand := .ran i job (job copy) }
    | _ => none
  | .publish => match s.hand with
    | .ran i job result => some { s with
        published := result.getD s.published
        handled := s.handled ++ [(i, job)]
        hand := .done i }
    | _ => none
  | .tell => match s.hand with
    | .done i => some { s with told := s.told ++ [i], hand := .idle }
    | _ => none
  | .finish => match s.hand, s.queue with
    | .idle, [] => if s.isOpen || s.places != 0 then none else some { s with hand := .stopped }
    | _, _ => none

/-- What a series of actions makes of a session, when each of them can happen. -/
def run? (s : Session α) (actions : List (Action α)) : Option (Session α) := actions.foldlM act? s

/-- The writer of a session as one sees it who does not follow its calls. -/
def writer (s : Session α) : Writer α :=
  ⟨s.published, s.queue.map (·.message), s.isOpen, s.accepted.length, s.handled.length⟩

end Session

end JourneyPlanner.Writer
