/-!
# The writer

One writer owns a value that others only see as snapshots. Changes are queued as jobs and handled
in the order in which they were accepted: a job gets the current value, and what it makes of it is
published as the next one. A job that fails changes nothing. A stop message makes the writer refuse
further jobs; the ones accepted before are still handled.
-/

namespace JourneyPlanner

/-- A change to a value; none when it fails. -/
abbrev Job (α : Type) := α → Option α

namespace Writer

/-- What waits in the queue of a writer. -/
inductive Message (α : Type) where
  | job (job : Job α)
  | stop

/-- What can happen to a writer. -/
inductive Event (α : Type) where
  /-- Somebody offers a job. -/
  | offer (job : Job α)
  /-- The owner asks the writer to stop. -/
  | stop
  /-- The writer handles the message that has waited longest. -/
  | work

end Writer

/-- The value published last, the messages waiting, whether further ones are accepted, and how many
jobs were accepted and handled. -/
structure Writer (α : Type) where
  published : α
  queue : List (Writer.Message α)
  isOpen : Bool
  accepted : Nat
  handled : Nat

/-- Why a change was not made. -/
inductive WriterError where
  /-- The writer refused the job. -/
  | closed
  /-- The writer stopped before it handled the job. -/
  | dropped
  deriving DecidableEq, Repr

/-- The message for an error. -/
def WriterError.message : WriterError → String
  | .closed => "graph writer has shut down"
  | .dropped => "graph writer dropped the job"

namespace Writer

variable {α : Type}

/-- How many messages can wait. -/
def capacity : Nat := 64

/-- A writer that has published its first value. -/
def start (value : α) : Writer α := ⟨value, [], true, 0, 0⟩

/-- Whether a message can be queued now. -/
def hasRoom (w : Writer α) : Bool := w.isOpen && decide (w.queue.length < capacity)

/-- Whether the writer has stopped: it is closed and no message waits. -/
def hasStopped (w : Writer α) : Bool := !w.isOpen && w.queue.isEmpty

/-- Queues a job, which gets the next number. -/
def push (w : Writer α) (job : Job α) : Writer α :=
  { w with queue := w.queue ++ [.job job], accepted := w.accepted + 1 }

/-- Publishes what a job makes of the value, if it does not fail. -/
def perform (w : Writer α) (job : Job α) : Writer α :=
  { w with published := (job w.published).getD w.published, handled := w.handled + 1 }

/-- Handles the message that has waited longest. -/
def work (w : Writer α) : Writer α :=
  match w.queue with
  | [] => w
  | .job job :: queue => { w with queue := queue }.perform job
  | .stop :: queue => { w with queue := queue, isOpen := false }

/-- What an event makes of a writer; an offer without room for it is not accepted yet, and neither
is a wish to stop. -/
def step (w : Writer α) : Event α → Writer α
  | .offer job => if w.hasRoom then w.push job else w
  | .stop => if w.hasRoom then { w with queue := w.queue ++ [.stop] } else w
  | .work => w.work

/-- What a series of events makes of a writer. -/
def run (w : Writer α) (events : List (Event α)) : Writer α := events.foldl step w

@[simp] theorem run_nil (w : Writer α) : w.run [] = w := rfl

@[simp] theorem run_cons (w : Writer α) (e : Event α) (events : List (Event α)) :
    w.run (e :: events) = (w.step e).run events := rfl

/-- Handles every message. -/
def drain (w : Writer α) : Writer α := w.run (w.queue.map fun _ => .work)

/-- The writer after it has made room, if it is open and has none. -/
def makeRoom (w : Writer α) : Writer α := if w.isOpen && !w.hasRoom then w.work else w

/-- Queues a job, waiting for room; the number of the job. -/
def submit (w : Writer α) (job : Job α) : Except WriterError (Writer α × Nat) :=
  let w := w.makeRoom
  if w.isOpen then .ok (w.push job, w.accepted) else .error .closed

/-- What somebody who waits for a job hears, once the job is handled or the writer has stopped. -/
def reply? (w : Writer α) (number : Nat) : Option (Except WriterError Unit) :=
  if number < w.handled then some (.ok ())
  else if w.hasStopped then some (.error .dropped)
  else none

/-- Queues a job and waits until it is handled. -/
def submitAndWait (w : Writer α) (job : Job α) : Except WriterError (Writer α) := do
  let (w, number) ← w.submit job
  let w := w.drain
  match w.reply? number with
  | some (.error e) => throw e
  | _ => return w

/-- Stops the writer after it has handled every message. -/
def shutDown (w : Writer α) : Writer α := (w.makeRoom.step .stop).drain

end Writer

end JourneyPlanner
