import JourneyPlanner.Live.Source
import JourneyPlanner.Live.Writer
import JourneyPlanner.Monitoring.Survey

/-!
# Polling

A poller reads its source and offers what is new to the writer of the network. It polls once when
its frequency is not positive, and otherwise again at every tick until it finds the writer closed;
any other failure is left to the next tick.
-/

namespace JourneyPlanner

/-- What a poll comes to. -/
inductive PollOutcome where
  | done
  | failed
  | closed
  deriving DecidableEq, Repr

/-- The outcome of offering a job. -/
def PollOutcome.ofError : WriterError → PollOutcome
  | .closed => .closed
  | .dropped => .failed

/-- The poller of a source, with a name for the log. -/
structure Poller (S : Type) where
  name : String
  source : Source S
  radius : Float := 100.0
  /-- The seconds between two polls; zero or less for a single one. -/
  frequency : Int := 0

namespace Poller

variable {S : Type} [Station S]

/-- The job that writes the stations of the source to the streets. -/
def job (p : Poller S) : Job Network := fun n =>
  some ((Survey.mk p.source.stations p.radius).apply n)

/-- Reads the source, and offers its stations when there is news. -/
def poll (p : Poller S) (found : Surroundings) (w : Writer Network) :
    Poller S × Writer Network × PollOutcome :=
  match p.source.update found with
  | (source, false) => ({ p with source := source }, w, .done)
  | (source, true) =>
    let p := { p with source := source }
    match w.submit p.job with
    | .ok (w, _) => (p, w, .done)
    | .error e => (p, w, .ofError e)

end Poller

/-- Repeats a poll at every tick, or does it once when the frequency is not positive, until the
writer is closed. The ticks that are left bound the repetition. -/
def repeatPoll {σ : Type} (frequency : Int) (poll : σ → σ × PollOutcome) : Nat → σ → σ
  | 0, s => s
  | ticks + 1, s =>
    match poll s with
    | (s, .closed) => s
    | (s, _) => if 0 < frequency then repeatPoll frequency poll ticks s else s

/-- The poller and the writer after so many ticks at most, in surroundings that do not change. -/
def Poller.run {S : Type} [Station S] (p : Poller S) (found : Surroundings) (ticks : Nat)
    (w : Writer Network) : Poller S × Writer Network :=
  repeatPoll p.frequency (fun (p, w) =>
    let (p, w, outcome) := p.poll found w
    ((p, w), outcome)) ticks (p, w)

end JourneyPlanner
