import JourneyPlanner.Live.Updater

/-!
# The manager of a live network

The manager owns the writer of a network and the updaters that feed it. Updaters are started one
after the other; those started before a description that cannot be built go on.
-/

namespace JourneyPlanner

/-- The writer of a network and the updaters started. -/
structure Manager where
  writer : Writer Network
  updaters : List Updater

namespace Manager

/-- The manager of a network without updaters. -/
def start (n : Network) : Manager := ⟨.start n, []⟩

/-- The network published last. -/
def network (m : Manager) : Network := m.writer.published

/-- Steps that change a manager and may fail; a failed step keeps what it did. -/
abbrev Step := ExceptT UpdaterError (StateM Manager)

/-- Builds an updater and starts it. -/
def startUpdater (d : UpdaterDescription) : Step Unit := do
  let u ← (d.build : Step Updater)
  modify fun m => { m with updaters := m.updaters ++ [u] }

/-- Starts an updater for each description. -/
def startUpdaters (ds : List UpdaterDescription) : Step Unit := ds.forM startUpdater

/-- Stops the updaters, and the writer after it has handled every message. -/
def shutDown (m : Manager) : Manager := ⟨m.writer.shutDown, []⟩

end Manager

end JourneyPlanner
