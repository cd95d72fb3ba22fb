import LanguageClient.Workspace.Documents
import LanguageClient.Workspace.Pump

/-!
# Shutting a workspace down

All servers are asked to shut down. They go as they are pumped, in rounds
between which the connections change, until none is left or the rounds are
over; those that are left then are ended. There are as many rounds as fit into
the time that the servers are given, and at least one.
-/
namespace LanguageClient

/-- A change to one of the connections: what the server, the peer and the loops do. -/
structure ConnectionChange where
  name : String
  change : Connection → Connection

/-- One round of waiting for the servers to go. -/
structure ShutdownRound where
  before : List ConnectionChange
  visible : String → Bool
  now : Nat

namespace Workspace

def between (w : Workspace) (c : ConnectionChange) : Workspace :=
  w.onConnection c.name c.change

/-- Pumps round after round until all servers are gone. -/
def awaitGone (w : Workspace) : List ShutdownRound → List HostCall × Workspace
  | [] => ([], w)
  | r :: rounds =>
    let (_, calls, w) := (r.before.foldl between w).pump r.visible r.now
    if w.isAlive then
      let (more, w) := w.awaitGone rounds
      (calls ++ more, w)
    else (calls, w)

/-- Shuts all servers down, waits for them to go and ends those that are left. -/
def shutdownWithin (w : Workspace) (now : Nat) (rounds : List ShutdownRound) (last : Nat) :
    List HostCall × Workspace :=
  let (calls, w) := (w.shutdownAll now).awaitGone rounds
  let (more, w) := w.killAll last
  (calls ++ more, w)

end Workspace

end LanguageClient
