import WindowAlign.Window

/-!
# Cluster topology

The published topology is the list of members that the writer saw last. An
incoming list replaces the published one unless that one is known to be newer.
-/

namespace WindowAlign

structure Node where
  id : String
  host : String
  role : String
  isManager : Bool
  deriving DecidableEq, Repr, Inhabited

/-- The members that were seen at one time, none before the first list. -/
structure Topology where
  observedAt : Option Int
  nodes : List Node
  deriving DecidableEq, Repr, Inhabited

namespace Topology

/-- What is published before any list was seen. -/
def unknown : Topology :=
  ⟨none, []⟩

def isEmpty (t : Topology) : Bool :=
  t.nodes.isEmpty

def manager? (t : Topology) : Option Node :=
  t.nodes.find? (·.isManager)

/-- Whether the published list is known to be newer than an incoming one. -/
def isNewer (published incoming : Topology) : Bool :=
  match published.observedAt, incoming.observedAt with
  | some p, some i => decide (i < p)
  | _, _ => false

/-- What is published after a list came in. -/
def publish (published incoming : Topology) : Topology :=
  if published.isNewer incoming then published else incoming

end Topology

end WindowAlign
