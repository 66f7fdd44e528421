import OntoGraph.Graph.Basic

/-!
# Neighbours and subtrees

The subtree of a node holds the nodes that its edges lead to, in rounds: first the node itself,
then in each round what the edges of the round before newly lead to.
-/

namespace OntoGraph.Graph.InstanceGraph

def nodesAt (g : InstanceGraph) (ids : List String) : List Node := ids.filterMap g.node?

/-- The nodes that the edges of a node lead to, each once, in the order of the edges. -/
def outgoers (g : InstanceGraph) (id : String) : List Node :=
  g.nodesAt ((g.outEdges id).map (·.target)).eraseDups

/-- The nodes whose edges lead to a node, each once, in the order of the edges. -/
def incomers (g : InstanceGraph) (id : String) : List Node :=
  g.nodesAt ((g.inEdges id).map (·.source)).eraseDups

/-- The nodes found so far, and in further rounds those that the last round leads to. `fuel`
bounds the number of rounds. -/
def rounds (g : InstanceGraph) : (fuel : Nat) → (found last : List String) → List String
  | 0, found, _ => found
  | fuel + 1, found, last =>
    let next := ((last.flatMap fun id ↦ (g.outgoers id).map (·.id)).filter
      (!found.contains ·)).eraseDups
    if next.isEmpty then found else rounds g fuel (found ++ next) next

/-- The node and all nodes that its edges lead to, nearest first. A node that does not exist has
no subtree. Every round finds a node, so that their number bounds that of the rounds. -/
def subtree (g : InstanceGraph) (root : String) : List String :=
  if (g.node? root).isSome then g.rounds g.nodes.length [root] [root] else []

end OntoGraph.Graph.InstanceGraph
