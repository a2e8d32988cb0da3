import AbiBuild.Dependency.Graph
import AbiBuild.Error

/-!
# The stored form of the graph

On disk, names stand once in a pool and nodes refer to them by position.  Nodes come in order of
their names, and each edge with the node that holds it.
-/

namespace AbiBuild.Dependency

def storedVersion : UInt32 := 1

structure StoredEdge where
  direction : Direction
  isPrivate : Bool
  peer : UInt32
  deriving DecidableEq, Repr

structure StoredNode where
  name : UInt32
  edges : List StoredEdge
  deriving DecidableEq, Repr

structure StoredGraph where
  version : UInt32
  names : List String
  nodes : List StoredNode
  deriving DecidableEq, Repr

namespace Graph

/-- Every name that the graph mentions, in order. -/
def pool (graph : Graph) : List String :=
  (Names.ofList (graph.nodes.toList.flatMap fun (owner, edges) =>
    owner :: edges.toList.map (·.peer))).toList

def indexIn (names : List String) (name : String) : UInt32 :=
  UInt32.ofNat (names.idxOf name)

def toStored (graph : Graph) : StoredGraph where
  version := storedVersion
  names := graph.pool
  nodes := graph.nodes.toList.map fun (owner, edges) =>
    ⟨indexIn graph.pool owner, edges.toList.map fun edge =>
      ⟨edge.direction, edge.isPrivate, indexIn graph.pool edge.peer⟩⟩

def nameAt (names : Array String) (index : UInt32) : Except CacheFault String :=
  match names[index.toNat]? with
  | some name => .ok name
  | none => .error (.nameIndex index)

def loadEdge (names : Array String) (owner : String) (graph : Graph) (stored : StoredEdge) :
    Except CacheFault Graph := do
  let peer ← nameAt names stored.peer
  pure (graph.insertEdge owner ⟨stored.direction, stored.isPrivate, peer⟩)

def loadNode (names : Array String) (graph : Graph) (stored : StoredNode) :
    Except CacheFault Graph := do
  let owner ← nameAt names stored.name
  stored.edges.foldlM (loadEdge names owner) (graph.ensureNode owner)

/-- A position may be out of the pool; the first one that is decides the fault. -/
def ofStored (stored : StoredGraph) : Except CacheFault Graph :=
  if stored.version = storedVersion then
    stored.nodes.foldlM (loadNode stored.names.toArray) empty
  else .error (.graphVersion stored.version)

end Graph

end AbiBuild.Dependency
