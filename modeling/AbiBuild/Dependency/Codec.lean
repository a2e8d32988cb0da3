import AbiBuild.Dependency.Stored
import AbiBuild.MessagePack.Reader
import AbiBuild.MessagePack.Writer
import AbiBuild.Zstandard.Frame

/-!
# The graph as octets

The stored form in MessagePack, compressed.
-/

namespace AbiBuild.Dependency

open MessagePack

/-! ## Writing -/

def encodeEdge (edge : StoredEdge) : Bytes :=
  encodeArrayHead 3 ++ encodeText edge.direction.text ++ encodeBool edge.isPrivate ++
    encodeUnsigned edge.peer.toNat

def encodeNode (node : StoredNode) : Bytes :=
  encodeArrayHead 2 ++ encodeUnsigned node.name.toNat ++ encodeList encodeEdge node.edges

def encodeGraph (stored : StoredGraph) : Bytes :=
  encodeArrayHead 3 ++ encodeUnsigned stored.version.toNat ++ encodeList encodeText stored.names ++
    encodeList encodeNode stored.nodes

/-! ## Reading

Containers may nest up to a fixed depth; what an unknown field may still use of it depends on where
the field stands. -/

def nestingLimit : Nat := 1023

def word : Reader UInt32 := UInt32.ofNat <$> unsigned 32

def setOnce {α : Type} (field : Option α) (read : Reader α) : Reader (Option α) :=
  match field with
  | none => some <$> read
  | some _ => failure

def direction : Reader Direction := do
  match ← choice [Direction.incoming.text, Direction.outgoing.text] with
  | 0 => pure .incoming
  | _ => pure .outgoing

structure EdgeFields where
  direction : Option Direction := none
  isPrivate : Option Bool := none
  peer : Option UInt32 := none

def edge : Reader StoredEdge := do
  let fields ← recordOf (nestingLimit - 5) ["direction", "is_private", "peer"] ({} : EdgeFields)
    fun index fields => do
      match index with
      | 0 => pure { fields with direction := ← setOnce fields.direction direction }
      | 1 => pure { fields with isPrivate := ← setOnce fields.isPrivate bool }
      | _ => pure { fields with peer := ← setOnce fields.peer word }
  match fields with
  | ⟨some direction, some isPrivate, some peer⟩ => pure ⟨direction, isPrivate, peer⟩
  | _ => failure

structure NodeFields where
  name : Option UInt32 := none
  edges : Option (List StoredEdge) := none

def node : Reader StoredNode := do
  let fields ← recordOf (nestingLimit - 3) ["name", "edges"] ({} : NodeFields)
    fun index fields => do
      match index with
      | 0 => pure { fields with name := ← setOnce fields.name word }
      | _ => pure { fields with edges := ← setOnce fields.edges (list edge) }
  match fields with
  | ⟨some name, some edges⟩ => pure ⟨name, edges⟩
  | _ => failure

structure GraphFields where
  version : Option UInt32 := none
  names : Option (List String) := none
  nodes : Option (List StoredNode) := none

def storedGraph : Reader StoredGraph := do
  let fields ← recordOf (nestingLimit - 1) ["version", "names", "nodes"] ({} : GraphFields)
    fun index fields => do
      match index with
      | 0 => pure { fields with version := ← setOnce fields.version word }
      | 1 => pure { fields with names := ← setOnce fields.names (list text) }
      | _ => pure { fields with nodes := ← setOnce fields.nodes (list node) }
  match fields with
  | ⟨some version, some names, some nodes⟩ => pure ⟨version, names, nodes⟩
  | _ => failure

def decodeGraph (bytes : Bytes) : Except CacheFault StoredGraph :=
  match storedGraph bytes with
  | some (stored, _) => .ok stored
  | none => .error .notMessagePack

namespace Graph

def serialize (graph : Graph) : Bytes :=
  Zstandard.compress (encodeGraph graph.toStored)

def deserialize (bytes : Bytes) : Except CacheFault Graph := do
  match Zstandard.decompress? bytes with
  | some content => ofStored (← decodeGraph content)
  | none => throw .notCompressed

end Graph

end AbiBuild.Dependency
