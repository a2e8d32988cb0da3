import AbiBuild.Abi

/-!
# The dependency graph

Each class has a set of edges.  An incoming edge says that the class depends on a type, an outgoing
edge that a class depends on it; a dependency is one edge on either side.  A class that is only
depended on has a node without incoming edges of its own.
-/

namespace AbiBuild.Dependency

inductive Direction
  | incoming
  | outgoing
  deriving DecidableEq, Repr

namespace Direction

def rank : Direction → Nat
  | incoming => 0
  | outgoing => 1

def opposite : Direction → Direction
  | incoming => outgoing
  | outgoing => incoming

def text : Direction → String
  | incoming => "Incoming"
  | outgoing => "Outgoing"

end Direction

structure Edge where
  direction : Direction
  isPrivate : Bool
  peer : String
  deriving DecidableEq, Repr

namespace Edge

def order : Edge → Edge → Ordering :=
  compareLex (compareOn (·.direction.rank))
    (compareLex (compareOn (·.isPrivate.toNat)) (compareOn (·.peer)))

instance : Ord Edge := ⟨order⟩

instance : Std.TransOrd Edge :=
  inferInstanceAs (Std.TransCmp (compareLex (compareOn fun edge : Edge => edge.direction.rank)
    (compareLex (compareOn fun edge : Edge => edge.isPrivate.toNat)
      (compareOn fun edge : Edge => edge.peer))))

instance : Std.LawfulEqOrd Edge where
  eq_of_compare {left right} h := by
    have h : order left right = .eq := h
    simp only [order, compareLex, Ordering.then_eq_eq, compareOn] at h
    have hdirection := Std.LawfulEqOrd.eq_of_compare h.1
    have hprivate := Std.LawfulEqOrd.eq_of_compare h.2.1
    have hpeer := Std.LawfulEqOrd.eq_of_compare h.2.2
    cases left with
    | mk leftDirection leftPrivate leftPeer =>
      cases right with
      | mk rightDirection rightPrivate rightPeer =>
        cases leftDirection <;> cases rightDirection <;> cases leftPrivate <;>
          cases rightPrivate <;> simp_all [Direction.rank]

def counterpart (edge : Edge) (owner : String) : Edge :=
  ⟨edge.direction.opposite, edge.isPrivate, owner⟩

end Edge

abbrev Edges := Std.ExtTreeSet Edge compare

structure Graph where
  nodes : Std.ExtTreeMap String Edges compare
  deriving DecidableEq

namespace Graph

def empty : Graph := ⟨∅⟩

def contains (graph : Graph) (name : String) : Bool :=
  graph.nodes.contains name

/-- The edges of a class; none when it has no node. -/
def edgesOf (graph : Graph) (name : String) : Edges :=
  graph.nodes[name]?.getD ∅

/-- Has the class dependencies of its own? -/
def isReal (graph : Graph) (name : String) : Bool :=
  (graph.edgesOf name).toList.any (·.direction = .incoming)

def classNames (graph : Graph) : List String :=
  graph.nodes.keys

end Graph

/-- An order in which the edges of each class come.  As a set they have none of their own. -/
structure EdgeOrder where
  listed : Graph → String → List Edge
  perm : ∀ graph name, (listed graph name).Perm (graph.edgesOf name).toList

/-- By direction, visibility and peer. -/
def EdgeOrder.sorted : EdgeOrder where
  listed graph name := (graph.edgesOf name).toList
  perm _ _ := .refl _

namespace Graph

/-- The peers in one direction, each with whether its edge is private.  Of two edges to one peer the
later decides. -/
def peersAlong (order : EdgeOrder) (graph : Graph) (direction : Direction) (name : String) :
    Std.ExtTreeMap String Bool compare :=
  (order.listed graph name).foldl (fun peers edge =>
    if edge.direction = direction then peers.insert edge.peer edge.isPrivate else peers) ∅

def peersOf (graph : Graph) (direction : Direction) (name : String) :
    Std.ExtTreeMap String Bool compare :=
  graph.peersAlong .sorted direction name

/-- What the class depends on. -/
def dependenciesOf (graph : Graph) (name : String) : Std.ExtTreeMap String Bool compare :=
  graph.peersOf .incoming name

/-- What depends on the class. -/
def dependentsOf (graph : Graph) (name : String) : Std.ExtTreeMap String Bool compare :=
  graph.peersOf .outgoing name

def ensureNode (graph : Graph) (name : String) : Graph :=
  ⟨graph.nodes.alter name fun edges? => some (edges?.getD ∅)⟩

def insertEdge (graph : Graph) (owner : String) (edge : Edge) : Graph :=
  ⟨graph.nodes.alter owner fun edges? => some ((edges?.getD ∅).insert edge)⟩

def eraseEdge (graph : Graph) (owner : String) (edge : Edge) : Graph :=
  ⟨graph.nodes.alter owner fun edges? => edges?.map (·.erase edge)⟩

def link (graph : Graph) (dependent dependsOn : String) (isPrivate : Bool) : Graph :=
  (graph.insertEdge dependent ⟨.incoming, isPrivate, dependsOn⟩).insertEdge dependsOn
    ⟨.outgoing, isPrivate, dependent⟩

def unlink (graph : Graph) (dependent dependsOn : String) (isPrivate : Bool) : Graph :=
  (graph.eraseEdge dependent ⟨.incoming, isPrivate, dependsOn⟩).eraseEdge dependsOn
    ⟨.outgoing, isPrivate, dependent⟩

/-- Links a class to every type that its surface mentions. -/
def linkAll (graph : Graph) (abi : SourceAbi) : Graph :=
  abi.referencedTypes.foldl (fun graph (name, isPrivate) => graph.link abi.className name isPrivate)
    (graph.ensureNode abi.className)

/-- Records a class that has no dependencies yet; fails for any other. -/
def add? (graph : Graph) (abi : SourceAbi) : Option Graph :=
  if graph.isReal abi.className then none else some (graph.linkAll abi)

/-- Drops a dependency that the surface no longer mentions, and changes one whose visibility
changed. -/
def reviseDependency (abi : SourceAbi) (next : Std.ExtTreeMap String Bool compare) (graph : Graph)
    (dependency : String × Bool) : Graph :=
  let (name, wasPrivate) := dependency
  match next[name]? with
  | none => graph.unlink abi.className name wasPrivate
  | some isPrivate =>
    if isPrivate = wasPrivate then graph
    else (graph.unlink abi.className name wasPrivate).link abi.className name isPrivate

/-- Brings the dependencies of a class in line with its surface, touching only what differs from the
previous ones. -/
def updateFrom (graph : Graph) (previous : Std.ExtTreeMap String Bool compare) (abi : SourceAbi) :
    Graph :=
  if graph.isReal abi.className then
    let next := Std.ExtTreeMap.ofList abi.referencedTypes compare
    let revised := previous.toList.foldl (reviseDependency abi next) graph
    next.toList.foldl (fun graph (name, isPrivate) =>
      if previous.contains name then graph else graph.link abi.className name isPrivate) revised
  else graph.linkAll abi

def updateAlong (order : EdgeOrder) (graph : Graph) (abi : SourceAbi) : Graph :=
  graph.updateFrom (graph.peersAlong order .incoming abi.className) abi

def update (graph : Graph) (abi : SourceAbi) : Graph :=
  graph.updateFrom (graph.dependenciesOf abi.className) abi

def delete? (graph : Graph) (name : String) : Option Graph :=
  match graph.nodes[name]? with
  | none => none
  | some edges =>
    some (edges.toList.foldl (fun graph edge => graph.eraseEdge edge.peer (edge.counterpart name))
      ⟨graph.nodes.erase name⟩)

def delete (graph : Graph) (name : String) : Graph :=
  (graph.delete? name).getD graph

/-- An edge whose other side is missing. -/
structure Violation where
  owner : String
  edge : Edge
  deriving DecidableEq, Repr

def Violation.text (violation : Violation) : String :=
  violation.owner ++ " -[" ++ violation.edge.direction.text ++ ", private=" ++
    toString violation.edge.isPrivate ++ "]-> " ++ violation.edge.peer

/-- The edges without another side.  A healthy graph has none. -/
def violations (graph : Graph) : List Violation :=
  graph.nodes.toList.flatMap fun (owner, edges) =>
    (edges.toList.filter fun edge =>
      !(graph.edgesOf edge.peer).contains (edge.counterpart owner)).map (⟨owner, ·⟩)

end Graph

end AbiBuild.Dependency
