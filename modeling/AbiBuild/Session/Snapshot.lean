import AbiBuild.Session.Basic

/-!
# What a session shows of its graph
-/

namespace AbiBuild

open Files

structure ClassSnapshot where
  name : String
  source : Option Path
  publicDependencies : List String
  privateDependencies : List String
  dependents : List String
  deriving DecidableEq, Repr

namespace Session

def dependenciesAlong (order : Dependency.EdgeOrder) (session : Session) (name : String)
    (isPrivate : Bool) : List String :=
  ((session.graph.peersAlong order .incoming name).toList.filter (·.2 = isPrivate)).map (·.1)

def classSnapshotAlong (order : Dependency.EdgeOrder) (session : Session) (name : String) :
    ClassSnapshot where
  name := name
  source := session.classToSource[name]?
  publicDependencies := session.dependenciesAlong order name false
  privateDependencies := session.dependenciesAlong order name true
  dependents := (session.graph.peersAlong order .outgoing name).keys

/-- Every class of the graph, in order. -/
def snapshotAlong (order : Dependency.EdgeOrder) (session : Session) : List ClassSnapshot :=
  session.graph.classNames.map (session.classSnapshotAlong order)

def snapshot (session : Session) : List ClassSnapshot :=
  session.snapshotAlong .sorted

end Session

end AbiBuild
