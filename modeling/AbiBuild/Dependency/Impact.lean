import AbiBuild.Dependency.Graph

/-!
# What a change reaches

When the surface of a class changes, every direct dependent has to be compiled again.  A dependent
that mentions the class publicly may change its own surface in turn, so its dependents count as
well; a private mention stops there.
-/

namespace AbiBuild.Dependency.Graph

def publicDependents (graph : Graph) (name : String) : List String :=
  ((graph.edgesOf name).toList.filter fun edge =>
    edge.direction = .outgoing && !edge.isPrivate).map (·.peer)

def dependents (graph : Graph) (name : String) : List String :=
  ((graph.edgesOf name).toList.filter (·.direction = .outgoing)).map (·.peer)

/-- The pending names and all that public dependents lead to from there.  Names are taken from
`remaining`, so each is found once however often it is met. -/
def reach (graph : Graph) (remaining : Names) (pending : List String) : List String :=
  match pending with
  | [] => []
  | name :: others =>
    if name ∈ remaining then
      name :: graph.reach (remaining.erase name) (graph.publicDependents name ++ others)
    else graph.reach remaining others
termination_by (remaining.size, pending.length)
decreasing_by
  · exact .left _ _ (Names.size_erase_lt ‹name ∈ remaining›)
  · exact .right _ (Nat.lt_succ_self _)

/-- The classes whose surface may change with that of `root`.  Only classes with a node have
dependents to go on to. -/
def surfaceChanges (graph : Graph) (root : String) : List String :=
  graph.reach (Names.ofList (root :: graph.classNames)) [root]

/-- The classes to compile again when the surface of `root` changes. -/
def impact (graph : Graph) (root : String) : Names :=
  (Names.ofList ((graph.surfaceChanges root).flatMap graph.dependents)).erase root

end AbiBuild.Dependency.Graph
