import AbiBuild.Dependency.Graph

/-!
# Graphs by their edges

Two questions say all there is to know of a graph: which names have a node, and which edges lie at
a name.  Each operation is described by its answers to both, so that no later proof opens it.
-/

namespace AbiBuild.Dependency.Graph

theorem contains_eq_isSome (graph : Graph) (name : String) :
    graph.contains name = graph.nodes[name]?.isSome := by
  simp [contains]

theorem contains_of_mem_edgesOf {graph : Graph} {name : String} {edge : Edge}
    (member : edge ∈ graph.edgesOf name) : graph.contains name := by
  rw [contains_eq_isSome]
  cases hnode : graph.nodes[name]? with
  | none => simp [edgesOf, hnode] at member
  | some edges => rfl

theorem ext_edges {left right : Graph}
    (nodes : ∀ name, left.contains name = right.contains name)
    (edges : ∀ name edge, edge ∈ left.edgesOf name ↔ edge ∈ right.edgesOf name) :
    left = right := by
  suffices h : left.nodes = right.nodes by
    cases left
    cases right
    exact congrArg Graph.mk h
  apply Std.ExtTreeMap.ext_getElem?
  intro name
  have hnodes := nodes name
  have hedges := edges name
  rw [contains_eq_isSome, contains_eq_isSome] at hnodes
  cases hleft : left.nodes[name]? with
  | none =>
      cases hright : right.nodes[name]? with
      | none => rfl
      | some found => simp [hleft, hright] at hnodes
  | some found =>
      cases hright : right.nodes[name]? with
      | none => simp [hleft, hright] at hnodes
      | some other =>
          simp only [edgesOf, hleft, hright, Option.getD_some] at hedges
          exact congrArg some (Std.ExtTreeSet.ext_mem fun edge => hedges edge)

@[simp] theorem contains_empty (name : String) : empty.contains name = false := by
  simp [empty, contains]

@[simp] theorem mem_edgesOf_empty (name : String) (edge : Edge) :
    edge ∉ empty.edgesOf name := by
  simp [empty, edgesOf]

/-! ## Single edges -/

@[simp] theorem contains_ensureNode (graph : Graph) (owner name : String) :
    (graph.ensureNode owner).contains name ↔ name = owner ∨ graph.contains name := by
  simp only [contains_eq_isSome, ensureNode, Std.ExtTreeMap.getElem?_alter,
    Std.LawfulEqCmp.compare_eq_iff_eq]
  by_cases h : owner = name
  · simp [h]
  · simp [h, Ne.symm h]

@[simp] theorem mem_edgesOf_ensureNode (graph : Graph) (owner name : String) (edge : Edge) :
    edge ∈ (graph.ensureNode owner).edgesOf name ↔ edge ∈ graph.edgesOf name := by
  simp only [edgesOf, ensureNode, Std.ExtTreeMap.getElem?_alter,
    Std.LawfulEqCmp.compare_eq_iff_eq]
  by_cases h : owner = name
  · simp [h]
  · simp [h]

@[simp] theorem contains_insertEdge (graph : Graph) (owner name : String) (edge : Edge) :
    (graph.insertEdge owner edge).contains name ↔ name = owner ∨ graph.contains name := by
  simp only [contains_eq_isSome, insertEdge, Std.ExtTreeMap.getElem?_alter,
    Std.LawfulEqCmp.compare_eq_iff_eq]
  by_cases h : owner = name
  · simp [h]
  · simp [h, Ne.symm h]

@[simp] theorem mem_edgesOf_insertEdge (graph : Graph) (owner name : String) (added edge : Edge) :
    edge ∈ (graph.insertEdge owner added).edgesOf name ↔
      (name = owner ∧ edge = added) ∨ edge ∈ graph.edgesOf name := by
  simp only [edgesOf, insertEdge, Std.ExtTreeMap.getElem?_alter,
    Std.LawfulEqCmp.compare_eq_iff_eq]
  by_cases h : owner = name
  · simp [h, Std.ExtTreeSet.mem_insert, @eq_comm _ added edge]
  · simp [h, Ne.symm h]

@[simp] theorem contains_eraseEdge (graph : Graph) (owner name : String) (edge : Edge) :
    (graph.eraseEdge owner edge).contains name = graph.contains name := by
  simp only [contains_eq_isSome, eraseEdge, Std.ExtTreeMap.getElem?_alter,
    Std.LawfulEqCmp.compare_eq_iff_eq]
  by_cases h : owner = name
  · simp [h]
  · simp [h]

@[simp] theorem mem_edgesOf_eraseEdge (graph : Graph) (owner name : String) (dropped edge : Edge) :
    edge ∈ (graph.eraseEdge owner dropped).edgesOf name ↔
      edge ∈ graph.edgesOf name ∧ ¬(name = owner ∧ edge = dropped) := by
  simp only [edgesOf, eraseEdge, Std.ExtTreeMap.getElem?_alter,
    Std.LawfulEqCmp.compare_eq_iff_eq]
  by_cases h : owner = name
  · subst h
    cases hnode : graph.nodes[owner]? with
    | none => simp
    | some edges => simp [Std.ExtTreeSet.mem_erase, and_comm, @eq_comm _ dropped edge]
  · simp [h, Ne.symm h]

/-! ## Dependencies -/

def DependsOn (graph : Graph) (name type : String) (isPrivate : Bool) : Prop :=
  (⟨.incoming, isPrivate, type⟩ : Edge) ∈ graph.edgesOf name

def dependencyAt (owner name : String) (edge : Edge) : Option (String × Bool) :=
  match edge.direction with
  | .incoming => if name = owner then some (edge.peer, edge.isPrivate) else none
  | .outgoing => if edge.peer = owner then some (name, edge.isPrivate) else none

theorem dependencyAt_eq_some_iff {owner name type : String} {isPrivate : Bool} {edge : Edge} :
    dependencyAt owner name edge = some (type, isPrivate) ↔
      (name = owner ∧ edge = ⟨.incoming, isPrivate, type⟩) ∨
        (name = type ∧ edge = ⟨.outgoing, isPrivate, owner⟩) := by
  obtain ⟨direction, found, peer⟩ := edge
  cases direction with
  | incoming => by_cases h : name = owner <;> simp [dependencyAt, h, and_comm]
  | outgoing =>
      by_cases h : peer = owner
      · simp [dependencyAt, h]
      · simp [dependencyAt, h]

@[simp] theorem contains_link (graph : Graph) (dependent dependsOn name : String)
    (isPrivate : Bool) :
    (graph.link dependent dependsOn isPrivate).contains name ↔
      name = dependsOn ∨ name = dependent ∨ graph.contains name := by
  simp [link]

theorem mem_edgesOf_link {graph : Graph} {dependent dependsOn name : String}
    {isPrivate : Bool} {edge : Edge} :
    edge ∈ (graph.link dependent dependsOn isPrivate).edgesOf name ↔
      dependencyAt dependent name edge = some (dependsOn, isPrivate) ∨
        edge ∈ graph.edgesOf name := by
  rw [link, mem_edgesOf_insertEdge, mem_edgesOf_insertEdge, dependencyAt_eq_some_iff, ← or_assoc]
  simp only [or_comm]

@[simp] theorem contains_unlink (graph : Graph) (dependent dependsOn name : String)
    (isPrivate : Bool) :
    (graph.unlink dependent dependsOn isPrivate).contains name = graph.contains name := by
  simp [unlink]

theorem mem_edgesOf_unlink {graph : Graph} {dependent dependsOn name : String}
    {isPrivate : Bool} {edge : Edge} :
    edge ∈ (graph.unlink dependent dependsOn isPrivate).edgesOf name ↔
      dependencyAt dependent name edge ≠ some (dependsOn, isPrivate) ∧
        edge ∈ graph.edgesOf name := by
  rw [unlink, mem_edgesOf_eraseEdge, mem_edgesOf_eraseEdge, Ne, dependencyAt_eq_some_iff, not_or,
    and_assoc, and_comm]

theorem isReal_iff (graph : Graph) (name : String) :
    graph.isReal name ↔ ∃ type isPrivate, graph.DependsOn name type isPrivate := by
  simp only [isReal, DependsOn, List.any_eq_true, Std.ExtTreeSet.mem_toList, decide_eq_true_eq]
  constructor
  · rintro ⟨⟨direction, isPrivate, peer⟩, member, rfl⟩
    exact ⟨peer, isPrivate, member⟩
  · rintro ⟨type, isPrivate, member⟩
    exact ⟨_, member, rfl⟩

/-! ## Linking a whole surface -/

theorem contains_foldl_link (references : List (String × Bool)) (graph : Graph)
    (owner name : String) (hasNode : graph.contains owner) :
    (references.foldl (fun graph (type, isPrivate) => graph.link owner type isPrivate)
        graph).contains name ↔
      (∃ isPrivate, (name, isPrivate) ∈ references) ∨ graph.contains name := by
  induction references generalizing graph with
  | nil => simp
  | cons reference references ih =>
      obtain ⟨type, isPrivate⟩ := reference
      rw [List.foldl_cons, ih _ (by simp)]
      simp only [contains_link, List.mem_cons, Prod.mk.injEq]
      constructor
      · rintro (⟨found, member⟩ | rfl | rfl | member)
        · exact .inl ⟨found, .inr member⟩
        · exact .inl ⟨isPrivate, .inl ⟨rfl, rfl⟩⟩
        · exact .inr hasNode
        · exact .inr member
      · rintro (⟨found, ⟨rfl, rfl⟩ | member⟩ | member)
        · exact .inr (.inl rfl)
        · exact .inl ⟨found, member⟩
        · exact .inr (.inr (.inr member))

theorem mem_edgesOf_foldl_link (references : List (String × Bool)) (graph : Graph)
    (owner name : String) (edge : Edge) :
    edge ∈ (references.foldl (fun graph (type, isPrivate) => graph.link owner type isPrivate)
        graph).edgesOf name ↔
      (∃ reference ∈ references, dependencyAt owner name edge = some reference) ∨
        edge ∈ graph.edgesOf name := by
  induction references generalizing graph with
  | nil => simp
  | cons reference references ih =>
      rw [List.foldl_cons, ih, mem_edgesOf_link, ← or_assoc]
      simp only [List.mem_cons, exists_eq_or_imp]
      rw [or_comm (a := ∃ _, _)]

theorem contains_linkAll (graph : Graph) (abi : SourceAbi) (name : String) :
    (graph.linkAll abi).contains name ↔
      (∃ isPrivate, (name, isPrivate) ∈ abi.referencedTypes) ∨ name = abi.className ∨
        graph.contains name := by
  rw [linkAll, contains_foldl_link _ _ _ _ (by simp)]
  simp

theorem mem_edgesOf_linkAll {graph : Graph} {abi : SourceAbi} {name : String} {edge : Edge} :
    edge ∈ (graph.linkAll abi).edgesOf name ↔
      (∃ reference ∈ abi.referencedTypes, dependencyAt abi.className name edge = some reference) ∨
        edge ∈ graph.edgesOf name := by
  rw [linkAll, mem_edgesOf_foldl_link, mem_edgesOf_ensureNode]

/-! ## Removing a class -/

private theorem contains_foldl_eraseEdge (dropped : List Edge) (graph : Graph)
    (owner name : String) :
    (dropped.foldl (fun graph edge => graph.eraseEdge edge.peer (edge.counterpart owner))
        graph).contains name = graph.contains name := by
  induction dropped generalizing graph with
  | nil => rfl
  | cons edge dropped ih => rw [List.foldl_cons, ih, contains_eraseEdge]

private theorem mem_edgesOf_foldl_eraseEdge (dropped : List Edge) (graph : Graph)
    (owner name : String) (edge : Edge) :
    edge ∈ (dropped.foldl (fun graph edge => graph.eraseEdge edge.peer (edge.counterpart owner))
        graph).edgesOf name ↔
      edge ∈ graph.edgesOf name ∧
        ∀ other ∈ dropped, ¬(name = other.peer ∧ edge = other.counterpart owner) := by
  induction dropped generalizing graph with
  | nil => simp
  | cons first dropped ih =>
      rw [List.foldl_cons, ih]
      simp only [mem_edgesOf_eraseEdge, List.forall_mem_cons, and_assoc]

@[simp] theorem contains_erase_nodes (graph : Graph) (owner name : String) :
    (Graph.mk (graph.nodes.erase owner)).contains name ↔ name ≠ owner ∧ graph.contains name := by
  simp only [contains_eq_isSome, Std.ExtTreeMap.getElem?_erase,
    Std.LawfulEqCmp.compare_eq_iff_eq]
  by_cases h : owner = name
  · simp [h]
  · simp [h, Ne.symm h]

@[simp] theorem mem_edgesOf_erase_nodes (graph : Graph) (owner name : String) (edge : Edge) :
    edge ∈ (Graph.mk (graph.nodes.erase owner)).edgesOf name ↔
      name ≠ owner ∧ edge ∈ graph.edgesOf name := by
  simp only [edgesOf, Std.ExtTreeMap.getElem?_erase, Std.LawfulEqCmp.compare_eq_iff_eq]
  by_cases h : owner = name
  · simp [h]
  · simp [h, Ne.symm h]

theorem contains_delete (graph : Graph) (owner name : String) :
    (graph.delete owner).contains name ↔ name ≠ owner ∧ graph.contains name := by
  cases hnode : graph.nodes[owner]? with
  | none =>
      have missing : graph.contains owner = false := by simp [contains_eq_isSome, hnode]
      simp only [delete, delete?, hnode, Option.getD_none]
      constructor
      · intro member
        exact ⟨fun same => by simp [same, missing] at member, member⟩
      · exact fun member => member.2
  | some edges =>
      simp only [delete, delete?, hnode, Option.getD_some]
      rw [contains_foldl_eraseEdge, contains_erase_nodes]

theorem mem_edgesOf_delete (graph : Graph) (owner name : String) (edge : Edge) :
    edge ∈ (graph.delete owner).edgesOf name ↔
      name ≠ owner ∧ edge ∈ graph.edgesOf name ∧
        ∀ other ∈ graph.edgesOf owner, ¬(name = other.peer ∧ edge = other.counterpart owner) := by
  cases hnode : graph.nodes[owner]? with
  | none =>
      have missing : ∀ found, found ∉ graph.edgesOf owner := by simp [edgesOf, hnode]
      simp only [delete, delete?, hnode, Option.getD_none]
      constructor
      · intro member
        refine ⟨fun same => missing edge (same ▸ member), member, ?_⟩
        exact fun other found => absurd found (missing other)
      · exact fun member => member.2.1
  | some edges =>
      have hedges : graph.edgesOf owner = edges := by simp [edgesOf, hnode]
      simp only [delete, delete?, hnode, Option.getD_some]
      rw [mem_edgesOf_foldl_eraseEdge, mem_edgesOf_erase_nodes, hedges]
      simp only [Std.ExtTreeSet.mem_toList, and_assoc]

end AbiBuild.Dependency.Graph
