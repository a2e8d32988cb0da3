import AbiBuild.Proofs.Dependency.Stored

/-!
# What a stored form stands for

A stored form is read by meaning.  Positions only matter for the names that they lead to, and what
several nodes of one name hold is put together.
-/

namespace AbiBuild.Dependency

namespace StoredGraph

def edge? (names : List String) (stored : StoredEdge) : Option Edge :=
  names[stored.peer.toNat]?.map (⟨stored.direction, stored.isPrivate, ·⟩)

/-- Every position is in the pool. -/
def Indexed (stored : StoredGraph) : Prop :=
  ∀ node ∈ stored.nodes, node.name.toNat < stored.names.length ∧
    ∀ edge ∈ node.edges, edge.peer.toNat < stored.names.length

def HasNode (stored : StoredGraph) (name : String) : Prop :=
  ∃ node ∈ stored.nodes, stored.names[node.name.toNat]? = some name

def HasEdge (stored : StoredGraph) (name : String) (edge : Edge) : Prop :=
  ∃ node ∈ stored.nodes, stored.names[node.name.toNat]? = some name ∧
    ∃ written ∈ node.edges, edge? stored.names written = some edge

end StoredGraph

namespace Graph

open StoredGraph

theorem nameAt_eq_ok {names : List String} {index : UInt32}
    (inside : index.toNat < names.length) :
    nameAt names.toArray index = .ok names[index.toNat] := by
  rw [nameAt, List.getElem?_toArray, List.getElem?_eq_getElem inside]

private theorem loadEdges_eq_ok {names : List String} (owner : String) {edges : List StoredEdge}
    (inside : ∀ edge ∈ edges, edge.peer.toNat < names.length) (graph : Graph) :
    edges.foldlM (loadEdge names.toArray owner) graph =
      .ok ((edges.filterMap (edge? names)).foldl (·.insertEdge owner ·) graph) := by
  induction edges generalizing graph with
  | nil => rfl
  | cons edge edges ih =>
      rw [List.forall_mem_cons] at inside
      have peer : names[edge.peer.toNat]? = some names[edge.peer.toNat] :=
        List.getElem?_eq_getElem inside.1
      have load : loadEdge names.toArray owner graph edge =
          .ok (graph.insertEdge owner ⟨edge.direction, edge.isPrivate, names[edge.peer.toNat]⟩) := by
        rw [loadEdge, nameAt_eq_ok inside.1]
        rfl
      have stands : edge? names edge =
          some ⟨edge.direction, edge.isPrivate, names[edge.peer.toNat]⟩ := by
        rw [edge?, peer, Option.map_some]
      rw [List.foldlM_cons, load, List.filterMap_cons_some stands, List.foldl_cons]
      exact ih inside.2 _

private theorem loadNode_eq_ok {names : List String} {node : StoredNode}
    (owner : node.name.toNat < names.length)
    (peers : ∀ edge ∈ node.edges, edge.peer.toNat < names.length) (graph : Graph) :
    loadNode names.toArray graph node =
      .ok ((node.edges.filterMap (edge? names)).foldl (·.insertEdge names[node.name.toNat] ·)
        (graph.ensureNode names[node.name.toNat])) := by
  rw [loadNode, nameAt_eq_ok owner]
  exact loadEdges_eq_ok _ peers _

private theorem exists_loadNodes {names : List String} {nodes : List StoredNode}
    (inside : ∀ node ∈ nodes, node.name.toNat < names.length ∧
      ∀ edge ∈ node.edges, edge.peer.toNat < names.length) (graph : Graph) :
    ∃ loaded, nodes.foldlM (loadNode names.toArray) graph = .ok loaded ∧
      (∀ name, loaded.contains name ↔
        (∃ node ∈ nodes, names[node.name.toNat]? = some name) ∨ graph.contains name) ∧
      ∀ name edge, edge ∈ loaded.edgesOf name ↔
        (∃ node ∈ nodes, names[node.name.toNat]? = some name ∧
          ∃ written ∈ node.edges, edge? names written = some edge) ∨
        edge ∈ graph.edgesOf name := by
  induction nodes generalizing graph with
  | nil => exact ⟨graph, rfl, by simp, by simp⟩
  | cons node nodes ih =>
      rw [List.forall_mem_cons] at inside
      obtain ⟨⟨owner, peers⟩, others⟩ := inside
      obtain ⟨loaded, loads, contains, edges⟩ := ih others
        ((node.edges.filterMap (edge? names)).foldl (·.insertEdge names[node.name.toNat] ·)
          (graph.ensureNode names[node.name.toNat]))
      have here : names[node.name.toNat]? = some names[node.name.toNat] :=
        List.getElem?_eq_getElem owner
      refine ⟨loaded, ?_, ?_, ?_⟩
      · rw [List.foldlM_cons, loadNode_eq_ok owner peers]
        exact loads
      · intro name
        rw [contains, contains_foldl_insertEdge _ _ _ _ (by simp), contains_ensureNode]
        simp only [List.mem_cons, exists_eq_or_imp, here, Option.some.injEq]
        rw [@eq_comm _ name, or_left_comm, or_assoc]
      · intro name edge
        rw [edges, mem_edgesOf_foldl_insertEdge, mem_edgesOf_ensureNode, List.mem_filterMap]
        simp only [List.mem_cons, exists_eq_or_imp, here, Option.some.injEq]
        rw [@eq_comm _ name, or_left_comm, or_assoc]

/-- A stored form of the right version whose positions are in its pool loads as the graph that it
stands for. -/
theorem exists_ofStored {stored : StoredGraph} (version : stored.version = storedVersion)
    (indexed : stored.Indexed) :
    ∃ graph, ofStored stored = .ok graph ∧ (∀ name, graph.contains name ↔ stored.HasNode name) ∧
      ∀ name edge, edge ∈ graph.edgesOf name ↔ stored.HasEdge name edge := by
  obtain ⟨graph, loads, contains, edges⟩ := exists_loadNodes indexed empty
  refine ⟨graph, ?_, ?_, ?_⟩
  · rw [ofStored, if_pos version]
    exact loads
  · simpa [HasNode] using contains
  · simpa [HasEdge] using edges

theorem ofStored_eq_ok {stored : StoredGraph} {graph : Graph}
    (version : stored.version = storedVersion) (indexed : stored.Indexed)
    (nodes : ∀ name, stored.HasNode name ↔ graph.contains name)
    (edges : ∀ name edge, stored.HasEdge name edge ↔ edge ∈ graph.edgesOf name) :
    ofStored stored = .ok graph := by
  obtain ⟨loaded, loads, hasNode, hasEdge⟩ := exists_ofStored version indexed
  have same : loaded = graph := by
    apply ext_edges
    · intro name
      rw [Bool.eq_iff_iff, hasNode, nodes]
    · intro name edge
      rw [hasEdge, edges]
  rw [loads, same]

end Graph

end AbiBuild.Dependency
