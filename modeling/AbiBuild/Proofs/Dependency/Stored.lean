import AbiBuild.Dependency.Stored
import AbiBuild.Proofs.Abi
import AbiBuild.Proofs.Collections
import AbiBuild.Proofs.Dependency.Edges

/-!
# Graphs survive their stored form

The pool holds every name of a graph, so each position in a stored node leads back to its name.
-/

namespace AbiBuild.Dependency.Graph

/-! ## Positions in the pool -/

theorem mem_pool (graph : Graph) (name : String) :
    name ∈ graph.pool ↔ graph.contains name ∨ ∃ owner, ∃ edge ∈ graph.edgesOf owner,
      edge.peer = name := by
  simp only [pool, Std.ExtTreeSet.mem_toList, Names.mem_ofList, List.mem_flatMap, Prod.exists,
    List.mem_cons, List.mem_map, Std.ExtTreeMap.mem_toList_iff_getElem?_eq_some]
  constructor
  · rintro ⟨owner, edges, hnode, rfl | ⟨edge, member, rfl⟩⟩
    · exact .inl (by simp [contains_eq_isSome, hnode])
    · exact .inr ⟨owner, edge, by simpa [edgesOf, hnode] using member, rfl⟩
  · rintro (hasNode | ⟨owner, edge, member, rfl⟩)
    · rw [contains_eq_isSome] at hasNode
      obtain ⟨edges, hnode⟩ := Option.isSome_iff_exists.mp hasNode
      exact ⟨name, edges, hnode, .inl rfl⟩
    · have hasNode := contains_of_mem_edgesOf member
      rw [contains_eq_isSome] at hasNode
      obtain ⟨edges, hnode⟩ := Option.isSome_iff_exists.mp hasNode
      exact ⟨owner, edges, hnode, .inr ⟨edge, by simpa [edgesOf, hnode] using member, rfl⟩⟩

theorem getElem?_indexIn {names : List String} (short : names.length ≤ 2 ^ 32) {name : String}
    (listed : name ∈ names) : names[(indexIn names name).toNat]? = some name := by
  have inside := List.idxOf_lt_length_of_mem listed
  have position : (indexIn names name).toNat = names.idxOf name := by
    rw [indexIn, UInt32.toNat_ofNat', Nat.mod_eq_of_lt (by omega)]
  rw [position, List.getElem?_eq_getElem inside, List.getElem_idxOf]

theorem nameAt_indexIn {names : List String} (short : names.length ≤ 2 ^ 32) {name : String}
    (listed : name ∈ names) : nameAt names.toArray (indexIn names name) = .ok name := by
  rw [nameAt, List.getElem?_toArray, getElem?_indexIn short listed]

/-! ## Loading what was stored -/

def insertNode (graph : Graph) (owner : String) (edges : Edges) : Graph :=
  edges.toList.foldl (·.insertEdge owner ·) (graph.ensureNode owner)

theorem contains_foldl_insertEdge (edges : List Edge) (graph : Graph) (owner name : String)
    (hasNode : graph.contains owner) :
    (edges.foldl (·.insertEdge owner ·) graph).contains name ↔ graph.contains name := by
  induction edges generalizing graph with
  | nil => rfl
  | cons edge edges ih =>
      rw [List.foldl_cons, ih _ (by simp), contains_insertEdge]
      constructor
      · rintro (rfl | member)
        · exact hasNode
        · exact member
      · exact .inr

theorem mem_edgesOf_foldl_insertEdge (edges : List Edge) (graph : Graph) (owner name : String)
    (edge : Edge) :
    edge ∈ (edges.foldl (·.insertEdge owner ·) graph).edgesOf name ↔
      (name = owner ∧ edge ∈ edges) ∨ edge ∈ graph.edgesOf name := by
  induction edges generalizing graph with
  | nil => simp
  | cons first edges ih =>
      rw [List.foldl_cons, ih, mem_edgesOf_insertEdge, List.mem_cons, and_or_left, or_assoc,
        or_left_comm]

@[simp] theorem contains_insertNode (graph : Graph) (owner name : String) (edges : Edges) :
    (graph.insertNode owner edges).contains name ↔ name = owner ∨ graph.contains name := by
  rw [insertNode, contains_foldl_insertEdge _ _ _ _ (by simp), contains_ensureNode]

@[simp] theorem mem_edgesOf_insertNode (graph : Graph) (owner name : String) (edges : Edges)
    (edge : Edge) :
    edge ∈ (graph.insertNode owner edges).edgesOf name ↔
      (name = owner ∧ edge ∈ edges) ∨ edge ∈ graph.edgesOf name := by
  rw [insertNode, mem_edgesOf_foldl_insertEdge, mem_edgesOf_ensureNode, Std.ExtTreeSet.mem_toList]

private theorem loadNode_stored {names : List String} (short : names.length ≤ 2 ^ 32)
    {owner : String} {edges : Edges} (ownerListed : owner ∈ names)
    (peersListed : ∀ edge ∈ edges, edge.peer ∈ names) (graph : Graph) :
    loadNode names.toArray graph ⟨indexIn names owner, edges.toList.map fun edge =>
      ⟨edge.direction, edge.isPrivate, indexIn names edge.peer⟩⟩ =
      .ok (graph.insertNode owner edges) := by
  have load : loadNode names.toArray graph ⟨indexIn names owner, edges.toList.map fun edge =>
      ⟨edge.direction, edge.isPrivate, indexIn names edge.peer⟩⟩ =
      edges.toList.foldlM (fun graph edge => loadEdge names.toArray owner graph
        ⟨edge.direction, edge.isPrivate, indexIn names edge.peer⟩) (graph.ensureNode owner) := by
    rw [loadNode, nameAt_indexIn short ownerListed, ← List.foldlM_map]
    rfl
  rw [load, insertNode]
  refine foldlM_eq_ok ?_ _
  intro edge member state
  rw [Std.ExtTreeSet.mem_toList] at member
  rw [loadEdge, nameAt_indexIn short (peersListed edge member)]
  rfl

private theorem contains_foldl_insertNode (nodes : List (String × Edges)) (graph : Graph)
    (name : String) :
    (nodes.foldl (fun graph (owner, edges) => graph.insertNode owner edges) graph).contains name ↔
      (∃ edges, (name, edges) ∈ nodes) ∨ graph.contains name := by
  induction nodes generalizing graph with
  | nil => simp
  | cons node nodes ih =>
      obtain ⟨owner, edges⟩ := node
      rw [List.foldl_cons, ih, contains_insertNode, ← or_assoc]
      simp only [List.mem_cons, Prod.mk.injEq, exists_or, exists_and_left, exists_eq, and_true]
      rw [or_comm (a := name = owner)]

private theorem mem_edgesOf_foldl_insertNode (nodes : List (String × Edges)) (graph : Graph)
    (name : String) (edge : Edge) :
    edge ∈ (nodes.foldl (fun graph (owner, edges) => graph.insertNode owner edges)
        graph).edgesOf name ↔
      (∃ edges, (name, edges) ∈ nodes ∧ edge ∈ edges) ∨ edge ∈ graph.edgesOf name := by
  induction nodes generalizing graph with
  | nil => simp
  | cons node nodes ih =>
      obtain ⟨owner, edges⟩ := node
      rw [List.foldl_cons, ih, mem_edgesOf_insertNode, ← or_assoc]
      refine or_congr_left ?_
      constructor
      · rintro (⟨found, member, hedge⟩ | ⟨rfl, hedge⟩)
        · exact ⟨found, .tail _ member, hedge⟩
        · exact ⟨edges, .head _, hedge⟩
      · rintro ⟨found, member, hedge⟩
        rcases List.mem_cons.mp member with heq | member
        · obtain ⟨rfl, rfl⟩ := Prod.mk.inj heq
          exact .inr ⟨rfl, hedge⟩
        · exact .inl ⟨found, member, hedge⟩

theorem foldl_insertNode_toList (graph : Graph) :
    graph.nodes.toList.foldl (fun graph (owner, edges) => graph.insertNode owner edges) empty =
      graph := by
  apply ext_edges
  · intro name
    rw [Bool.eq_iff_iff, contains_foldl_insertNode, contains_eq_isSome graph,
      Option.isSome_iff_exists]
    simp [Std.ExtTreeMap.mem_toList_iff_getElem?_eq_some]
  · intro name edge
    rw [mem_edgesOf_foldl_insertNode]
    simp only [Std.ExtTreeMap.mem_toList_iff_getElem?_eq_some, mem_edgesOf_empty, or_false]
    rw [edgesOf]
    cases graph.nodes[name]? <;> simp

theorem ofStored_toStored (graph : Graph) (short : graph.pool.length ≤ 2 ^ 32) :
    ofStored graph.toStored = .ok graph := by
  rw [ofStored, toStored, if_pos rfl, List.foldlM_map]
  refine (foldlM_eq_ok ?_ empty).trans (congrArg Except.ok graph.foldl_insertNode_toList)
  rintro ⟨owner, edges⟩ listed state
  have hnode := Std.ExtTreeMap.mem_toList_iff_getElem?_eq_some.mp listed
  refine loadNode_stored short ?_ ?_ state
  · exact (graph.mem_pool owner).mpr (.inl (by simp [contains_eq_isSome, hnode]))
  · intro edge member
    exact (graph.mem_pool edge.peer).mpr
      (.inr ⟨owner, edge, by simpa [edgesOf, hnode] using member, rfl⟩)

end AbiBuild.Dependency.Graph
