import AbiBuild.Proofs.Dependency.Loading
import Mathlib.Logic.Relation

/-!
# Layouts of one graph

A graph has many stored forms.  They may list its nodes and edges in any order, list edges more than
once, cut a node into several, and keep any names besides in the pool.  All of them load as the same
graph, and a form loads at all when its positions are in its pool.
-/

namespace AbiBuild.Dependency

/-! ## When a form loads -/

namespace Graph

theorem nameAt_eq_ok_iff {names : List String} {index : UInt32} {name : String} :
    nameAt names.toArray index = .ok name ↔ names[index.toNat]? = some name := by
  rw [nameAt, List.getElem?_toArray]
  cases names[index.toNat]? <;> simp

private theorem forall_of_foldlM_eq_ok {α β ε : Type} {step : β → α → Except ε β} {needs : α → Prop}
    {values : List α} {start last : β}
    (each : ∀ value state next, step state value = .ok next → needs value)
    (succeeds : values.foldlM step start = .ok last) : ∀ value ∈ values, needs value := by
  induction values generalizing start with
  | nil => simp
  | cons value values ih =>
      rw [List.foldlM_cons, bind_eq_ok] at succeeds
      obtain ⟨next, first, rest⟩ := succeeds
      rw [List.forall_mem_cons]
      exact ⟨each value start next first, ih rest⟩

private theorem inside_of_loadEdge {names : List String} {owner : String} (edge : StoredEdge)
    (graph next : Graph) (loads : loadEdge names.toArray owner graph edge = .ok next) :
    edge.peer.toNat < names.length := by
  rw [loadEdge, bind_eq_ok] at loads
  obtain ⟨peer, found, -⟩ := loads
  exact (List.getElem?_eq_some_iff.mp (nameAt_eq_ok_iff.mp found)).1

private theorem inside_of_loadNode {names : List String} (node : StoredNode) (graph next : Graph)
    (loads : loadNode names.toArray graph node = .ok next) :
    node.name.toNat < names.length ∧ ∀ edge ∈ node.edges, edge.peer.toNat < names.length := by
  rw [loadNode, bind_eq_ok] at loads
  obtain ⟨owner, found, edges⟩ := loads
  exact ⟨(List.getElem?_eq_some_iff.mp (nameAt_eq_ok_iff.mp found)).1,
    forall_of_foldlM_eq_ok inside_of_loadEdge edges⟩

theorem indexed_of_ofStored {stored : StoredGraph} {graph : Graph}
    (loads : ofStored stored = .ok graph) : stored.version = storedVersion ∧ stored.Indexed := by
  rw [ofStored] at loads
  split at loads
  next version => exact ⟨version, forall_of_foldlM_eq_ok inside_of_loadNode loads⟩
  next => cases loads

theorem stands_of_ofStored {stored : StoredGraph} {graph : Graph}
    (loads : ofStored stored = .ok graph) :
    (∀ name, graph.contains name ↔ stored.HasNode name) ∧
      ∀ name edge, edge ∈ graph.edgesOf name ↔ stored.HasEdge name edge := by
  obtain ⟨version, indexed⟩ := indexed_of_ofStored loads
  obtain ⟨loaded, loads', stands⟩ := exists_ofStored version indexed
  obtain rfl := Except.ok.inj (loads.symm.trans loads')
  exact stands

end Graph

/-! ## Changes without a meaning -/

def StoredEdge.renamed (rename : UInt32 → UInt32) (edge : StoredEdge) : StoredEdge :=
  { edge with peer := rename edge.peer }

def StoredNode.renamed (rename : UInt32 → UInt32) (node : StoredNode) : StoredNode :=
  ⟨rename node.name, node.edges.map (·.renamed rename)⟩

namespace StoredGraph

/-- One stored form becomes another that differs from it in its layout alone. -/
inductive Rearranges : StoredGraph → StoredGraph → Prop
  /-- The nodes come in another order. -/
  | nodes {version : UInt32} {names : List String} {nodes others : List StoredNode}
      (perm : others.Perm nodes) :
      Rearranges ⟨version, names, nodes⟩ ⟨version, names, others⟩
  /-- The edges of a node come in another order, or another number of times. -/
  | edges {version name : UInt32} {names : List String} {before after : List StoredNode}
      {edges others : List StoredEdge} (same : ∀ edge, edge ∈ others ↔ edge ∈ edges) :
      Rearranges ⟨version, names, before ++ ⟨name, edges⟩ :: after⟩
        ⟨version, names, before ++ ⟨name, others⟩ :: after⟩
  /-- The edges of a node are cut into two entries. -/
  | cut {version name : UInt32} {names : List String} {before after : List StoredNode}
      {first second : List StoredEdge} :
      Rearranges ⟨version, names, before ++ ⟨name, first ++ second⟩ :: after⟩
        ⟨version, names, before ++ ⟨name, first⟩ :: ⟨name, second⟩ :: after⟩
  /-- The pool comes in another order, and positions follow their names.  Where a name is in the pool
  more than once, they may go to any of its copies. -/
  | pool {version : UInt32} {names others : List String} {nodes : List StoredNode}
      {rename : UInt32 → UInt32} (perm : others.Perm names)
      (follows : ∀ index, index.toNat < names.length →
        others[(rename index).toNat]? = names[index.toNat]?) :
      Rearranges ⟨version, names, nodes⟩ ⟨version, others, nodes.map (·.renamed rename)⟩
  /-- A name is added to the pool, which may hold it already. -/
  | added {version : UInt32} {names : List String} {nodes : List StoredNode} (name : String) :
      Rearranges ⟨version, names, nodes⟩ ⟨version, names ++ [name], nodes⟩

structure Agrees (stored other : StoredGraph) : Prop where
  version : other.version = stored.version
  indexed : other.Indexed
  nodes : ∀ name, other.HasNode name ↔ stored.HasNode name
  edges : ∀ name edge, other.HasEdge name edge ↔ stored.HasEdge name edge

theorem edge?_renamed {names others : List String} {rename : UInt32 → UInt32} {edge : StoredEdge}
    (follows : others[(rename edge.peer).toNat]? = names[edge.peer.toNat]?) :
    edge? others (edge.renamed rename) = edge? names edge := by
  rw [edge?, edge?, StoredEdge.renamed, follows]

private theorem agrees_renamed {version : UInt32} {names others : List String}
    {nodes : List StoredNode} {rename : UInt32 → UInt32}
    (indexed : Indexed ⟨version, names, nodes⟩)
    (follows : ∀ index, index.toNat < names.length →
      others[(rename index).toNat]? = names[index.toNat]?) :
    Agrees ⟨version, names, nodes⟩ ⟨version, others, nodes.map (·.renamed rename)⟩ := by
  have inside : ∀ index, index.toNat < names.length → (rename index).toNat < others.length := by
    intro index here
    have found := follows index here
    rw [List.getElem?_eq_getElem here] at found
    exact (List.getElem?_eq_some_iff.mp found).1
  refine ⟨rfl, ?_, ?_, ?_⟩
  · intro node member
    obtain ⟨node, listed, rfl⟩ := List.mem_map.mp member
    obtain ⟨owner, peers⟩ := indexed node listed
    refine ⟨inside _ owner, fun edge member => ?_⟩
    obtain ⟨edge, held, rfl⟩ := List.mem_map.mp member
    exact inside _ (peers edge held)
  · intro name
    simp only [HasNode, List.mem_map, exists_exists_and_eq_and]
    refine exists_congr fun node => and_congr_right fun listed => ?_
    rw [StoredNode.renamed, follows _ (indexed node listed).1]
  · intro name edge
    simp only [HasEdge, List.mem_map, exists_exists_and_eq_and]
    refine exists_congr fun node => and_congr_right fun listed => ?_
    obtain ⟨owner, peers⟩ := indexed node listed
    rw [StoredNode.renamed, follows _ owner]
    simp only [List.mem_map, exists_exists_and_eq_and]
    refine and_congr_right fun _ => exists_congr fun written => and_congr_right fun held => ?_
    rw [edge?_renamed (follows _ (peers written held))]

theorem Rearranges.agrees {stored other : StoredGraph} (rearranges : Rearranges stored other)
    (indexed : stored.Indexed) : stored.Agrees other := by
  cases rearranges with
  | nodes perm =>
      refine ⟨rfl, fun node member => indexed node (perm.mem_iff.mp member), ?_, ?_⟩
      · simp only [HasNode, perm.mem_iff, implies_true]
      · simp only [HasEdge, perm.mem_iff, implies_true]
  | edges same =>
      refine ⟨rfl, ?_, ?_, ?_⟩
      · simpa only [Indexed, List.forall_mem_append, List.forall_mem_cons, same] using indexed
      · simp only [HasNode, List.mem_append, List.mem_cons, or_and_right, exists_or, exists_eq_left,
          implies_true]
      · simp only [HasEdge, List.mem_append, List.mem_cons, or_and_right, exists_or, exists_eq_left,
          same, implies_true]
  | cut =>
      refine ⟨rfl, ?_, ?_, ?_⟩
      · simp only [Indexed, List.forall_mem_append, List.forall_mem_cons] at indexed ⊢
        tauto
      · simp only [HasNode, List.mem_append, List.mem_cons, or_and_right, exists_or, exists_eq_left,
          or_self_left, implies_true]
      · simp only [HasEdge, List.mem_append, List.mem_cons, or_and_right, exists_or, exists_eq_left,
          and_or_left, or_assoc, implies_true]
  | pool perm follows => exact agrees_renamed indexed follows
  | @added version names nodes name =>
      have follows : ∀ index : UInt32, index.toNat < names.length →
          (names ++ [name])[(id index).toNat]? = names[index.toNat]? :=
        fun index inside => List.getElem?_append_left inside
      have same : nodes.map (·.renamed id) = nodes := by
        simp [StoredNode.renamed, StoredEdge.renamed]
      have agrees := agrees_renamed indexed follows
      rwa [same] at agrees

end StoredGraph

namespace Graph

open StoredGraph

theorem ofStored_of_rearranges {stored other : StoredGraph} {graph : Graph}
    (rearranges : Rearranges stored other) (loads : ofStored stored = .ok graph) :
    ofStored other = .ok graph := by
  obtain ⟨version, indexed⟩ := indexed_of_ofStored loads
  obtain ⟨nodes, edges⟩ := stands_of_ofStored loads
  have agrees := rearranges.agrees indexed
  refine ofStored_eq_ok (agrees.version.trans version) agrees.indexed ?_ ?_
  · exact fun name => (agrees.nodes name).trans (nodes name).symm
  · exact fun name edge => (agrees.edges name edge).trans (edges name edge).symm

/-- A stored form loads exactly when it has the right version and all its positions are in its pool.
It loads as the nodes and edges that its names stand for, and so does every form that differs from it
in the layout alone. -/
theorem stored_forms_are_read_by_meaning :
    (∀ stored, (∃ graph, ofStored stored = .ok graph) ↔
      stored.version = storedVersion ∧ stored.Indexed) ∧
    (∀ stored graph, ofStored stored = .ok graph →
      (∀ name, graph.contains name ↔ stored.HasNode name) ∧
        ∀ name edge, edge ∈ graph.edgesOf name ↔ stored.HasEdge name edge) ∧
    ∀ stored other graph, Relation.ReflTransGen Rearranges stored other →
      ofStored stored = .ok graph → ofStored other = .ok graph := by
  refine ⟨fun stored => ⟨?_, ?_⟩, fun stored graph => stands_of_ofStored, ?_⟩
  · rintro ⟨graph, loads⟩
    exact indexed_of_ofStored loads
  · rintro ⟨version, indexed⟩
    obtain ⟨graph, loads, -⟩ := exists_ofStored version indexed
    exact ⟨graph, loads⟩
  · intro stored other graph rearranged loads
    induction rearranged with
    | refl => exact loads
    | tail _ last ih => exact ofStored_of_rearranges last ih

/-- The class `A` depends on `B` publicly, and on itself in private.  In the other form `A` is twice in
the pool, comes after `B`, and has its edges in two places. -/
theorem stored_forms_are_read_by_meaning_scattered :
    let stored : StoredGraph := ⟨1, ["A", "B"],
      [⟨0, [⟨.incoming, false, 1⟩, ⟨.incoming, true, 0⟩, ⟨.outgoing, true, 0⟩]⟩,
        ⟨1, [⟨.outgoing, false, 0⟩]⟩]⟩
    let scattered : StoredGraph := ⟨1, ["B", "A", "A"],
      [⟨2, [⟨.outgoing, true, 2⟩, ⟨.incoming, true, 2⟩, ⟨.outgoing, true, 2⟩]⟩,
        ⟨0, [⟨.outgoing, false, 2⟩]⟩, ⟨2, [⟨.incoming, false, 0⟩]⟩]⟩
    ∃ graph, ofStored stored = .ok graph ∧ ofStored scattered = .ok graph ∧
      graph.contains "B" ∧ (⟨.incoming, true, "A"⟩ : Edge) ∈ graph.edgesOf "A" := by
  intro stored scattered
  obtain ⟨loads, stands, layouts⟩ := stored_forms_are_read_by_meaning
  obtain ⟨graph, loads⟩ := (loads stored).mpr ⟨rfl, by simp [StoredGraph.Indexed, stored]⟩
  obtain ⟨nodes, edges⟩ := stands stored graph loads
  have rearranged : Relation.ReflTransGen Rearranges stored scattered := by
    have follows : ∀ index : UInt32, index.toNat < ["A", "B", "A"].length →
        ["B", "A", "A"][(if index = 1 then 0 else 2 : UInt32).toNat]? =
          ["A", "B", "A"][index.toNat]? := by
      intro index inside
      have cases : index = 0 ∨ index = 1 ∨ index = 2 := by
        simp only [List.length_cons, List.length_nil, ← UInt32.toNat_inj] at inside ⊢
        simp
        omega
      obtain rfl | rfl | rfl := cases <;> rfl
    have pooled : Rearranges ⟨1, ["A", "B", "A"], stored.nodes⟩ ⟨1, ["B", "A", "A"],
        [⟨2, [⟨.incoming, false, 0⟩, ⟨.incoming, true, 2⟩, ⟨.outgoing, true, 2⟩]⟩,
          ⟨0, [⟨.outgoing, false, 2⟩]⟩]⟩ :=
      .pool (List.Perm.swap "A" "B" ["A"]) follows
    have cut := @Rearranges.cut 1 2 ["B", "A", "A"] [] [⟨0, [⟨.outgoing, false, 2⟩]⟩]
      [⟨.incoming, false, 0⟩] [⟨.incoming, true, 2⟩, ⟨.outgoing, true, 2⟩]
    have edges := @Rearranges.edges 1 2 ["B", "A", "A"] [⟨2, [⟨.incoming, false, 0⟩]⟩]
      [⟨0, [⟨.outgoing, false, 2⟩]⟩] [⟨.incoming, true, 2⟩, ⟨.outgoing, true, 2⟩]
      [⟨.outgoing, true, 2⟩, ⟨.incoming, true, 2⟩, ⟨.outgoing, true, 2⟩] (by simp)
    exact .tail (.tail (.tail (.tail (.single (.added "A")) pooled) cut) edges)
      (.nodes (by decide))
  refine ⟨graph, loads, layouts stored scattered graph rearranged loads, ?_, ?_⟩
  · exact (nodes "B").mpr ⟨_, .tail _ (.head _), rfl⟩
  · exact (edges "A" _).mpr ⟨_, .head _, rfl, _, .tail _ (.head _), rfl⟩

end Graph

end AbiBuild.Dependency
