import AbiBuild.Proofs.Abi
import AbiBuild.Proofs.Dependency.Edges

/-!
# Both sides of a dependency

A graph holds each dependency twice, on the class that has it and on the type that is mentioned.
No operation makes or drops one side without the other.
-/

namespace AbiBuild.Dependency

@[simp] theorem Edge.counterpart_counterpart (edge : Edge) (owner : String) :
    (edge.counterpart owner).counterpart edge.peer = edge := by
  obtain ⟨direction, isPrivate, peer⟩ := edge
  cases direction <;> rfl

@[simp] theorem Edge.peer_counterpart (edge : Edge) (owner : String) :
    (edge.counterpart owner).peer = owner := rfl

namespace Graph

@[simp] theorem dependencyAt_counterpart (owner name : String) (edge : Edge) :
    dependencyAt owner edge.peer (edge.counterpart name) = dependencyAt owner name edge := by
  obtain ⟨direction, isPrivate, peer⟩ := edge
  cases direction <;> rfl

def Mirrored (graph : Graph) : Prop :=
  ∀ owner edge, edge ∈ graph.edgesOf owner → edge.counterpart owner ∈ graph.edgesOf edge.peer

namespace Mirrored

variable {graph : Graph}

theorem counterpart_mem_iff (mirrored : graph.Mirrored) (owner : String) (edge : Edge) :
    edge.counterpart owner ∈ graph.edgesOf edge.peer ↔ edge ∈ graph.edgesOf owner := by
  constructor
  · intro member
    simpa using mirrored _ _ member
  · exact mirrored owner edge

theorem contains_peer (mirrored : graph.Mirrored) {owner : String} {edge : Edge}
    (member : edge ∈ graph.edgesOf owner) : graph.contains edge.peer :=
  contains_of_mem_edgesOf (mirrored owner edge member)

theorem outgoing_mem_iff (mirrored : graph.Mirrored) (name type : String) (isPrivate : Bool) :
    (⟨.outgoing, isPrivate, name⟩ : Edge) ∈ graph.edgesOf type ↔
      graph.DependsOn name type isPrivate :=
  mirrored.counterpart_mem_iff name ⟨.incoming, isPrivate, type⟩

theorem mem_edgesOf_iff_dependsOn (mirrored : graph.Mirrored) {owner name type : String}
    {isPrivate : Bool} {edge : Edge}
    (side : dependencyAt owner name edge = some (type, isPrivate)) :
    edge ∈ graph.edgesOf name ↔ graph.DependsOn owner type isPrivate := by
  rcases dependencyAt_eq_some_iff.mp side with ⟨rfl, rfl⟩ | ⟨rfl, rfl⟩
  · rfl
  · exact mirrored.outgoing_mem_iff owner name isPrivate

theorem mem_edgesOf_delete (mirrored : graph.Mirrored) (owner name : String) (edge : Edge) :
    edge ∈ (graph.delete owner).edgesOf name ↔
      name ≠ owner ∧ edge.peer ≠ owner ∧ edge ∈ graph.edgesOf name := by
  rw [Graph.mem_edgesOf_delete]
  refine and_congr_right fun _ => ?_
  constructor
  · rintro ⟨member, kept⟩
    refine ⟨fun same => ?_, member⟩
    have other := mirrored name edge member
    rw [same] at other
    exact kept _ other ⟨rfl, by rw [← same, Edge.counterpart_counterpart]⟩
  · rintro ⟨different, member⟩
    refine ⟨member, ?_⟩
    rintro other - ⟨-, rfl⟩
    exact different rfl

theorem ext {left right : Graph} (mirrored : left.Mirrored) (mirrored' : right.Mirrored)
    (nodes : ∀ name, left.contains name ↔ right.contains name)
    (depends : ∀ name type isPrivate,
      left.DependsOn name type isPrivate ↔ right.DependsOn name type isPrivate) : left = right := by
  refine ext_edges (fun name => Bool.eq_iff_iff.mpr (nodes name)) ?_
  rintro name ⟨direction, isPrivate, peer⟩
  cases direction with
  | incoming => exact depends name peer isPrivate
  | outgoing => rw [mirrored.outgoing_mem_iff, mirrored'.outgoing_mem_iff, depends]

/-! ## What keeps both sides -/

protected theorem empty : Graph.empty.Mirrored := by
  intro owner edge member
  simp at member

protected theorem link (mirrored : graph.Mirrored) (dependent dependsOn : String)
    (isPrivate : Bool) : (graph.link dependent dependsOn isPrivate).Mirrored := by
  intro owner edge member
  rw [mem_edgesOf_link] at member ⊢
  rw [dependencyAt_counterpart]
  exact member.imp_right (mirrored owner edge)

protected theorem unlink (mirrored : graph.Mirrored) (dependent dependsOn : String)
    (isPrivate : Bool) : (graph.unlink dependent dependsOn isPrivate).Mirrored := by
  intro owner edge member
  rw [mem_edgesOf_unlink] at member ⊢
  rw [dependencyAt_counterpart]
  exact member.imp_right (mirrored owner edge)

protected theorem linkAll (mirrored : graph.Mirrored) (abi : SourceAbi) :
    (graph.linkAll abi).Mirrored := by
  intro owner edge member
  rw [mem_edgesOf_linkAll] at member ⊢
  simp only [dependencyAt_counterpart]
  exact member.imp_right (mirrored owner edge)

protected theorem delete (mirrored : graph.Mirrored) (name : String) :
    (graph.delete name).Mirrored := by
  intro owner edge member
  rw [mirrored.mem_edgesOf_delete] at member ⊢
  obtain ⟨ownerKept, peerKept, member⟩ := member
  exact ⟨peerKept, ownerKept, mirrored owner edge member⟩

private theorem foldl {α : Type} (step : Graph → α → Graph)
    (keeps : ∀ graph value, graph.Mirrored → (step graph value).Mirrored) (values : List α)
    (mirrored : graph.Mirrored) : (values.foldl step graph).Mirrored := by
  induction values generalizing graph with
  | nil => exact mirrored
  | cons value values ih => exact ih (keeps graph value mirrored)

private theorem reviseDependency (mirrored : graph.Mirrored) (abi : SourceAbi)
    (next : Std.ExtTreeMap String Bool compare) (dependency : String × Bool) :
    (graph.reviseDependency abi next dependency).Mirrored := by
  obtain ⟨type, wasPrivate⟩ := dependency
  unfold Graph.reviseDependency
  dsimp only
  split
  · exact mirrored.unlink _ _ _
  · split
    · exact mirrored
    · exact (mirrored.unlink _ _ _).link _ _ _

protected theorem update (mirrored : graph.Mirrored) (abi : SourceAbi) :
    (graph.update abi).Mirrored := by
  unfold Graph.update Graph.updateFrom
  split
  · apply foldl
    · rintro graph ⟨type, isPrivate⟩ mirrored
      dsimp only
      split
      · exact mirrored
      · exact mirrored.link _ _ _
    · exact foldl _ (fun graph dependency mirrored =>
        mirrored.reviseDependency abi _ dependency) _ mirrored
  · exact mirrored.linkAll abi

end Mirrored

theorem violations_eq_nil_iff (graph : Graph) : graph.violations = [] ↔ graph.Mirrored := by
  simp only [violations, List.flatMap_eq_nil_iff, List.map_eq_nil_iff, List.filter_eq_nil_iff,
    Std.ExtTreeSet.mem_toList, Bool.not_eq_true', Bool.not_eq_false,
    Std.ExtTreeSet.contains_iff_mem]
  constructor
  · intro none owner edge member
    cases hnode : graph.nodes[owner]? with
    | none => simp [edgesOf, hnode] at member
    | some edges =>
        have listed := Std.ExtTreeMap.mem_toList_iff_getElem?_eq_some.mpr hnode
        exact none (owner, edges) listed edge (by simpa [edgesOf, hnode] using member)
  · rintro mirrored ⟨owner, edges⟩ listed edge member
    have hnode := Std.ExtTreeMap.mem_toList_iff_getElem?_eq_some.mp listed
    exact mirrored owner edge (by simpa [edgesOf, hnode] using member)

end Graph
end AbiBuild.Dependency
