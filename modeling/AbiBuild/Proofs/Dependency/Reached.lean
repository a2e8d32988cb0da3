import AbiBuild.Proofs.Dependency.Codec
import AbiBuild.Proofs.Dependency.Update
import Mathlib.Data.List.Induction

/-!
# Graphs that can be reached

Whatever is asked of a graph and in whichever order, refused or not, each dependency keeps both of
its sides and no type comes to be mentioned in two ways.
-/

namespace AbiBuild.Dependency

structure Graph.Healthy (graph : Graph) : Prop where
  mirrored : graph.Mirrored
  settled : graph.Settled

namespace Graph.Healthy

variable {graph : Graph}

theorem empty : Graph.empty.Healthy where
  mirrored := .empty
  settled := .empty

theorem update (healthy : graph.Healthy) (abi : PartitionedAbi) :
    (graph.update abi).Healthy where
  mirrored := healthy.mirrored.update abi
  settled := healthy.settled.update healthy.mirrored abi.property

theorem delete (healthy : graph.Healthy) (name : String) : (graph.delete name).Healthy where
  mirrored := healthy.mirrored.delete name
  settled := healthy.settled.delete healthy.mirrored name

end Graph.Healthy

/-! ## What is asked of a graph -/

inductive Operation
  | add (abi : PartitionedAbi)
  | update (abi : PartitionedAbi)
  | delete (name : String)
  | clear

namespace Operation

def apply (operation : Operation) (graph : Graph) : Graph :=
  match operation with
  | add abi => (graph.add? abi).getD graph
  | update abi => graph.update abi
  | delete name => graph.delete name
  | clear => .empty

def recorded? (operation : Operation) (graph : Graph) : Option PartitionedAbi :=
  match operation with
  | add abi => if (graph.add? abi).isSome then some abi else none
  | update abi => some abi
  | delete _ | clear => none

theorem apply_of_recorded? {operation : Operation} {graph : Graph} {abi : PartitionedAbi}
    (recorded : operation.recorded? graph = some abi) :
    operation.apply graph = graph.update abi := by
  cases operation with
  | add added =>
      rw [recorded?] at recorded
      split at recorded
      next accepted =>
        obtain rfl := Option.some.inj recorded
        rw [Graph.add?] at accepted
        split at accepted
        next => simp at accepted
        next notReal =>
          rw [apply, Graph.add?, Graph.update, Graph.updateFrom, if_neg notReal, if_neg notReal, Option.getD_some]
      next => simp at recorded
  | update abi =>
      obtain rfl := Option.some.inj recorded
      rfl
  | delete name => simp [recorded?] at recorded
  | clear => simp [recorded?] at recorded

theorem apply_add_of_refused {abi : PartitionedAbi} {graph : Graph}
    (refused : graph.add? abi = none) : (add abi).apply graph = graph := by
  rw [apply, refused, Option.getD_none]

theorem healthy_apply {graph : Graph} (healthy : graph.Healthy) (operation : Operation) :
    (operation.apply graph).Healthy := by
  cases operation with
  | add abi =>
      cases haccepted : graph.add? abi with
      | none => rwa [apply_add_of_refused haccepted]
      | some next =>
          have recorded : (add abi).recorded? graph = some abi := by simp [recorded?, haccepted]
          rw [apply_of_recorded? recorded]
          exact healthy.update abi
  | update abi => exact healthy.update abi
  | delete name => exact healthy.delete name
  | clear => exact .empty

end Operation

/-- What the requests make of the empty graph. -/
def run (operations : List Operation) : Graph :=
  operations.foldl (fun graph operation => operation.apply graph) .empty

theorem run_append_singleton (operations : List Operation) (operation : Operation) :
    run (operations ++ [operation]) = operation.apply (run operations) := by
  rw [run, List.foldl_append]
  rfl

theorem healthy_run (operations : List Operation) : (run operations).Healthy := by
  induction operations using List.reverseRecOn with
  | nil => exact .empty
  | append_singleton operations operation ih =>
      rw [run_append_singleton]
      exact Operation.healthy_apply ih operation

/-! ## Every graph so reached -/

namespace Graph

/-- A graph may also be stored and loaded between two requests. -/
inductive Reached : Graph → Prop
  | empty : Reached Graph.empty
  | apply {graph : Graph} (operation : Operation) :
      Reached graph → Reached (operation.apply graph)
  | reopen {graph loaded : Graph} : graph.Storable → deserialize graph.serialize = .ok loaded →
      Reached graph → Reached loaded

theorem Reached.healthy {graph : Graph} (reached : graph.Reached) : graph.Healthy := by
  induction reached with
  | empty => exact .empty
  | apply operation _ ih => exact Operation.healthy_apply ih operation
  | reopen storable loads _ ih =>
      rw [deserialize_serialize storable] at loads
      rwa [← Except.ok.inj loads]

theorem reached_run (operations : List Operation) : (run operations).Reached := by
  induction operations using List.reverseRecOn with
  | nil => exact .empty
  | append_singleton operations operation ih =>
      rw [run_append_singleton]
      exact .apply operation ih

/-- Each dependency stands on both of its sides, once and with one visibility, between classes that
have nodes; nothing is reported of the graph, and storing it loses nothing. -/
theorem edges_of_reached {graph : Graph} (reached : graph.Reached) :
    (∀ name type isPrivate, (⟨.incoming, isPrivate, type⟩ : Edge) ∈ graph.edgesOf name ↔
      (⟨.outgoing, isPrivate, name⟩ : Edge) ∈ graph.edgesOf type) ∧
    graph.violations = [] ∧
    (∀ name, ∀ edge ∈ graph.edgesOf name, graph.contains edge.peer) ∧
    (∀ name type first second, (⟨.incoming, first, type⟩ : Edge) ∈ graph.edgesOf name →
      (⟨.incoming, second, type⟩ : Edge) ∈ graph.edgesOf name → first = second) ∧
    (graph.Storable → deserialize graph.serialize = .ok graph) := by
  have healthy := reached.healthy
  refine ⟨?_, graph.violations_eq_nil_iff.mpr healthy.mirrored, ?_, healthy.settled,
    deserialize_serialize⟩
  · intro name type isPrivate
    exact (healthy.mirrored.outgoing_mem_iff name type isPrivate).symm
  · intro name edge member
    exact healthy.mirrored.contains_peer member

/-- A class that mentions itself, one that is mentioned before it is added, a refused addition, a
changed visibility, a removal and a stored graph. -/
theorem edges_of_reached_mixed :
    let surface (name : String) (publicTypes privateTypes : List String) : PartitionedAbi :=
      ⟨.ofTypes name publicTypes privateTypes, SourceAbi.partitioned_ofTypes _ _ _⟩
    let graph := run [.add (surface "A" ["B", "C"] ["A"]), .add (surface "A" [] ["B"]),
      .update (surface "A" ["A"] ["B"]), .add (surface "B" ["A"] []), .delete "C"]
    graph.Storable ∧ graph.Reached ∧ graph.contains "C" = false ∧ graph.violations = [] := by
  intro surface graph
  have storable : graph.Storable :=
    ⟨by decide +kernel, by decide +kernel, by decide +kernel⟩
  have reached : graph.Reached :=
    .reopen storable (deserialize_serialize storable) (reached_run _)
  exact ⟨storable, reached, by decide +kernel, (edges_of_reached reached).2.1⟩

end Graph

end AbiBuild.Dependency
