import AbiBuild.Proofs.Dependency.Reached

/-!
# The graph as a record of its history

What a graph says of a class was said by the last surface that was recorded for it, less the types
removed since.  How the graph got there leaves no other trace.
-/

namespace AbiBuild.Dependency

/-- A request did this, and none after it undid it. -/
def Stands (does undoes : Operation → Graph → Prop) (operations : List Operation) : Prop :=
  ∃ before operation after, operations = before ++ operation :: after ∧
    does operation (run before) ∧
    ∀ between later rest, after = between ++ later :: rest →
      ¬undoes later (run (before ++ operation :: between))

theorem not_stands_nil (does undoes : Operation → Graph → Prop) : ¬Stands does undoes [] := by
  rintro ⟨before, operation, after, heq, -⟩
  simp at heq

theorem stands_append_singleton (does undoes : Operation → Graph → Prop)
    (operations : List Operation) (operation : Operation) :
    Stands does undoes (operations ++ [operation]) ↔
      does operation (run operations) ∨
        Stands does undoes operations ∧ ¬undoes operation (run operations) := by
  constructor
  · rintro ⟨before, first, after, heq, done, kept⟩
    rcases List.eq_nil_or_concat after with rfl | ⟨after, last, rfl⟩
    · obtain ⟨rfl, rfl⟩ := List.append_inj' (heq : operations ++ [operation] = before ++ [first]) rfl
        |>.imp_right List.singleton_inj.mp
      exact .inl done
    · rw [List.concat_eq_append, ← List.cons_append, ← List.append_assoc] at heq
      obtain ⟨rfl, hlast⟩ := List.append_inj' heq rfl
      obtain rfl := List.singleton_inj.mp hlast
      refine .inr ⟨⟨before, first, after, rfl, done, ?_⟩, ?_⟩
      · intro between later rest split
        exact kept between later (rest ++ [operation]) (by simp [split])
      · exact kept after operation [] (by simp)
  · rintro (done | ⟨⟨before, first, after, rfl, done, kept⟩, last⟩)
    · exact ⟨operations, operation, [], rfl, done, by simp⟩
    · refine ⟨before, first, after ++ [operation], by simp, done, ?_⟩
      intro between later rest split
      rcases List.eq_nil_or_concat rest with rfl | ⟨rest, final, rfl⟩
      · obtain ⟨rfl, hlast⟩ := List.append_inj' split rfl
        obtain rfl := List.singleton_inj.mp hlast
        exact last
      · rw [List.concat_eq_append, ← List.cons_append, ← List.append_assoc] at split
        exact kept between later rest (List.append_inj' split rfl).1

namespace Operation

def Records (name : String) (operation : Operation) (graph : Graph) : Prop :=
  ∃ abi, operation.recorded? graph = some abi ∧ abi.val.className = name

/-- The request records a surface of the class that mentions the type so. -/
def RecordsDependency (name type : String) (isPrivate : Bool) (operation : Operation)
    (graph : Graph) : Prop :=
  ∃ abi, operation.recorded? graph = some abi ∧ abi.val.className = name ∧
    (type, isPrivate) ∈ abi.val.referencedTypes

/-- The request records a surface of the class, or one that mentions it. -/
def Mentions (name : String) (operation : Operation) (graph : Graph) : Prop :=
  ∃ abi, operation.recorded? graph = some abi ∧
    (abi.val.className = name ∨ ∃ isPrivate, (name, isPrivate) ∈ abi.val.referencedTypes)

def Removes (name : String) (operation : Operation) (_ : Graph) : Prop :=
  operation = delete name ∨ operation = clear

/-- The request ends what was said of the type on behalf of the class. -/
def Supersedes (name type : String) (operation : Operation) (graph : Graph) : Prop :=
  operation.Records name graph ∨ operation.Removes name graph ∨ operation.Removes type graph

variable {graph : Graph}

theorem apply_cases (operation : Operation) (graph : Graph) :
    (∃ abi, operation.recorded? graph = some abi ∧ operation.apply graph = graph.update abi) ∨
      (operation.recorded? graph = none ∧
        (operation.apply graph = graph ∧ (∃ abi, operation = add abi) ∨
          (∃ name, operation = delete name) ∨ operation = clear)) := by
  cases hrecorded : operation.recorded? graph with
  | some abi => exact .inl ⟨abi, rfl, apply_of_recorded? hrecorded⟩
  | none =>
      refine .inr ⟨rfl, ?_⟩
      cases operation with
      | add abi =>
          refine .inl ⟨apply_add_of_refused ?_, abi, rfl⟩
          cases haccepted : graph.add? abi with
          | none => rfl
          | some next => simp [recorded?, haccepted] at hrecorded
      | update abi => simp [recorded?] at hrecorded
      | delete name => exact .inr (.inl ⟨name, rfl⟩)
      | clear => exact .inr (.inr rfl)

theorem dependsOn_apply (healthy : graph.Healthy) (operation : Operation) (name type : String)
    (isPrivate : Bool) :
    (operation.apply graph).DependsOn name type isPrivate ↔
      operation.RecordsDependency name type isPrivate graph ∨
        graph.DependsOn name type isPrivate ∧ ¬operation.Supersedes name type graph := by
  rcases apply_cases operation graph with ⟨abi, recorded, happly⟩ | ⟨recorded, unchanged⟩
  · have kept : ∀ other, ¬operation.Removes other graph := by
      rintro other (rfl | rfl) <;> simp [recorded?] at recorded
    rw [happly, Graph.dependsOn_update healthy.mirrored healthy.settled abi.property]
    simp only [RecordsDependency, Supersedes, Records, recorded, Option.some.injEq,
      exists_eq_left', kept, or_false]
    by_cases same : name = abi.val.className
    · simp [same]
    · simp [same, Ne.symm same]
  · simp only [RecordsDependency, Supersedes, Records, recorded, reduceCtorEq, false_and,
      exists_false, false_or]
    rcases unchanged with ⟨happly, abi, rfl⟩ | ⟨removed, rfl⟩ | rfl
    · simp [happly, Removes]
    · rw [apply, Graph.dependsOn_delete healthy.mirrored]
      simp only [Removes, delete.injEq, reduceCtorEq, or_false, not_or]
      constructor
      · rintro ⟨nameKept, typeKept, holds⟩
        exact ⟨holds, Ne.symm nameKept, Ne.symm typeKept⟩
      · rintro ⟨holds, nameKept, typeKept⟩
        exact ⟨Ne.symm nameKept, Ne.symm typeKept, holds⟩
    · simp [apply, Graph.DependsOn, Removes]

theorem contains_apply (healthy : graph.Healthy) (operation : Operation) (name : String) :
    (operation.apply graph).contains name ↔
      operation.Mentions name graph ∨ graph.contains name ∧ ¬operation.Removes name graph := by
  rcases apply_cases operation graph with ⟨abi, recorded, happly⟩ | ⟨recorded, unchanged⟩
  · have kept : ¬operation.Removes name graph := by
      rintro (rfl | rfl) <;> simp [recorded?] at recorded
    rw [happly, Graph.contains_update healthy.mirrored healthy.settled abi.property]
    simp only [Mentions, recorded, Option.some.injEq, exists_eq_left', kept, not_false_eq_true,
      and_true]
    rw [← or_assoc, or_comm (a := ∃ _, _), @eq_comm _ name]
  · simp only [Mentions, recorded, reduceCtorEq, false_and, exists_false, false_or]
    rcases unchanged with ⟨happly, abi, rfl⟩ | ⟨removed, rfl⟩ | rfl
    · simp [happly, Removes]
    · rw [apply, Graph.contains_delete]
      simp only [Removes, delete.injEq, reduceCtorEq, or_false]
      rw [and_comm, ne_comm]
    · simp [apply, Removes]

/-! ## Requests about different classes -/

/-- The class that the request is about, unless it removes something. -/
def subject? : Operation → Option String
  | add abi | update abi => some abi.val.className
  | delete _ | clear => none

theorem apply_of_subject? {operation : Operation} {name : String}
    (about : operation.subject? = some name) (graph : Graph) :
    (∃ abi : PartitionedAbi, abi.val.className = name ∧ operation.recorded? graph = some abi ∧
        operation.apply graph = graph.update abi) ∨
      operation.recorded? graph = none ∧ operation.apply graph = graph := by
  rcases apply_cases operation graph with ⟨abi, recorded, happly⟩ | ⟨recorded, unchanged⟩
  · refine .inl ⟨abi, ?_, recorded, happly⟩
    cases operation with
    | add added =>
        rw [recorded?] at recorded
        split at recorded
        next =>
          obtain rfl := Option.some.inj recorded
          exact Option.some.inj about
        next => simp at recorded
    | update updated =>
        obtain rfl := Option.some.inj recorded
        exact Option.some.inj about
    | delete _ => simp [subject?] at about
    | clear => simp [subject?] at about
  · refine .inr ⟨recorded, ?_⟩
    rcases unchanged with ⟨happly, -⟩ | ⟨removed, rfl⟩ | rfl
    · exact happly
    · simp [subject?] at about
    · simp [subject?] at about

theorem apply_of_recorded?_eq_none {operation : Operation} {name : String}
    (about : operation.subject? = some name) {graph : Graph}
    (refused : operation.recorded? graph = none) : operation.apply graph = graph := by
  rcases apply_of_subject? about graph with ⟨abi, -, recorded, -⟩ | ⟨-, unchanged⟩
  · simp [refused] at recorded
  · exact unchanged

theorem recorded?_congr {operation : Operation} {name : String}
    (about : operation.subject? = some name) {left right : Graph}
    (same : left.isReal name = right.isReal name) :
    operation.recorded? left = operation.recorded? right := by
  cases operation with
  | add abi =>
      obtain rfl := Option.some.inj about
      simp only [recorded?, Graph.add?, same]
      split <;> rfl
  | update abi => rfl
  | delete _ => rfl
  | clear => rfl

end Operation

theorem Graph.isReal_update_of_ne {graph : Graph} (healthy : graph.Healthy) (abi : PartitionedAbi)
    {name : String} (different : name ≠ abi.val.className) :
    (graph.update abi).isReal name = graph.isReal name := by
  rw [Bool.eq_iff_iff, isReal_iff, isReal_iff]
  simp only [dependsOn_update healthy.mirrored healthy.settled abi.property, if_neg different]

theorem Graph.update_comm {graph : Graph} (healthy : graph.Healthy) (first second : PartitionedAbi)
    (different : first.val.className ≠ second.val.className) :
    (graph.update first).update second = (graph.update second).update first := by
  have afterFirst := healthy.update first
  have afterSecond := healthy.update second
  apply ext_edges
  · intro name
    rw [Bool.eq_iff_iff, contains_update afterFirst.mirrored afterFirst.settled second.property,
      contains_update healthy.mirrored healthy.settled first.property,
      contains_update afterSecond.mirrored afterSecond.settled first.property,
      contains_update healthy.mirrored healthy.settled second.property]
    tauto
  · intro name edge
    -- An edge is a side of dependencies of at most one of the two classes.
    have apart : ∀ one other,
        dependencyAt first.val.className name edge = some one →
        dependencyAt second.val.className name edge = some other → False := by
      rintro ⟨_, _⟩ ⟨_, _⟩ sideOfFirst sideOfSecond
      rcases dependencyAt_eq_some_iff.mp sideOfFirst with ⟨rfl, rfl⟩ | ⟨rfl, rfl⟩
      · rcases dependencyAt_eq_some_iff.mp sideOfSecond with ⟨same, -⟩ | ⟨-, same⟩
        · exact different same
        · simp at same
      · rcases dependencyAt_eq_some_iff.mp sideOfSecond with ⟨-, same⟩ | ⟨-, same⟩
        · simp at same
        · exact different (congrArg Edge.peer same)
    rw [mem_edgesOf_update afterFirst.mirrored afterFirst.settled second.property,
      mem_edgesOf_update healthy.mirrored healthy.settled first.property,
      mem_edgesOf_update afterSecond.mirrored afterSecond.settled first.property,
      mem_edgesOf_update healthy.mirrored healthy.settled second.property]
    cases hfirst : dependencyAt first.val.className name edge with
    | none => simp
    | some one =>
        cases hsecond : dependencyAt second.val.className name edge with
        | none => simp
        | some other => exact (apart one other hfirst hsecond).elim

theorem Operation.apply_comm {graph : Graph} (healthy : graph.Healthy) {first second : Operation}
    {name other : String} (aboutName : first.subject? = some name)
    (aboutOther : second.subject? = some other) (different : name ≠ other) :
    second.apply (first.apply graph) = first.apply (second.apply graph) := by
  -- Neither request decides whether the other is refused.
  have sameFirst : first.recorded? (second.apply graph) = first.recorded? graph := by
    refine recorded?_congr aboutName ?_
    rcases apply_of_subject? aboutOther graph with ⟨abi, rfl, -, happly⟩ | ⟨-, happly⟩
    · rw [happly, Graph.isReal_update_of_ne healthy abi different]
    · rw [happly]
  have sameSecond : second.recorded? (first.apply graph) = second.recorded? graph := by
    refine recorded?_congr aboutOther ?_
    rcases apply_of_subject? aboutName graph with ⟨abi, rfl, -, happly⟩ | ⟨-, happly⟩
    · rw [happly, Graph.isReal_update_of_ne healthy abi different.symm]
    · rw [happly]
  rcases apply_of_subject? aboutName graph with ⟨abi, hname, recorded, happly⟩ | ⟨refused, happly⟩
  · rw [apply_of_recorded? (sameFirst.trans recorded)]
    rcases apply_of_subject? aboutOther graph with
      ⟨otherAbi, hother, otherRecorded, otherApply⟩ | ⟨otherRefused, otherApply⟩
    · rw [apply_of_recorded? (sameSecond.trans otherRecorded), happly, otherApply]
      exact Graph.update_comm healthy abi otherAbi (by rwa [hname, hother])
    · rw [apply_of_recorded?_eq_none aboutOther (sameSecond.trans otherRefused), happly,
        otherApply]
  · rw [apply_of_recorded?_eq_none aboutName (sameFirst.trans refused), happly]

/-! ## The whole history -/

private theorem stands_run (holds : Graph → Prop) {does undoes : Operation → Graph → Prop}
    (start : ¬holds .empty)
    (step : ∀ graph : Graph, graph.Healthy → ∀ operation : Operation,
      holds (operation.apply graph) ↔ does operation graph ∨ holds graph ∧ ¬undoes operation graph)
    (operations : List Operation) :
    holds (run operations) ↔ Stands does undoes operations := by
  induction operations using List.reverseRecOn with
  | nil => exact iff_of_false start (not_stands_nil does undoes)
  | append_singleton operations operation ih =>
      rw [run_append_singleton, stands_append_singleton, step _ (healthy_run operations), ih]

/-- What a class depends on is what the last surface recorded for it mentions, less the types
removed since, and a name has a node as long as some recorded surface is of it or mentions it.  An
addition is refused exactly when the class depends on something.  A revision drops all that the
class depends on and links what its surface mentions, and requests about different classes may
change places. -/
theorem run_is_its_history (operations : List Operation) :
    (∀ name type isPrivate,
      ((run operations).dependenciesOf name)[type]? = some isPrivate ↔
        Stands (Operation.RecordsDependency name type isPrivate)
          (Operation.Supersedes name type) operations) ∧
    (∀ name, (run operations).contains name ↔
      Stands (Operation.Mentions name) (Operation.Removes name) operations) ∧
    (∀ abi : PartitionedAbi,
      ((run operations).add? abi = none ↔
        (run operations).dependenciesOf abi.val.className ≠ ∅) ∧
      ((run operations).add? abi = none →
        run (operations ++ [.add abi]) = run operations)) ∧
    (∀ abi : PartitionedAbi, (run operations).update abi =
      ((run operations).dropDependencies abi.val.className).linkAll abi) ∧
    (∀ (first second : Operation) (name other : String), first.subject? = some name →
      second.subject? = some other → name ≠ other →
      run (operations ++ [first, second]) = run (operations ++ [second, first])) := by
  have healthy := healthy_run operations
  refine ⟨?_, ?_, ?_, ?_, ?_⟩
  · intro name type isPrivate
    rw [Graph.getElem?_dependenciesOf healthy.settled]
    apply stands_run fun graph => graph.DependsOn name type isPrivate
    · simp [Graph.DependsOn]
    · intro graph healthy operation
      exact operation.dependsOn_apply healthy name type isPrivate
  · intro name
    apply stands_run fun graph => graph.contains name
    · simp
    · intro graph healthy operation
      exact operation.contains_apply healthy name
  · intro abi
    constructor
    · rw [← Graph.isReal_iff_dependenciesOf, Graph.add?]
      split
      next real => simp [real]
      next notReal => simp [notReal]
    · intro refused
      rw [run_append_singleton, Operation.apply_add_of_refused refused]
  · intro abi
    exact Graph.update_eq_linkAll_dropDependencies healthy.mirrored healthy.settled abi.property
  · intro first second name other aboutName aboutOther different
    have swap : second.apply (first.apply (run operations)) =
        first.apply (second.apply (run operations)) :=
      Operation.apply_comm healthy aboutName aboutOther different
    rw [List.append_cons, run_append_singleton, run_append_singleton, swap,
      List.append_cons operations second, run_append_singleton, run_append_singleton]

end AbiBuild.Dependency
