import AbiBuild.Abi

/-!
# What a surface mentions

A surface that keeps its public and its private types apart mentions each type in one way.
-/

namespace AbiBuild

@[simp] theorem Names.mem_ofList (names : List String) (name : String) :
    name ∈ Names.ofList names ↔ name ∈ names := by
  simp [Names.ofList]

namespace SourceAbi

/-- No type is mentioned both publicly and privately. -/
def Partitioned (abi : SourceAbi) : Prop :=
  ∀ type, type ∈ abi.publicTypes → type ∉ abi.privateTypes

theorem mem_privateTypes_ofTypes {className type : String} {publicTypes privateTypes : List String} :
    type ∈ (ofTypes className publicTypes privateTypes).privateTypes ↔
      type ∈ privateTypes ∧ type ∉ publicTypes := by
  simp only [ofTypes, Std.ExtTreeSet.mem_filter, Std.ExtTreeSet.get_eq, Names.mem_ofList,
    Bool.not_eq_true', Bool.eq_false_iff, ne_eq, ← Std.ExtTreeSet.mem_iff_contains, exists_prop]

theorem partitioned_ofTypes (className : String) (publicTypes privateTypes : List String) :
    (ofTypes className publicTypes privateTypes).Partitioned := by
  intro type isPublic isPrivate
  exact (mem_privateTypes_ofTypes.mp isPrivate).2 ((Names.mem_ofList _ _).mp isPublic)

theorem mem_referencedTypes (abi : SourceAbi) (type : String) (isPrivate : Bool) :
    (type, isPrivate) ∈ abi.referencedTypes ↔
      if isPrivate then type ∈ abi.privateTypes else type ∈ abi.publicTypes := by
  cases isPrivate <;> simp [referencedTypes]

theorem Partitioned.eq_of_mem {abi : SourceAbi} (partitioned : abi.Partitioned) {type : String}
    {first second : Bool} (hfirst : (type, first) ∈ abi.referencedTypes)
    (hsecond : (type, second) ∈ abi.referencedTypes) : first = second := by
  rw [mem_referencedTypes] at hfirst hsecond
  cases first <;> cases second
  · rfl
  · exact absurd hsecond (partitioned type hfirst)
  · exact absurd hfirst (partitioned type hsecond)
  · rfl

private theorem nodup_toList (names : Names) : names.toList.Nodup :=
  Std.ExtTreeSet.distinct_toList.imp fun different => by simpa using different

theorem Partitioned.nodup_names {abi : SourceAbi} (partitioned : abi.Partitioned) :
    (abi.referencedTypes.map (·.1)).Nodup := by
  have names : abi.referencedTypes.map (·.1) =
      abi.publicTypes.toList ++ abi.privateTypes.toList := by
    simp [referencedTypes, Function.comp_def]
  rw [names, List.nodup_append]
  refine ⟨nodup_toList _, nodup_toList _, ?_⟩
  rintro first hfirst second hsecond rfl
  rw [Std.ExtTreeSet.mem_toList] at hfirst hsecond
  exact partitioned first hfirst hsecond

end SourceAbi

abbrev PartitionedAbi := { abi : SourceAbi // abi.Partitioned }

end AbiBuild
