import AbiBuild.Dependency.Impact
import AbiBuild.Proofs.Dependency.Mirrored
import Mathlib.Logic.Relation

/-!
# What a change reaches, exactly

The search takes found names out of those that remain, so it finds what public dependents lead to
within them.  No name is missed for want of a node, since a name without one has no dependents.
-/

namespace AbiBuild.Dependency.Graph

theorem mem_publicDependents {graph : Graph} {name dependent : String} :
    dependent ∈ graph.publicDependents name ↔
      (⟨.outgoing, false, dependent⟩ : Edge) ∈ graph.edgesOf name := by
  simp only [publicDependents, List.mem_map, List.mem_filter, Std.ExtTreeSet.mem_toList,
    Bool.and_eq_true, decide_eq_true_eq, Bool.not_eq_true']
  constructor
  · rintro ⟨⟨_, _, _⟩, ⟨member, rfl, rfl⟩, rfl⟩
    exact member
  · intro member
    exact ⟨_, ⟨member, rfl, rfl⟩, rfl⟩

theorem mem_dependents {graph : Graph} {name dependent : String} :
    dependent ∈ graph.dependents name ↔
      ∃ isPrivate, (⟨.outgoing, isPrivate, dependent⟩ : Edge) ∈ graph.edgesOf name := by
  simp only [dependents, List.mem_map, List.mem_filter, Std.ExtTreeSet.mem_toList,
    decide_eq_true_eq]
  constructor
  · rintro ⟨⟨_, isPrivate, _⟩, ⟨member, rfl⟩, rfl⟩
    exact ⟨isPrivate, member⟩
  · rintro ⟨isPrivate, member⟩
    exact ⟨_, ⟨member, rfl⟩, rfl⟩

/-! ## The search -/

inductive LeadsWithin (graph : Graph) (names : Names) : String → String → Prop
  | refl {name : String} : name ∈ names → LeadsWithin graph names name name
  | head {name next last : String} : name ∈ names → next ∈ graph.publicDependents name →
      LeadsWithin graph names next last → LeadsWithin graph names name last

namespace LeadsWithin

variable {graph : Graph} {names : Names}

theorem mono {fewer : Names} (included : ∀ name, name ∈ fewer → name ∈ names)
    {first last : String} (leads : graph.LeadsWithin fewer first last) :
    graph.LeadsWithin names first last := by
  induction leads with
  | refl member => exact .refl (included _ member)
  | head member step _ ih => exact .head (included _ member) step ih

theorem avoid (name : String) {first last : String} (leads : graph.LeadsWithin names first last) :
    last = name ∨ graph.LeadsWithin (names.erase name) first last ∨
      ∃ next ∈ graph.publicDependents name, graph.LeadsWithin (names.erase name) next last := by
  have remains : ∀ other, other ≠ name → other ∈ names → other ∈ names.erase name := by
    intro other different member
    rw [Std.ExtTreeSet.mem_erase]
    exact ⟨by simpa using different.symm, member⟩
  induction leads with
  | @refl other member =>
      by_cases same : other = name
      · exact .inl same
      · exact .inr (.inl (.refl (remains other same member)))
  | @head other next last member step _ ih =>
      rcases ih with same | direct | again
      · exact .inl same
      · by_cases same : other = name
        · exact .inr (.inr ⟨next, same ▸ step, direct⟩)
        · exact .inr (.inl (.head (remains other same member) step direct))
      · exact .inr (.inr again)

end LeadsWithin

theorem mem_reach {graph : Graph} {remaining : Names} {pending : List String} {found : String} :
    found ∈ graph.reach remaining pending ↔
      ∃ name ∈ pending, graph.LeadsWithin remaining name found := by
  fun_induction reach graph remaining pending with
  | case1 remaining => simp
  | case2 remaining name others member ih =>
      simp only [List.mem_cons, ih, List.mem_append]
      constructor
      · rintro (rfl | ⟨first, step | listed, leads⟩)
        · exact ⟨found, .inl rfl, .refl member⟩
        · exact ⟨name, .inl rfl, .head member step (leads.mono fun _ => Std.ExtTreeSet.mem_of_mem_erase)⟩
        · exact ⟨first, .inr listed, leads.mono fun _ => Std.ExtTreeSet.mem_of_mem_erase⟩
      · rintro ⟨first, listed, leads⟩
        rcases leads.avoid name with rfl | direct | ⟨next, step, leads⟩
        · exact .inl rfl
        · rcases listed with rfl | listed
          · cases direct with
            | refl member => simp at member
            | head member => simp at member
          · exact .inr ⟨first, .inr listed, direct⟩
        · exact .inr ⟨next, .inl step, leads⟩
  | case3 remaining name others missing ih =>
      rw [ih]
      constructor
      · rintro ⟨first, listed, leads⟩
        exact ⟨first, .tail _ listed, leads⟩
      · rintro ⟨first, listed, leads⟩
        rcases List.mem_cons.mp listed with rfl | listed
        · cases leads with
          | refl member => exact absurd member missing
          | head member => exact absurd member missing
        · exact ⟨first, listed, leads⟩

theorem LeadsWithin.path {graph : Graph} {names : Names} {first last : String}
    (leads : graph.LeadsWithin names first last) :
    Relation.ReflTransGen
      (fun name dependent => (⟨.outgoing, false, dependent⟩ : Edge) ∈ graph.edgesOf name)
      first last := by
  induction leads with
  | refl _ => exact .refl
  | head _ step _ ih => exact .head (mem_publicDependents.mp step) ih

/-! ## The impact of a change -/

theorem mem_impact {graph : Graph} {root name : String} :
    name ∈ graph.impact root ↔ name ≠ root ∧ ∃ middle isPrivate,
      Relation.ReflTransGen
        (fun name dependent => (⟨.outgoing, false, dependent⟩ : Edge) ∈ graph.edgesOf name)
        root middle ∧
        (⟨.outgoing, isPrivate, name⟩ : Edge) ∈ graph.edgesOf middle := by
  generalize hnames : Names.ofList (root :: graph.classNames) = names
  have hasRoom : ∀ middle (edge : Edge), edge ∈ graph.edgesOf middle → middle ∈ names := by
    intro middle edge member
    rw [← hnames, Names.mem_ofList, List.mem_cons, classNames, Std.ExtTreeMap.mem_keys]
    exact .inr (by simpa [contains] using contains_of_mem_edgesOf member)
  rw [impact, Std.ExtTreeSet.mem_erase, Names.mem_ofList, List.mem_flatMap, surfaceChanges, hnames]
  refine and_congr (by simp [@eq_comm _ root]) ?_
  constructor
  · rintro ⟨middle, found, member⟩
    obtain ⟨isPrivate, edge⟩ := mem_dependents.mp member
    obtain ⟨first, listed, leads⟩ := mem_reach.mp found
    obtain rfl := List.mem_singleton.mp listed
    exact ⟨middle, isPrivate, leads.path, edge⟩
  · rintro ⟨middle, isPrivate, path, edge⟩
    refine ⟨middle, mem_reach.mpr ⟨root, by simp, ?_⟩, mem_dependents.mpr ⟨isPrivate, edge⟩⟩
    clear hnames
    -- Each class on the way has an edge, so it has a node and the search may pass it.
    induction path using Relation.ReflTransGen.head_induction_on with
    | refl => exact .refl (hasRoom _ _ edge)
    | head step _ ih => exact .head (hasRoom _ _ step) (mem_publicDependents.mpr step) ih

theorem impact_of_publicDependents_eq_nil {graph : Graph} {root : String}
    (alone : graph.publicDependents root = []) :
    graph.impact root = (Names.ofList (graph.dependents root)).erase root := by
  have first : root ∈ Names.ofList (root :: graph.classNames) := by
    rw [Names.mem_ofList]
    exact .head _
  have found : graph.surfaceChanges root = [root] := by
    rw [surfaceChanges, reach, if_pos first, alone, List.nil_append, reach]
  rw [impact, found, List.flatMap_cons, List.flatMap_nil, List.append_nil]

/-! ## Chains of dependencies -/

/-- A class depends on another by way of classes that mention the next one publicly; its own mention
of the first of them may be private. -/
def DependsAcross (graph : Graph) (name root : String) : Prop :=
  ∃ middle isPrivate, graph.DependsOn name middle isPrivate ∧
    Relation.ReflTransGen (fun name type => graph.DependsOn name type false) middle root

theorem Mirrored.mem_impact_iff {graph : Graph} (mirrored : graph.Mirrored) {root name : String} :
    name ∈ graph.impact root ↔ name ≠ root ∧ graph.DependsAcross name root := by
  rw [mem_impact]
  simp only [mirrored.outgoing_mem_iff]
  refine and_congr_right fun _ => ?_
  constructor
  · rintro ⟨middle, isPrivate, path, depends⟩
    exact ⟨middle, isPrivate, depends, path.swap⟩
  · rintro ⟨middle, isPrivate, depends, path⟩
    exact ⟨middle, isPrivate, path.swap, depends⟩

end AbiBuild.Dependency.Graph
