import AbiBuild.Proofs.Dependency.Reached
import AbiBuild.Proofs.Session.Steps
import Mathlib.Data.List.Induction

/-!
# Types and sources in pairs

A session finds the source of a type and the type of a source, and the two answers agree.  While a
batch of sources is taken in they may disagree, but only about types and sources still to come.
-/

namespace AbiBuild.Session

open Files Dependency

/-! ## The maps after each step -/

section Observers

variable (session : Session) (name other : String) (source : Path) (location : Location)

@[simp] theorem getElem?_classToSource_withoutClass :
    (session.withoutClass name).classToSource[other]? =
      if name = other then none else session.classToSource[other]? := by
  simp [withoutClass, Std.ExtTreeMap.getElem?_erase]

@[simp] theorem sourceToClass_withoutClass :
    (session.withoutClass name).sourceToClass = session.sourceToClass := rfl

@[simp] theorem graph_withoutClass :
    (session.withoutClass name).graph = session.graph.delete name := rfl

@[simp] theorem classToSource_withoutSource :
    (session.withoutSource source).classToSource = session.classToSource := rfl

@[simp] theorem graph_withoutSource : (session.withoutSource source).graph = session.graph := rfl

@[simp] theorem getElem?_sourceToClass_withoutSource :
    (session.withoutSource source).sourceToClass[location]? =
      if source.location = location then none else session.sourceToClass[location]? := by
  simp [withoutSource, Std.ExtTreeMap.getElem?_erase]

theorem isOwnedBy_iff :
    session.isOwnedBy name source ↔
      ∃ found : Path, session.classToSource[name]? = some found ∧ found.location = source.location := by
  rw [isOwnedBy]
  cases session.classToSource[name]? <;> simp

@[simp] theorem graph_record : (session.record name source).graph = session.graph := by
  unfold record
  split
  · dsimp only
    split <;> rfl
  · rfl

@[simp] theorem graph_learn (abi : SourceAbi) :
    (session.learn abi source).graph = session.graph.update abi := graph_record ..

@[simp] theorem getElem?_classToSource_record :
    (session.record name source).classToSource[other]? =
      if name = other then some source else session.classToSource[other]? := by
  unfold record
  split
  · dsimp only
    split <;> simp [Std.ExtTreeMap.getElem?_insert]
  · simp [Std.ExtTreeMap.getElem?_insert]

theorem getElem?_sourceToClass_record :
    (session.record name source).sourceToClass[location]? =
      if source.location = location then some name
      else if (∃ previous : Path, session.classToSource[name]? = some previous ∧
          previous.location = location) ∧ session.sourceToClass[location]? = some name then none
      else session.sourceToClass[location]? := by
  unfold record
  cases hprevious : session.classToSource[name]? with
  | none => simp [Std.ExtTreeMap.getElem?_insert]
  | some previous =>
      dsimp only
      simp only [Option.some.injEq, exists_eq_left']
      by_cases released : (previous.location ≠ source.location &&
          session.recordedType? previous = some name) = true
      · rw [if_pos released]
        obtain ⟨apart, recorded⟩ := Bool.and_eq_true_iff.mp released
        replace recorded : session.sourceToClass[previous.location]? = some name :=
          of_decide_eq_true recorded
        by_cases here : source.location = location
        · simp [here]
        · by_cases there : previous.location = location
          · subst there
            simp [Std.ExtTreeMap.getElem?_insert, here, recorded]
          · simp [Std.ExtTreeMap.getElem?_insert, here, there]
      · rw [if_neg released]
        by_cases here : source.location = location
        · simp [here]
        · by_cases there : previous.location = location
          · subst there
            have unrecorded : session.sourceToClass[previous.location]? ≠ some name := by
              intro recorded
              exact released (by simp [recordedType?, recorded, Ne.symm here])
            simp [Std.ExtTreeMap.getElem?_insert, here, unrecorded]
          · simp [Std.ExtTreeMap.getElem?_insert, here, there]

end Observers

/-! ## Agreement -/

/-- The source of a type declares it, and the type of a source belongs to it. -/
def Paired (session : Session) : Prop :=
  ∀ location name, session.sourceToClass[location]? = some name ↔
    ∃ source : Path, session.classToSource[name]? = some source ∧ source.location = location

theorem paired_iff {session : Session} : session.Paired ↔
    (∀ entry ∈ session.sourceToClass.toList,
      session.classToSource[entry.2]?.any (·.location = entry.1)) ∧
    ∀ entry ∈ session.classToSource.toList,
      session.sourceToClass[entry.2.location]? = some entry.1 := by
  simp only [Paired, Option.any_eq_true, decide_eq_true_eq, Prod.forall,
    Std.ExtTreeMap.mem_toList_iff_getElem?_eq_some]
  constructor
  · intro paired
    exact ⟨fun location name => (paired location name).mp,
      fun name source found => (paired _ _).mpr ⟨source, found, rfl⟩⟩
  · rintro ⟨bySource, byClass⟩ location name
    refine ⟨bySource location name, ?_⟩
    rintro ⟨source, found, rfl⟩
    exact byClass name source found

instance (session : Session) : Decidable session.Paired := decidable_of_iff _ paired_iff.symm

theorem paired_empty : empty.Paired := by
  intro location name
  simp [empty]

theorem paired_forgetAll (session : Session) : session.forgetAll.Paired := by
  intro location name
  simp [forgetAll]

namespace Paired

variable {session : Session}

theorem recordedType?_of_classToSource (paired : session.Paired) {name : String} {source : Path}
    (found : session.classToSource[name]? = some source) :
    session.recordedType? source = some name :=
  (paired _ _).mpr ⟨source, found, rfl⟩

theorem location_eq (paired : session.Paired) {name : String} {first second : Path}
    (hfirst : session.recordedType? first = some name)
    (hsecond : session.recordedType? second = some name) : first.location = second.location := by
  obtain ⟨found, hfound, here⟩ := (paired _ _).mp hfirst
  obtain ⟨other, hother, there⟩ := (paired _ _).mp hsecond
  rw [hfound] at hother
  rw [← here, ← there, Option.some.inj hother]

theorem name_eq (paired : session.Paired) {first second : String} {source other : Path}
    (hfirst : session.classToSource[first]? = some source)
    (hsecond : session.classToSource[second]? = some other)
    (same : source.location = other.location) : first = second := by
  have recorded := paired.recordedType?_of_classToSource hfirst
  have recordedOther := paired.recordedType?_of_classToSource hsecond
  rw [recordedType?, same] at recorded
  rw [recordedType?, recorded] at recordedOther
  exact Option.some.inj recordedOther

theorem isOwnedBy (paired : session.Paired) {name : String} {source : Path}
    (recorded : session.recordedType? source = some name) : session.isOwnedBy name source :=
  (isOwnedBy_iff ..).mpr ((paired _ _).mp recorded)

theorem dropSource (paired : session.Paired) (source : Path) :
    (session.dropSource source).Paired := by
  unfold Session.dropSource
  cases recorded : session.recordedType? source with
  | none => exact paired
  | some name =>
      have owned : (session.withoutSource source).isOwnedBy name source := paired.isOwnedBy recorded
      obtain ⟨found, hfound, here⟩ := (paired _ _).mp recorded
      intro location other
      simp only [withoutOwned, if_pos owned, sourceToClass_withoutClass,
        getElem?_sourceToClass_withoutSource, getElem?_classToSource_withoutClass,
        classToSource_withoutSource]
      by_cases same : source.location = location
      · rw [if_pos same]
        refine iff_of_false (Option.some_ne_none _).symm ?_
        rintro ⟨left, hleft, there⟩
        split at hleft
        · simp at hleft
        · next different =>
          exact different (paired.name_eq hfound hleft (by rw [here, same, there]))
      · rw [if_neg same, paired location other]
        refine exists_congr fun left => and_congr_left fun there => ?_
        split
        · next heq =>
          subst heq
          refine iff_of_false (fun hleft => same ?_) (Option.some_ne_none _).symm
          rw [hfound] at hleft
          rw [← here, Option.some.inj hleft, there]
        · rfl

theorem foldl_dropSource (paired : session.Paired) (sources : List Path) :
    (sources.foldl Session.dropSource session).Paired := by
  induction sources generalizing session with
  | nil => exact paired
  | cons source sources ih => exact ih (paired.dropSource source)

end Paired

/-! ## Types that are lost -/

structure Loses (lost : String → Prop) (before after : Session) : Prop where
  healthy : before.graph.Healthy → after.graph.Healthy
  classes : ∀ name path, after.classToSource[name]? = some path ↔
    before.classToSource[name]? = some path ∧ ¬lost name
  depends : before.graph.Healthy → ∀ name type isPrivate,
    after.graph.DependsOn name type isPrivate ↔
      before.graph.DependsOn name type isPrivate ∧ ¬lost name ∧ ¬lost type

namespace Loses

variable {session middle last : Session} {lost further both : String → Prop}

theorem refl (none : ∀ name, ¬lost name) : Loses lost session session where
  healthy healthy := healthy
  classes name path := by simp [none]
  depends _ name type isPrivate := by simp [none]

theorem trans (first : Loses lost session middle) (second : Loses further middle last)
    (together : ∀ name, both name ↔ lost name ∨ further name) : Loses both session last where
  healthy healthy := second.healthy (first.healthy healthy)
  classes name path := by
    rw [second.classes, first.classes, together, not_or, and_assoc]
  depends healthy name type isPrivate := by
    rw [second.depends (first.healthy healthy), first.depends healthy, together, together]
    tauto

theorem withoutClass (session : Session) (name : String) :
    Loses (· = name) session (session.withoutClass name) where
  healthy healthy := healthy.delete name
  classes other path := by
    rw [getElem?_classToSource_withoutClass]
    by_cases same : name = other
    · simp [same]
    · simp [same, Ne.symm same]
  depends healthy other type isPrivate := by
    rw [graph_withoutClass, Graph.dependsOn_delete healthy.mirrored]
    tauto

end Loses

/-! ## Forgetting what a batch declared before -/

def Forgets (session : Session) (batch part : List Declaration) (name : String) : Prop :=
  (∃ declaration ∈ part, session.recordedType? declaration.source = some name) ∧
    ∀ declaration ∈ batch, declaration.name ≠ name

theorem forgets_append_singleton (session : Session) (batch part : List Declaration)
    (declaration : Declaration) (name : String) :
    session.Forgets batch (part ++ [declaration]) name ↔ session.Forgets batch part name ∨
      session.recordedType? declaration.source = some name ∧
        ∀ declaration ∈ batch, declaration.name ≠ name := by
  rw [Forgets, Forgets, ← or_and_right]
  refine and_congr_left fun _ => ?_
  simp [or_and_right, exists_or]

theorem dropPrevious_cases {batch : List Declaration} {declaration : Declaration}
    (listed : declaration ∈ batch) (session : Session) :
    (session.dropPrevious batch declaration = session ∧
      ∀ name, session.recordedType? declaration.source = some name →
        session.isOwnedBy name declaration.source → ∃ other ∈ batch, other.name = name) ∨
    ∃ name, session.recordedType? declaration.source = some name ∧
      (∀ other ∈ batch, other.name ≠ name) ∧
      session.dropPrevious batch declaration = session.withoutClass name := by
  rw [dropPrevious]
  cases recorded : session.recordedType? declaration.source with
  | none => exact .inl ⟨rfl, fun name found => absurd found.symm (Option.some_ne_none name)⟩
  | some previous =>
      dsimp only
      by_cases unclaimed : ∀ other ∈ batch, other.name ≠ previous
      · have condition : (previous ≠ declaration.name && batch.all (·.name ≠ previous)) = true := by
          simp only [Bool.and_eq_true, decide_eq_true_eq, List.all_eq_true]
          exact ⟨(unclaimed declaration listed).symm, unclaimed⟩
        rw [if_pos condition, withoutOwned]
        split
        next => exact .inr ⟨previous, rfl, unclaimed, rfl⟩
        next foreign =>
          refine .inl ⟨rfl, ?_⟩
          intro name same owned
          obtain rfl := Option.some.inj same
          exact absurd owned foreign
      · have condition : ¬(previous ≠ declaration.name &&
            batch.all (·.name ≠ previous)) = true := by
          simp only [Bool.and_eq_true, decide_eq_true_eq, List.all_eq_true]
          exact fun both => unclaimed both.2
        rw [if_neg condition]
        refine .inl ⟨rfl, ?_⟩
        intro name same _
        obtain rfl := Option.some.inj same
        simpa using unclaimed

theorem sourceToClass_dropPrevious (batch : List Declaration) (session : Session)
    (declaration : Declaration) :
    (session.dropPrevious batch declaration).sourceToClass = session.sourceToClass := by
  unfold dropPrevious withoutOwned
  split
  · rfl
  · split
    · split <;> rfl
    · rfl

theorem sourceToClass_foldl_dropPrevious (batch part : List Declaration) (session : Session) :
    (part.foldl (dropPrevious batch) session).sourceToClass = session.sourceToClass := by
  induction part generalizing session with
  | nil => rfl
  | cons declaration part ih => rw [List.foldl_cons, ih, sourceToClass_dropPrevious]

theorem Paired.loses_foldl_dropPrevious {session : Session} (paired : session.Paired)
    {batch part : List Declaration} (included : part ⊆ batch) :
    Loses (session.Forgets batch part) session
      (part.foldl (Session.dropPrevious batch) session) := by
  induction part using List.reverseRecOn with
  | nil => exact .refl fun name => by simp [Forgets]
  | append_singleton part declaration ih =>
      have ih := ih fun _ member => included (List.mem_append_left _ member)
      have listed : declaration ∈ batch := included (by simp)
      have sameTypes := sourceToClass_foldl_dropPrevious batch part session
      rw [List.foldl_append, List.foldl_cons, List.foldl_nil]
      generalize part.foldl (Session.dropPrevious batch) session = dropped at ih sameTypes
      have sameType : dropped.recordedType? declaration.source =
          session.recordedType? declaration.source := by
        rw [recordedType?, recordedType?, sameTypes]
      rcases dropPrevious_cases listed dropped with ⟨unchanged, owner⟩ | ⟨lost, recorded, unclaimed, changed⟩
      · have same : session.Forgets batch (part ++ [declaration]) = session.Forgets batch part := by
          funext name
          rw [forgets_append_singleton, eq_iff_iff, or_iff_left_iff_imp]
          rintro ⟨recorded, unclaimed⟩
          -- A type that the source still had would have been lost in this step.
          by_contra kept
          obtain ⟨owned, howned, here⟩ := (paired _ _).mp recorded
          obtain ⟨other, member, claims⟩ := owner name (sameType.trans recorded)
            ((isOwnedBy_iff ..).mpr ⟨owned, (ih.classes name owned).mpr ⟨howned, kept⟩, here⟩)
          exact unclaimed other member claims
        rw [unchanged, same]
        exact ih
      · rw [changed]
        refine ih.trans (.withoutClass dropped lost) fun name => ?_
        rw [forgets_append_singleton, ← sameType, recorded, Option.some.injEq, eq_comm]
        refine or_congr_right (and_iff_left_of_imp ?_)
        rintro rfl
        exact unclaimed

/-! ## Taking in a batch -/

structure PairedUpTo (session : Session) (pending : List (Declaration × SourceAbi)) : Prop where
  ofClass : ∀ name source, session.classToSource[name]? = some source →
    session.recordedType? source = some name ∨ ∃ entry ∈ pending, entry.2.className = name
  ofSource : ∀ location name, session.sourceToClass[location]? = some name →
    (∃ source : Path, session.classToSource[name]? = some source ∧ source.location = location) ∨
      ∃ entry ∈ pending, entry.1.source.location = location
  /-- A source still to come leaves its old type to another one. -/
  claimed : ∀ entry ∈ pending, ∀ name source, session.classToSource[name]? = some source →
    source.location = entry.1.source.location →
    session.recordedType? entry.1.source = some name → ∃ other ∈ pending, other.2.className = name

theorem PairedUpTo.paired {session : Session} (upTo : session.PairedUpTo []) : session.Paired := by
  intro location name
  constructor
  · intro recorded
    exact (upTo.ofSource location name recorded).resolve_right (by simp)
  · rintro ⟨source, found, rfl⟩
    exact (upTo.ofClass name source found).resolve_right (by simp)

section Learning

variable {session : Session} {declaration : Declaration} {abi : SourceAbi}
  {pending : List (Declaration × SourceAbi)}

theorem getElem?_classToSource_learn (session : Session) (abi : SourceAbi) (source : Path)
    (name : String) : (session.learn abi source).classToSource[name]? =
      if abi.className = name then some source else session.classToSource[name]? :=
  getElem?_classToSource_record ..

theorem getElem?_sourceToClass_learn (session : Session) (abi : SourceAbi) (source : Path)
    (location : Location) : (session.learn abi source).sourceToClass[location]? =
      if source.location = location then some abi.className
      else if (∃ previous : Path, session.classToSource[abi.className]? = some previous ∧
          previous.location = location) ∧ session.sourceToClass[location]? = some abi.className
        then none else session.sourceToClass[location]? :=
  getElem?_sourceToClass_record ..

theorem exists_later {name : String} (different : abi.className ≠ name)
    (claimed : ∃ entry ∈ (declaration, abi) :: pending, entry.2.className = name) :
    ∃ entry ∈ pending, entry.2.className = name := by
  rw [List.exists_mem_cons_iff] at claimed
  exact claimed.resolve_left different

namespace PairedUpTo

variable (upTo : session.PairedUpTo ((declaration, abi) :: pending))
include upTo

theorem ofClass_learn {name : String} {source : Path}
    (found : (session.learn abi declaration.source).classToSource[name]? = some source) :
    (session.learn abi declaration.source).recordedType? source = some name ∨
      ∃ entry ∈ pending, entry.2.className = name := by
  rw [getElem?_classToSource_learn] at found
  rw [recordedType?, getElem?_sourceToClass_learn]
  split at found
  next same =>
    obtain rfl := Option.some.inj found
    exact .inl (by simp [same])
  next different =>
    rcases upTo.ofClass name source found with recorded | claims
    · by_cases here : declaration.source.location = source.location
      · exact .inr (exists_later different (upTo.claimed _ (.head _) name source found here.symm
          (by rw [recordedType?, here]; exact recorded)))
      · have kept : ¬((∃ previous : Path, session.classToSource[abi.className]? = some previous ∧
            previous.location = source.location) ∧
            session.sourceToClass[source.location]? = some abi.className) := by
          rintro ⟨-, recordedOther⟩
          rw [recordedType?, recordedOther] at recorded
          exact different (Option.some.inj recorded)
        exact .inl (by rw [if_neg here, if_neg kept]; exact recorded)
    · exact .inr (exists_later different claims)

theorem ofSource_learn {location : Location} {name : String}
    (recorded : (session.learn abi declaration.source).sourceToClass[location]? = some name) :
    (∃ source : Path, (session.learn abi declaration.source).classToSource[name]? = some source ∧
        source.location = location) ∨
      ∃ entry ∈ pending, entry.1.source.location = location := by
  rw [getElem?_sourceToClass_learn] at recorded
  simp only [getElem?_classToSource_learn]
  split at recorded
  next here =>
    obtain rfl := Option.some.inj recorded
    exact .inl ⟨declaration.source, by simp, here⟩
  next elsewhere =>
    split at recorded
    next => simp at recorded
    next kept =>
      rcases upTo.ofSource location name recorded with ⟨source, found, there⟩ | ⟨entry, member, there⟩
      · refine .inl ⟨source, ?_, there⟩
        rw [if_neg, found]
        rintro rfl
        exact kept ⟨⟨source, found, there⟩, recorded⟩
      · rcases List.mem_cons.mp member with rfl | later
        · exact absurd there elsewhere
        · exact .inr ⟨entry, later, there⟩

theorem claimed_learn
    (coherent : ∀ entry ∈ pending, entry.1.source.location = declaration.source.location →
      entry.2.className = abi.className) {entry : Declaration × SourceAbi} (member : entry ∈ pending)
    {name : String} {source : Path}
    (found : (session.learn abi declaration.source).classToSource[name]? = some source)
    (there : source.location = entry.1.source.location)
    (recorded : (session.learn abi declaration.source).recordedType? entry.1.source = some name) :
    ∃ other ∈ pending, other.2.className = name := by
  rw [getElem?_classToSource_learn] at found
  rw [recordedType?, getElem?_sourceToClass_learn] at recorded
  split at found
  next same =>
    obtain rfl := Option.some.inj found
    exact ⟨entry, member, (coherent entry member there.symm).trans same⟩
  next different =>
    split at recorded
    next => exact absurd (Option.some.inj recorded) different
    next =>
      split at recorded
      next => simp at recorded
      next =>
        exact exists_later different
          (upTo.claimed entry (.tail _ member) name source found there recorded)

theorem learn
    (coherent : ∀ entry ∈ pending, entry.1.source.location = declaration.source.location →
      entry.2.className = abi.className) :
    (session.learn abi declaration.source).PairedUpTo pending where
  ofClass _ _ found := upTo.ofClass_learn found
  ofSource _ _ recorded := upTo.ofSource_learn recorded
  claimed _ member _ _ found there recorded :=
    upTo.claimed_learn coherent member found there recorded

end PairedUpTo

end Learning

theorem PairedUpTo.learnAll {session : Session} {learned : List (Declaration × SourceAbi)}
    (upTo : session.PairedUpTo learned)
    (coherent : learned.Pairwise fun first second =>
      second.1.source.location = first.1.source.location → second.2.className = first.2.className) :
    (session.learnAll learned).Paired := by
  induction learned generalizing session with
  | nil => exact upTo.paired
  | cons entry learned ih =>
      rw [List.pairwise_cons] at coherent
      exact ih (upTo.learn coherent.1) coherent.2

theorem Paired.refreshed {toolchain : Toolchain} {outputRoot : Path} {sources : List Path}
    {before after : OpenSession} {learned : List (Declaration × SourceAbi)}
    (paired : before.session.Paired)
    (refreshed : Refreshed toolchain outputRoot sources before after learned)
    (faithful : ∀ entry ∈ learned, entry.2.className = entry.1.name)
    (coherent : learned.Pairwise fun first second =>
      second.1.source.location = first.1.source.location → second.2.className = first.2.className) :
    after.session.Paired := by
  have lookup :=
    (paired.loses_foldl_dropPrevious (List.Subset.refl (learned.map (·.1)))).classes
  have types := sourceToClass_foldl_dropPrevious (learned.map (·.1)) (learned.map (·.1))
    before.session
  rw [refreshed.session]
  generalize (learned.map (·.1)).foldl (Session.dropPrevious (learned.map (·.1))) before.session =
    dropped at lookup types
  refine PairedUpTo.learnAll ⟨?_, ?_, ?_⟩ coherent
  · intro name source found
    refine .inl ?_
    rw [recordedType?, types]
    exact paired.recordedType?_of_classToSource ((lookup name source).mp found).1
  · intro location name recorded
    rw [types] at recorded
    obtain ⟨source, found, there⟩ := (paired _ _).mp recorded
    by_cases forgotten : before.session.Forgets (learned.map (·.1)) (learned.map (·.1)) name
    · obtain ⟨⟨declaration, member, declares⟩, -⟩ := forgotten
      obtain ⟨entry, listed, rfl⟩ := List.mem_map.mp member
      refine .inr ⟨entry, listed, ?_⟩
      rw [← there]
      exact paired.location_eq declares (paired.recordedType?_of_classToSource found)
    · exact .inl ⟨source, (lookup name source).mpr ⟨found, forgotten⟩, there⟩
  · intro entry member name source found _ recorded
    rw [recordedType?, types] at recorded
    by_contra unclaimed
    refine ((lookup name source).mp found).2 ⟨⟨entry.1, List.mem_map_of_mem member, recorded⟩, ?_⟩
    intro declaration listed declares
    obtain ⟨other, found, rfl⟩ := List.mem_map.mp listed
    exact unclaimed ⟨other, found, (faithful other found).trans declares⟩

end AbiBuild.Session
