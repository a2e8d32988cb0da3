import AbiBuild.Proofs.Build.Pruning
import AbiBuild.Proofs.Session.Paired

/-!
# Dropped types and their outputs

A batch drops the types whose sources it lists and that none of its sources declares.  Their outputs
go while it is taken in, and no other files do.
-/

namespace AbiBuild.Session

open Files FileSystem Dependency SessionAction

variable {toolchain : Toolchain} {outputRoot : Path} {session : Session}
  {batch done : List Declaration} {declaration : Declaration}

/-! ## What one source loses -/

def lostType? (batch : List Declaration) (session : Session) (declaration : Declaration) :
    Option String :=
  match session.recordedType? declaration.source with
  | none => none
  | some previous =>
    if previous ≠ declaration.name && batch.all (·.name ≠ previous) then
      if session.isOwnedBy previous declaration.source then some previous else none
    else none

theorem lostType?_of_owned {previous : String}
    (recorded : session.recordedType? declaration.source = some previous)
    (unclaimed : (previous ≠ declaration.name && batch.all (·.name ≠ previous)) = true)
    (owned : session.isOwnedBy previous declaration.source) :
    session.lostType? batch declaration = some previous := by
  rw [lostType?, recorded]
  dsimp only
  rw [if_pos unclaimed, if_pos owned]

theorem lostType?_eq_some_iff (listed : declaration ∈ batch) (name : String) :
    session.lostType? batch declaration = some name ↔
      session.recordedType? declaration.source = some name ∧
        (∀ other ∈ batch, other.name ≠ name) ∧ session.isOwnedBy name declaration.source := by
  rw [lostType?]
  cases session.recordedType? declaration.source with
  | none => simp
  | some previous =>
      simp only [Bool.and_eq_true, decide_eq_true_eq, List.all_eq_true, Option.ite_none_right_eq_some,
        Option.some.injEq]
      constructor
      · rintro ⟨⟨-, unclaimed⟩, owned, rfl⟩
        exact ⟨rfl, unclaimed, owned⟩
      · rintro ⟨rfl, unclaimed, owned⟩
        exact ⟨⟨(unclaimed declaration listed).symm, unclaimed⟩, owned, rfl⟩

theorem dropPrevious_eq (batch : List Declaration) (session : Session) (declaration : Declaration) :
    session.dropPrevious batch declaration =
      match session.lostType? batch declaration with
      | none => session
      | some name => session.withoutClass name := by
  rw [dropPrevious, lostType?]
  cases session.recordedType? declaration.source with
  | none => rfl
  | some previous =>
      dsimp only
      split
      next =>
        rw [withoutOwned]
        split <;> rfl
      next => rfl

theorem Paired.forgets_append_iff (paired : session.Paired) (included : done ++ [declaration] ⊆ batch)
    (name : String) : session.Forgets batch (done ++ [declaration]) name ↔
      session.Forgets batch done name ∨
        (done.foldl (dropPrevious batch) session).lostType? batch declaration = some name := by
  have listed : declaration ∈ batch := included (by simp)
  have loses := paired.loses_foldl_dropPrevious
    (List.Subset.trans (List.subset_append_left done [declaration]) included)
  have types := sourceToClass_foldl_dropPrevious batch done session
  rw [forgets_append_singleton, lostType?_eq_some_iff listed]
  generalize done.foldl (dropPrevious batch) session = dropped at loses types
  have same : dropped.recordedType? declaration.source =
      session.recordedType? declaration.source := by
    rw [recordedType?, recordedType?, types]
  rw [same]
  refine or_congr_right' fun kept => ?_
  rw [and_congr_right_iff]
  refine fun recorded => ⟨fun unclaimed => ⟨unclaimed, ?_⟩, And.left⟩
  obtain ⟨source, found, here⟩ := (paired _ _).mp recorded
  exact (isOwnedBy_iff ..).mpr ⟨source, (loses.classes name source).mpr ⟨found, kept⟩, here⟩

theorem Forgets.mono {part more : List Declaration} (included : part ⊆ more) {name : String}
    (forgets : session.Forgets batch part name) : session.Forgets batch more name := by
  obtain ⟨⟨declaration, member, recorded⟩, unclaimed⟩ := forgets
  exact ⟨⟨declaration, included member, recorded⟩, unclaimed⟩

theorem Paired.contains_foldl_dropPrevious (paired : session.Paired) (included : done ⊆ batch)
    (name : String) : (done.foldl (dropPrevious batch) session).graph.contains name ↔
      session.graph.contains name ∧ ¬session.Forgets batch done name := by
  induction done using List.reverseRecOn with
  | nil => simp [Forgets]
  | append_singleton done declaration ih =>
      have ih := ih (List.Subset.trans (List.subset_append_left _ _) included)
      rw [List.foldl_append, List.foldl_cons, List.foldl_nil, dropPrevious_eq,
        paired.forgets_append_iff included, not_or]
      cases lost : (done.foldl (dropPrevious batch) session).lostType? batch declaration with
      | none => simp [ih]
      | some type =>
          dsimp only
          rw [graph_withoutClass, Graph.contains_delete, ih, Option.some.injEq]
          tauto

/-! ## Forgetting, with the outputs -/

section Forget

variable {opened : OpenSession}

theorem ends_forgetPrevious_prunes (wellFormed : opened.world.files.WellFormed)
    (batch : List Declaration) (declaration : Declaration) :
    Ends (forgetPrevious toolchain outputRoot batch declaration) opened
      (fun _ next => next.session = opened.session.dropPrevious batch declaration ∧
        next.world.notices = opened.world.notices ∧
        Prunes (fun place => ∃ name, opened.session.lostType? batch declaration = some name ∧
          Outputs.OutputAt opened.world.files outputRoot name toolchain.outputExtension place)
          opened.world.files next.world.files)
      (fun _ _ => opened.world.files.Willing →
        ∃ name, opened.session.lostType? batch declaration = some name ∧
          ¬Outputs.Removable opened.world.files outputRoot name toolchain.outputExtension) := by
  have stays : opened.session.lostType? batch declaration = none →
      opened.session = opened.session.dropPrevious batch declaration ∧
        opened.world.notices = opened.world.notices ∧
        Prunes (fun place => ∃ name, opened.session.lostType? batch declaration = some name ∧
          Outputs.OutputAt opened.world.files outputRoot name toolchain.outputExtension place)
          opened.world.files opened.world.files := by
    intro kept
    refine ⟨by rw [dropPrevious_eq, kept], rfl, .refl ?_ _⟩
    rintro place ⟨name, lost, -⟩
    rw [kept] at lost
    cases lost
  refine ends_forgetPrevious_of (fun keeps => stays ?_) fun previous recorded forgotten =>
    ends_forgetClass_of (fun foreign => stays ?_) fun owned => ?_
  · rw [lostType?]
    split
    next => rfl
    next previous recorded => rw [keeps previous recorded, if_neg Bool.false_ne_true]
  · rw [lostType?, recorded]
    dsimp only
    rw [if_pos forgotten, foreign, if_neg Bool.false_ne_true]
  · have lost := lostType?_of_owned recorded forgotten owned
    refine (Outputs.ends_delete_prunes wellFormed outputRoot previous
      toolchain.outputExtension).imp ?_ ?_
    · intro _ files prunes
      refine ⟨by rw [dropPrevious_eq, lost], rfl, ?_⟩
      simpa only [lost, Option.some.injEq, exists_eq_left'] using prunes
    · exact fun _ _ fails willing => ⟨previous, lost, fails willing⟩

theorem ends_forM_forgetPrevious_prunes (paired : opened.session.Paired)
    (wellFormed : opened.world.files.WellFormed) (batch : List Declaration) :
    Ends (batch.forM (forgetPrevious toolchain outputRoot batch)) opened
      (fun _ next => next.world.notices = opened.world.notices ∧
        Prunes (fun place => ∃ name, opened.session.Forgets batch batch name ∧
          Outputs.OutputAt opened.world.files outputRoot name toolchain.outputExtension place)
          opened.world.files next.world.files)
      (fun _ _ => opened.world.files.Willing → ∃ name, opened.session.Forgets batch batch name ∧
        ¬Outputs.Removable opened.world.files outputRoot name toolchain.outputExtension) := by
  let holds (rest : List Declaration) (next : OpenSession) : Prop := ∃ done, batch = done ++ rest ∧
    next.session = done.foldl (dropPrevious batch) opened.session ∧
    next.world.notices = opened.world.notices ∧
    Prunes (fun place => ∃ name, opened.session.Forgets batch done name ∧
      Outputs.OutputAt opened.world.files outputRoot name toolchain.outputExtension place)
      opened.world.files next.world.files
  have loop : Ends (batch.forM (forgetPrevious toolchain outputRoot batch)) opened
      (fun _ next => holds [] next)
      (fun _ _ => opened.world.files.Willing → ∃ name, opened.session.Forgets batch batch name ∧
        ¬Outputs.Removable opened.world.files outputRoot name toolchain.outputExtension) := by
    refine Ends.forM holds ?_ batch opened ⟨[], rfl, rfl, rfl, .refl (by simp [Forgets]) _⟩
    rintro declaration rest state ⟨done, split, reached, notices, prunes⟩
    have included : done ++ [declaration] ⊆ batch := by
      intro other member
      rw [split]
      rcases List.mem_append.mp member with earlier | last
      · exact List.mem_append_left _ earlier
      · exact List.mem_append_right _ (List.mem_cons.mpr (.inl (List.mem_singleton.mp last)))
    have forgets := paired.forgets_append_iff included
    rw [← reached] at forgets
    refine (ends_forgetPrevious_prunes (prunes.wellFormed wellFormed) batch declaration).imp ?_ ?_
    · rintro _ next ⟨changed, sameNotices, further⟩
      refine ⟨done ++ [declaration], by simp [split], ?_, sameNotices.trans notices,
        prunes.trans further ?_ ?_⟩
      · rw [changed, reached, List.foldl_append, List.foldl_cons, List.foldl_nil]
      · rintro place (⟨name, forgotten, isOutput⟩ | ⟨name, lost, isOutput⟩)
        · exact ⟨name, (forgets name).mpr (.inl forgotten), isOutput⟩
        · exact ⟨name, (forgets name).mpr (.inr lost), isOutput.earlier prunes⟩
      · rintro place ⟨name, forgotten, isOutput⟩
        rcases (forgets name).mp forgotten with forgotten | lost
        · exact .inl ⟨name, forgotten, isOutput⟩
        · by_cases left : state.world.files.entries[place]? = none
          · exact .inr (.inr left)
          · exact .inr (.inl ⟨name, lost, isOutput.later prunes wellFormed left⟩)
    · intro _ _ fails willing
      obtain ⟨name, lost, stuck⟩ := fails (prunes.willing willing)
      exact ⟨name, .mono included ((forgets name).mpr (.inr lost)),
        fun removable => stuck (removable.later prunes wellFormed)⟩
  refine loop.imp ?_ fun _ _ fails => fails
  rintro _ next ⟨done, all, -, notices, prunes⟩
  rw [List.append_nil] at all
  subst all
  exact ⟨notices, prunes⟩

end Forget

/-! ## Refreshing, with the outputs -/

/-- The type is dropped: its source is in the batch, and no source of the batch declares it. -/
structure Drops (toolchain : Toolchain) (before : OpenSession) (sources : List Path) (name : String) :
    Prop where
  listed : ∃ path, before.session.classToSource[name]? = some path ∧
    ∃ source ∈ sources, source.location = path.location
  unclaimed : ∀ source ∈ sources, toolchain.typeDeclaredBy before.world.files source ≠ .ok name

theorem drops_congr {before : OpenSession} {sources others : List Path}
    (same : ∀ source, source ∈ others ↔ source ∈ sources) (name : String) :
    Drops toolchain before others name ↔ Drops toolchain before sources name := by
  constructor
  · rintro ⟨listed, unclaimed⟩
    simp only [same] at listed unclaimed
    exact ⟨listed, unclaimed⟩
  · rintro ⟨listed, unclaimed⟩
    simp only [← same] at listed unclaimed
    exact ⟨listed, unclaimed⟩

theorem Paired.forgets_iff_drops {opened : OpenSession} {sources : List Path}
    (paired : opened.session.Paired) (listed : batch.map (·.source) = sources)
    (declared : ∀ declaration ∈ batch,
      toolchain.typeDeclaredBy opened.world.files declaration.source = .ok declaration.name)
    (name : String) :
    opened.session.Forgets batch batch name ↔ Drops toolchain opened sources name := by
  subst listed
  constructor
  · rintro ⟨⟨declaration, member, recorded⟩, unclaimed⟩
    obtain ⟨path, found, here⟩ := (paired _ _).mp recorded
    refine ⟨⟨path, found, _, List.mem_map_of_mem member, here.symm⟩, fun source listed declares => ?_⟩
    obtain ⟨other, member, rfl⟩ := List.mem_map.mp listed
    rw [declared other member] at declares
    exact unclaimed other member (Except.ok.inj declares)
  · rintro ⟨⟨path, found, source, listed, here⟩, unclaimed⟩
    obtain ⟨declaration, member, rfl⟩ := List.mem_map.mp listed
    refine ⟨⟨declaration, member, (paired _ _).mpr ⟨path, found, here.symm⟩⟩, fun other member same => ?_⟩
    refine unclaimed other.source (List.mem_map_of_mem member) ?_
    rw [declared other member, same]

theorem ends_declarations_fails (toolchain : Toolchain) (sources : List Path)
    (opened : OpenSession) :
    Ends (sources.mapM fun source => do
        let name ← consult fun _ files => toolchain.typeDeclaredBy files source
        pure (Declaration.mk source name)) opened (fun _ _ => True)
      (fun _ _ => ∃ source ∈ sources,
        ∀ name, toolchain.typeDeclaredBy opened.world.files source ≠ .ok name) := by
  induction sources with
  | nil => trivial
  | cons source sources ih =>
      rw [List.mapM_cons]
      simp only [bind_assoc, pure_bind, ends_bind, ends_look]
      cases declares : toolchain.typeDeclaredBy opened.world.files source with
      | error error => exact ⟨source, .head _, fun name same => by rw [declares] at same; cases same⟩
      | ok name =>
          refine ih.imp (fun _ _ _ => trivial) ?_
          rintro _ _ ⟨other, member, fails⟩
          exact ⟨other, .tail _ member, fails⟩

theorem ends_forM_refreshOne_fails (toolchain : Toolchain) (outputRoot : Path)
    (batch : List Declaration) (opened : OpenSession) :
    Ends (batch.forM (refreshOne toolchain outputRoot)) opened (fun _ _ => True)
      (fun _ _ => ∃ declaration ∈ batch, ∀ abi, toolchain.surfaceOf opened.world.files
        (Outputs.unitPath outputRoot declaration.name toolchain.outputExtension) ≠ .ok abi) := by
  let holds (rest : List Declaration) (next : OpenSession) : Prop :=
    rest ⊆ batch ∧ next.world.files = opened.world.files
  have loop : Ends (batch.forM (refreshOne toolchain outputRoot)) opened (fun _ next => holds [] next)
      (fun _ _ => ∃ declaration ∈ batch, ∀ abi, toolchain.surfaceOf opened.world.files
        (Outputs.unitPath outputRoot declaration.name toolchain.outputExtension) ≠ .ok abi) := by
    refine Ends.forM holds ?_ batch opened ⟨List.Subset.refl _, rfl⟩
    rintro declaration rest state ⟨included, same⟩
    simp only [refreshOne, ends_bind, ends_look, ends_revise]
    rw [same]
    cases surface : toolchain.surfaceOf opened.world.files
        (Outputs.unitPath outputRoot declaration.name toolchain.outputExtension) with
    | ok abi => exact ⟨fun _ later => included (.tail _ later), same⟩
    | error error =>
        refine ⟨declaration, included (.head _), fun abi reads => ?_⟩
        rw [surface] at reads
        cases reads
  exact loop.imp (fun _ _ _ => trivial) fun _ _ fails => fails

def DropsAt (toolchain : Toolchain) (outputRoot : Path) (before : OpenSession) (sources : List Path)
    (place : Place) : Prop :=
  ∃ name, Drops toolchain before sources name ∧
    Outputs.OutputAt before.world.files outputRoot name toolchain.outputExtension place

theorem dropsAt_congr {before : OpenSession} {sources others : List Path}
    (same : ∀ source, source ∈ others ↔ source ∈ sources) :
    DropsAt toolchain outputRoot before others = DropsAt toolchain outputRoot before sources := by
  funext place
  simp only [DropsAt, drops_congr same]

/-- Only outputs of dropped types go.  On a willing host a batch fails for one of its sources, for an
output that cannot be removed, or for a unit that cannot be read once these are gone. -/
theorem ends_refresh_prunes {opened : OpenSession} (paired : opened.session.Paired)
    (wellFormed : opened.world.files.WellFormed) (sources : List Path) :
    Ends (refresh toolchain outputRoot sources) opened
      (fun _ next => next.world.notices = opened.world.notices ∧
        Prunes (DropsAt toolchain outputRoot opened sources) opened.world.files next.world.files)
      (fun _ _ => opened.world.files.Willing →
        (∃ source ∈ sources, ∀ name, toolchain.typeDeclaredBy opened.world.files source ≠ .ok name) ∨
        (∃ name, Drops toolchain opened sources name ∧
          ¬Outputs.Removable opened.world.files outputRoot name toolchain.outputExtension) ∨
        ∃ files, Prunes (DropsAt toolchain outputRoot opened sources) opened.world.files files ∧
          ∃ source ∈ sources, ∃ name,
            toolchain.typeDeclaredBy opened.world.files source = .ok name ∧
              ∀ abi, toolchain.surfaceOf files
                (Outputs.unitPath outputRoot name toolchain.outputExtension) ≠ .ok abi) := by
  simp only [refresh, ends_bind]
  refine ((ends_declarations toolchain sources opened).and
    (ends_declarations_fails toolchain sources opened)).imp ?_ fun _ _ fails _ => .inl fails.2
  rintro batch _ ⟨⟨rfl, sameSources, declared⟩, -⟩
  have forgets := paired.forgets_iff_drops sameSources declared
  refine (ends_forM_forgetPrevious_prunes paired wellFormed batch).imp ?_ ?_
  · rintro _ middle ⟨notices, prunes⟩
    simp only [forgets] at prunes
    refine ((ends_forM_refreshOne toolchain outputRoot batch middle).and
      (ends_forM_refreshOne_fails toolchain outputRoot batch middle)).imp ?_ ?_
    · rintro _ next ⟨⟨sameWorld, -⟩, -⟩
      rw [sameWorld]
      exact ⟨notices, prunes⟩
    · rintro _ _ ⟨-, declaration, member, unreadable⟩ -
      refine .inr (.inr ⟨_, prunes, declaration.source, ?_, _, declared declaration member, unreadable⟩)
      rw [← sameSources]
      exact List.mem_map_of_mem member
  · intro _ _ fails willing
    obtain ⟨name, forgotten, stuck⟩ := fails willing
    exact .inr (.inl ⟨name, (forgets name).mp forgotten, stuck⟩)

end AbiBuild.Session
