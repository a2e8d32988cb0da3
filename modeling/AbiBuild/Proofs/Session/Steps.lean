import AbiBuild.Proofs.Collections
import AbiBuild.Proofs.Ends
import AbiBuild.Session.Cache

/-!
# What the actions of a session do to it

Removing and refreshing sources change files on the way, but what becomes of the session itself does
not depend on that.  Each action is described by a plain function of sessions.
-/

namespace AbiBuild.Session

open Files SessionAction

/-! ## What each step consists of -/

section Each

variable {toolchain : Toolchain} {outputRoot source : Path} {name : String}
  {batch : List Declaration} {declaration : Declaration} {opened : OpenSession}
  {done : Unit → OpenSession → Prop} {failed : BuildError → OpenSession → Prop}

theorem ends_forgetClass_of
    (foreign : opened.session.isOwnedBy name source = false → done () opened)
    (owned : opened.session.isOwnedBy name source →
      Ends (Outputs.delete outputRoot name toolchain.outputExtension) opened.world.files
        (fun _ files => done () ⟨opened.session.withoutClass name, { opened.world with files }⟩)
        (fun fault files =>
          failed (.io fault) { opened with world := { opened.world with files } })) :
    Ends (forgetClass toolchain outputRoot name source) opened done failed := by
  simp only [forgetClass, ends_bind, ends_current]
  split
  next owns =>
    rw [ends_bind, ends_outside, ends_change]
    exact owned owns
  next lacks => exact foreign (by simpa using lacks)

theorem ends_forgetPrevious_of
    (keeps : (∀ previous, opened.session.recordedType? declaration.source = some previous →
      (previous ≠ declaration.name && batch.all (·.name ≠ previous)) = false) → done () opened)
    (forgets : ∀ previous, opened.session.recordedType? declaration.source = some previous →
      (previous ≠ declaration.name && batch.all (·.name ≠ previous)) = true →
      Ends (forgetClass toolchain outputRoot previous declaration.source) opened done failed) :
    Ends (forgetPrevious toolchain outputRoot batch declaration) opened done failed := by
  simp only [forgetPrevious, ends_bind, ends_current]
  cases recorded : opened.session.recordedType? declaration.source with
  | none =>
      refine keeps fun previous found => ?_
      rw [recorded] at found
      cases found
  | some previous =>
      dsimp only
      split
      next unclaimed => exact forgets previous recorded unclaimed
      next claimed =>
        refine keeps fun other found => ?_
        obtain rfl := Option.some.inj (recorded.symm.trans found)
        exact Bool.eq_false_iff.mpr claimed

theorem ends_removeSource_of
    (unrecorded : opened.session.recordedType? source = none → done () opened)
    (recorded : ∀ name, opened.session.recordedType? source = some name →
      Ends (forgetClass toolchain outputRoot name source)
        { opened with session := opened.session.withoutSource source } done failed) :
    Ends (removeSource toolchain outputRoot source) opened done failed := by
  simp only [removeSource, ends_bind, ends_current]
  cases found : opened.session.recordedType? source with
  | none => exact unrecorded found
  | some name =>
      simp only [ends_bind, ends_revise]
      exact recorded name found

end Each

/-! ## Forgetting -/

def withoutOwned (session : Session) (name : String) (source : Path) : Session :=
  if session.isOwnedBy name source then session.withoutClass name else session

theorem ends_forgetClass (toolchain : Toolchain) (outputRoot : Path) (name : String)
    (source : Path) (opened : OpenSession) :
    Ends (forgetClass toolchain outputRoot name source) opened
      (fun _ next => next.session = opened.session.withoutOwned name source)
      (fun _ next => next.session = opened.session) := by
  refine ends_forgetClass_of (fun foreign => by simp [withoutOwned, foreign]) fun owned => ?_
  exact (ends_true _ _).imp (fun _ _ _ => by simp [withoutOwned, owned]) fun _ _ _ => rfl

/-- The session once the source has lost the type that it declared before, unless the batch
declares it. -/
def dropPrevious (batch : List Declaration) (session : Session) (declaration : Declaration) :
    Session :=
  match session.recordedType? declaration.source with
  | none => session
  | some previous =>
    if previous ≠ declaration.name && batch.all (·.name ≠ previous) then
      session.withoutOwned previous declaration.source
    else session

theorem ends_forgetPrevious (toolchain : Toolchain) (outputRoot : Path) (batch : List Declaration)
    (declaration : Declaration) (opened : OpenSession) :
    Ends (forgetPrevious toolchain outputRoot batch declaration) opened
      (fun _ next => next.session = opened.session.dropPrevious batch declaration)
      (fun _ next => next.session = opened.session) := by
  refine ends_forgetPrevious_of (fun keeps => ?_) fun previous recorded unclaimed => ?_
  · rw [dropPrevious]
    split
    next => rfl
    next previous recorded => rw [keeps previous recorded, if_neg Bool.false_ne_true]
  · rw [dropPrevious, recorded]
    dsimp only
    rw [if_pos unclaimed]
    exact ends_forgetClass _ _ _ _ _

/-! ## Refreshing -/

def learnAll (session : Session) (learned : List (Declaration × SourceAbi)) : Session :=
  learned.foldl (fun session (declaration, abi) => session.learn abi declaration.source) session

@[simp] theorem learnAll_nil (session : Session) : session.learnAll [] = session := rfl

theorem learnAll_cons (session : Session) (entry : Declaration × SourceAbi)
    (learned : List (Declaration × SourceAbi)) :
    session.learnAll (entry :: learned) =
      (session.learn entry.2 entry.1.source).learnAll learned := rfl

structure Refreshed (toolchain : Toolchain) (outputRoot : Path) (sources : List Path)
    (before after : OpenSession) (learned : List (Declaration × SourceAbi)) : Prop where
  sources : learned.map (·.1.source) = sources
  declared : ∀ entry ∈ learned,
    toolchain.typeDeclaredBy before.world.files entry.1.source = .ok entry.1.name
  surfaces : ∀ entry ∈ learned, toolchain.surfaceOf after.world.files
    (Outputs.unitPath outputRoot entry.1.name toolchain.outputExtension) = .ok entry.2
  session : after.session = ((learned.map (·.1)).foldl (dropPrevious (learned.map (·.1)))
    before.session).learnAll learned

namespace Refreshed

variable {toolchain : Toolchain} {outputRoot : Path} {sources : List Path}
  {before after : OpenSession} {learned : List (Declaration × SourceAbi)}
  (refreshed : Refreshed toolchain outputRoot sources before after learned)
include refreshed

theorem mem_sources {entry : Declaration × SourceAbi} (member : entry ∈ learned) :
    entry.1.source ∈ sources := by
  rw [← refreshed.sources]
  exact List.mem_map_of_mem member

theorem exists_entry {source : Path} (member : source ∈ sources) :
    ∃ entry ∈ learned, entry.1.source = source := by
  rw [← refreshed.sources] at member
  exact List.mem_map.mp member

end Refreshed

theorem Refreshed.pairwise_location {toolchain : Toolchain} {outputRoot : Path} {sources : PathSet}
    {before after : OpenSession} {learned : List (Declaration × SourceAbi)}
    (refreshed : Refreshed toolchain outputRoot sources.toList before after learned) :
    learned.Pairwise fun first second => first.1.source.location ≠ second.1.source.location := by
  have apart := PathSet.pairwise_toList sources
  rwa [← refreshed.sources, List.pairwise_map] at apart

theorem ends_declarations (toolchain : Toolchain) (sources : List Path)
    (opened : OpenSession) :
    Ends (sources.mapM fun source => do
        let name ← consult fun _ files => toolchain.typeDeclaredBy files source
        pure (Declaration.mk source name)) opened
      (fun batch next => next = opened ∧ batch.map (·.source) = sources ∧
        ∀ declaration ∈ batch,
          toolchain.typeDeclaredBy opened.world.files declaration.source = .ok declaration.name)
      (fun _ next => next = opened) := by
  induction sources with
  | nil => exact ⟨rfl, rfl, by simp⟩
  | cons source sources ih =>
      rw [List.mapM_cons]
      simp only [bind_assoc, pure_bind, ends_bind, ends_look]
      cases declares : toolchain.typeDeclaredBy opened.world.files source with
      | error error => trivial
      | ok name =>
          refine ih.imp ?_ fun _ _ same => same
          rintro batch next ⟨rfl, sameSources, declared⟩
          refine ⟨rfl, by simp [sameSources], ?_⟩
          rw [List.forall_mem_cons]
          exact ⟨declares, declared⟩

theorem ends_forM_forgetPrevious (toolchain : Toolchain) (outputRoot : Path)
    (batch : List Declaration) (opened : OpenSession) :
    Ends (batch.forM (forgetPrevious toolchain outputRoot batch)) opened
      (fun _ next => next.session = batch.foldl (dropPrevious batch) opened.session)
      (fun _ _ => True) := by
  refine Ends.forM (fun rest next => rest.foldl (dropPrevious batch) next.session =
    batch.foldl (dropPrevious batch) opened.session) ?_ batch opened rfl
  intro declaration rest state kept
  refine (ends_forgetPrevious toolchain outputRoot batch declaration state).imp ?_
    fun _ _ _ => trivial
  intro _ next changed
  rw [changed, ← kept, List.foldl_cons]

theorem ends_forM_refreshOne (toolchain : Toolchain) (outputRoot : Path)
    (batch : List Declaration) (opened : OpenSession) :
    Ends (batch.forM (refreshOne toolchain outputRoot)) opened
      (fun _ next => next.world = opened.world ∧ ∃ learned : List (Declaration × SourceAbi),
        learned.map (·.1) = batch ∧ next.session = opened.session.learnAll learned ∧
        ∀ entry ∈ learned, toolchain.surfaceOf opened.world.files
          (Outputs.unitPath outputRoot entry.1.name toolchain.outputExtension) = .ok entry.2)
      (fun _ _ => True) := by
  induction batch generalizing opened with
  | nil => exact ⟨rfl, [], rfl, rfl, by simp⟩
  | cons declaration batch ih =>
      change Ends (refreshOne toolchain outputRoot declaration >>= fun _ =>
        batch.forM (refreshOne toolchain outputRoot)) opened _ _
      simp only [refreshOne, ends_bind, ends_look, ends_revise]
      cases surface : toolchain.surfaceOf opened.world.files
          (Outputs.unitPath outputRoot declaration.name toolchain.outputExtension) with
      | error error => trivial
      | ok abi =>
          refine (ih { opened with session := opened.session.learn abi declaration.source }).imp ?_
            fun _ _ _ => trivial
          rintro _ next ⟨sameWorld, learned, sameBatch, changed, surfaces⟩
          refine ⟨sameWorld, (declaration, abi) :: learned, by simp [sameBatch], changed, ?_⟩
          rw [List.forall_mem_cons]
          exact ⟨surface, surfaces⟩

theorem ends_refresh (toolchain : Toolchain) (outputRoot : Path) (sources : List Path)
    (opened : OpenSession) :
    Ends (refresh toolchain outputRoot sources) opened
      (fun _ next => ∃ learned, Refreshed toolchain outputRoot sources opened next learned)
      (fun _ _ => True) := by
  simp only [refresh, ends_bind]
  refine (ends_declarations toolchain sources opened).imp ?_ fun _ _ _ => trivial
  rintro batch _ ⟨rfl, sameSources, declared⟩
  refine (ends_forM_forgetPrevious toolchain outputRoot batch _).imp ?_ fun _ _ _ => trivial
  intro _ middle dropped
  refine (ends_forM_refreshOne toolchain outputRoot batch middle).imp ?_ fun _ _ _ => trivial
  rintro _ next ⟨sameWorld, learned, rfl, changed, surfaces⟩
  refine ⟨learned, ?_, ?_, ?_, ?_⟩
  · rw [← sameSources, List.map_map, Function.comp_def]
  · intro entry member
    exact declared _ (List.mem_map_of_mem member)
  · rwa [sameWorld]
  · rw [changed, dropped]

/-! ## Removing -/

def dropSource (session : Session) (source : Path) : Session :=
  match session.recordedType? source with
  | none => session
  | some name => (session.withoutSource source).withoutOwned name source

theorem ends_removeSource (toolchain : Toolchain) (outputRoot source : Path)
    (opened : OpenSession) :
    Ends (removeSource toolchain outputRoot source) opened
      (fun _ next => next.session = opened.session.dropSource source) (fun _ _ => True) := by
  refine ends_removeSource_of (fun unrecorded => by rw [dropSource, unrecorded]) ?_
  intro name recorded
  rw [dropSource, recorded]
  exact (ends_forgetClass _ _ _ _ _).imp (fun _ _ => id) fun _ _ _ => trivial

theorem ends_removeSources (toolchain : Toolchain) (outputRoot : Path) (sources : List Path)
    (opened : OpenSession) :
    Ends (removeSources toolchain outputRoot sources) opened
      (fun _ next => next.session = sources.foldl dropSource opened.session)
      (fun _ _ => True) := by
  refine Ends.forM (fun rest next => rest.foldl dropSource next.session =
    sources.foldl dropSource opened.session) ?_ sources opened rfl
  intro source rest state kept
  refine (ends_removeSource toolchain outputRoot source state).imp ?_ fun _ _ _ => trivial
  intro _ next changed
  rw [changed, ← kept, List.foldl_cons]

/-! ## Opening and storing -/

theorem ends_start {cacheFile : Path} {world : World} {holds : FileSystem → Prop}
    (same : holds world.files)
    (removes : Ends (FileSystem.removeFile cacheFile) world.files (fun _ next => holds next)
      (fun _ next => holds next)) :
    Ends (start cacheFile) world
      (fun session next => load world.files cacheFile = .ok session ∧ next = world ∨
        session = .empty ∧ holds next.files)
      (fun _ _ => False) := by
  rw [start, ends_bind, ends_inspect, ends_ite]
  split
  · rw [ends_bind, ends_inspect]
    cases loaded : load world.files cacheFile with
    | ok session => exact .inl ⟨rfl, rfl⟩
    | error error =>
        dsimp only
        rw [ends_bind, ends_notify, ends_bind, ends_tryChange]
        exact removes.imp (fun _ _ kept => .inr ⟨rfl, kept⟩) fun _ _ kept => .inr ⟨rfl, kept⟩
  · exact .inr ⟨rfl, same⟩

theorem ends_persist (cacheFile : Path) (opened : OpenSession) :
    Ends (persist cacheFile) opened (fun _ next => next.session = opened.session)
      (fun _ next => next.session = opened.session) := by
  simp only [persist, store, ends_bind, ends_current, ends_outside]
  exact ends_true _ _

theorem ends_reset (cacheFile : Path) (opened : OpenSession) :
    Ends (reset cacheFile) opened (fun _ next => next.session = opened.session.forgetAll)
      (fun _ next => next.session = opened.session.forgetAll) := by
  simp only [reset, ends_bind, ends_revise, ends_outside]
  exact ends_true _ _

end AbiBuild.Session
