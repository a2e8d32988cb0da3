import AbiBuild.Proofs.Build.CacheFile
import AbiBuild.Proofs.Files.Open
import AbiBuild.Proofs.Files.Reading
import AbiBuild.Proofs.InStep
import AbiBuild.Proofs.Session.Files
import AbiBuild.Proofs.Session.Resuming

/-!
# A build of everything forgets

Where two projects differ in the cache file and in the outputs alone, a build of everything makes
them the same.  Nothing of what was stored survives: the output root is made anew, and the session is
learned from nothing.
-/

namespace AbiBuild

open Files FileSystem SessionAction

variable {toolchain : Toolchain} {request : BuildRequest} {outputRoot cacheFile : Path}
  {first second : FileSystem}

structure CanBuild (outputRoot cacheFile : Path) (files : FileSystem) : Prop where
  calm : files.Calm
  output : TakesDirectory outputRoot files
  cache : TakesFile cacheFile files
  apart : Apart files outputRoot cacheFile

/-- Two trees that can be built in and differ at most in the outputs, in the cache file, and in the
directories on the way there. -/
structure AlikeOutside (outputRoot cacheFile : Path) (first second : FileSystem) : Prop where
  left : CanBuild outputRoot cacheFile first
  right : CanBuild outputRoot cacheFile second
  host : second.host = first.host
  elsewhere : ∀ place, ¬place <+: first.placeFor cacheFile → ¬first.placeFor outputRoot <+: place →
    ¬place <+: first.placeFor outputRoot → second.entryAt? place = first.entryAt? place

instance (files : FileSystem) : Decidable (CanBuild outputRoot cacheFile files) :=
  decidable_of_iff (files.Calm ∧ TakesDirectory outputRoot files ∧ TakesFile cacheFile files ∧
      Apart files outputRoot cacheFile) <| by
    constructor
    · rintro ⟨calm, output, cache, apart⟩
      exact ⟨calm, output, cache, apart⟩
    · exact fun can => ⟨can.calm, can.output, can.cache, can.apart⟩

theorem alikeOutside_iff : AlikeOutside outputRoot cacheFile first second ↔
    CanBuild outputRoot cacheFile first ∧ CanBuild outputRoot cacheFile second ∧
      second.host = first.host ∧
      ∀ place ∈ first.entries.keys ++ second.entries.keys,
        ¬place <+: first.placeFor cacheFile ∧ ¬first.placeFor outputRoot <+: place ∧
          ¬place <+: first.placeFor outputRoot → second.entryAt? place = first.entryAt? place := by
  rw [← forall_place_iff]
  constructor
  · exact fun alike => ⟨alike.left, alike.right, alike.host,
      fun place elsewhere => alike.elsewhere place elsewhere.1 elsewhere.2.1 elsewhere.2.2⟩
  · rintro ⟨left, right, directory, elsewhere⟩
    exact ⟨left, right, directory,
      fun place apart outside leads => elsewhere place ⟨apart, outside, leads⟩⟩

instance : Decidable (AlikeOutside outputRoot cacheFile first second) :=
  decidable_of_iff _ alikeOutside_iff.symm

/-- Two trees with the same outputs that differ at most in the cache file and in the directories on
the way there. -/
structure AlikeButCache (outputRoot cacheFile : Path) (first second : FileSystem) : Prop where
  left : CanBuild outputRoot cacheFile first
  right : CanBuild outputRoot cacheFile second
  host : second.host = first.host
  output : first.entryAt? (first.placeFor outputRoot) = some .directory
  elsewhere : ∀ place, ¬place <+: first.placeFor cacheFile →
    second.entryAt? place = first.entryAt? place

theorem CanBuild.without {files after : FileSystem} (can : CanBuild outputRoot cacheFile files)
    (becomes : Becomes files after (files.without (files.placeFor cacheFile))) :
    CanBuild outputRoot cacheFile after := by
  have noNewFile := files.noNewFile_without (files.placeFor cacheFile)
  refine ⟨becomes.calm,
    can.output.becomes becomes noNewFile (can.output.base_without can.cache.leaf),
    can.cache.becomes becomes noNewFile (can.cache.base_without can.cache.leaf) ?_,
    can.apart.congr becomes.host⟩
  rw [FileSystem.without, if_pos rfl]
  simp

namespace AlikeButCache

variable (alike : AlikeButCache outputRoot cacheFile first second)
include alike

theorem keeps_output : Keeps outputRoot first second where
  host := alike.host
  wellFormed _ := alike.right.calm.wellFormed
  same place inside := by
    have below : place ≠ [] := by
      rintro rfl
      exact placeFor_ne_nil alike.left.output.plain (List.prefix_nil.mp inside)
    rw [← entryAt?_of_ne_nil _ below, ← entryAt?_of_ne_nil _ below]
    exact alike.elsewhere place fun leads => alike.left.apart.left (inside.trans leads)

/-- Once neither has a cache file and both have the directories on the way there, nothing is
different. -/
theorem eq_of_paved {before after : FileSystem}
    (becomes : Becomes first before (first.paved (first.placeFor cacheFile).dropLast))
    (becomes' : Becomes second after (second.paved (second.placeFor cacheFile).dropLast))
    (absent : first.entryAt? (first.placeFor cacheFile) = none)
    (absent' : second.entryAt? (second.placeFor cacheFile) = none) : after = before := by
  have places := placeFor_congr alike.host
  refine eq_of_entryAt? becomes.calm becomes'.calm ?_ fun place => ?_
  · rw [becomes.host, becomes'.host, alike.host]
  rw [becomes.entries, becomes'.entries, paved, paved, places]
  by_cases leads : place <+: (first.placeFor cacheFile).dropLast
  · rw [if_pos leads, if_pos leads]
  rw [if_neg leads, if_neg leads]
  by_cases here : place = first.placeFor cacheFile
  · rw [here, absent, ← places, absent']
  refine alike.elsewhere place fun onTheWay => ?_
  obtain ⟨last, -, split, -⟩ := dropLast_placeFor first alike.left.cache.plain
  rw [split] at onTheWay here
  rcases List.prefix_concat_iff.mp onTheWay with same | further
  · exact here same
  · exact leads further

theorem without {before after : FileSystem}
    (becomes : Becomes first before (first.without (first.placeFor cacheFile)))
    (becomes' : Becomes second after (second.without (second.placeFor cacheFile))) :
    AlikeButCache outputRoot cacheFile before after := by
  have places := placeFor_congr alike.host
  refine ⟨alike.left.without becomes, alike.right.without becomes', ?_, ?_, ?_⟩
  · rw [becomes.host, becomes'.host, alike.host]
  · rw [placeFor_congr becomes.host, becomes.entries, FileSystem.without,
      if_neg alike.left.apart.placeFor_ne.symm, alike.output]
  · intro place
    rw [placeFor_congr becomes.host]
    intro elsewhere
    have different : ¬first.placeFor cacheFile = place := by
      rintro rfl
      exact elsewhere (List.prefix_refl _)
    rw [becomes.entries, becomes'.entries, FileSystem.without, FileSystem.without, places,
      if_neg different, if_neg different, alike.elsewhere place elsewhere]

end AlikeButCache

/-! ## Making the output root anew -/

theorem CanBuild.renewed {files after : FileSystem} (can : CanBuild outputRoot cacheFile files)
    (becomes : Becomes files after (files.renewed (files.placeFor outputRoot))) :
    CanBuild outputRoot cacheFile after := by
  have noNewFile := files.noNewFile_renewed (files.placeFor outputRoot)
  refine ⟨becomes.calm, can.output.becomes becomes noNewFile ?_,
    can.cache.becomes becomes noNewFile ?_ ?_, can.apart.congr becomes.host⟩
  · rw [FileSystem.renewed, if_pos (prefix_baseOf _ _)]
  · rw [FileSystem.renewed, can.cache.base_cleared, ite_self]
    exact fun inside => can.apart.left (inside.trans (prefix_baseOf _ _))
  · rw [FileSystem.renewed, if_neg can.apart.right, cleared, if_neg can.apart.left]
    exact can.cache.leaf

theorem AlikeOutside.renewed {before after : FileSystem}
    (alike : AlikeOutside outputRoot cacheFile first second)
    (becomes : Becomes first before (first.renewed (first.placeFor outputRoot)))
    (becomes' : Becomes second after (second.renewed (second.placeFor outputRoot))) :
    AlikeButCache outputRoot cacheFile before after := by
  have places := placeFor_congr alike.host
  refine ⟨alike.left.renewed becomes, alike.right.renewed becomes', ?_, ?_, ?_⟩
  · rw [becomes.host, becomes'.host, alike.host]
  · rw [placeFor_congr becomes.host, becomes.entries, FileSystem.renewed,
      if_pos (List.prefix_refl _)]
  · intro place
    rw [placeFor_congr becomes.host]
    intro elsewhere
    rw [becomes.entries, becomes'.entries, FileSystem.renewed, FileSystem.renewed, cleared, cleared,
      places]
    by_cases leads : place <+: first.placeFor outputRoot
    · rw [if_pos leads, if_pos leads]
    rw [if_neg leads, if_neg leads]
    by_cases inside : first.placeFor outputRoot <+: place
    · rw [if_pos inside, if_pos inside]
    rw [if_neg inside, if_neg inside, alike.elsewhere place elsewhere inside leads]

theorem bare_renewed {files after : FileSystem}
    (becomes : Becomes files after (files.renewed (files.placeFor outputRoot))) :
    Bare outputRoot after := by
  intro place inside further
  rw [placeFor_congr becomes.host] at inside further
  have below : place ≠ [] := by
    rintro rfl
    exact further (List.prefix_nil.mp inside).symm
  rw [← entryAt?_of_ne_nil _ below, becomes.entries, FileSystem.renewed, cleared, if_pos inside,
    if_neg fun leads => further (leads.eq_of_length_le inside.length_le)]

/-! ## Compiling everything -/

/-- What is compiled into an empty output root, and what is read of sources and units afterwards, has
nothing to do with the cache file. -/
structure Toolchain.Overlooks (toolchain : Toolchain) (cacheFile : Path) (compile : CompileRequest) :
    Prop where
  compiles : ∀ first second : World,
    AlikeButCache compile.outputRoot cacheFile first.files second.files →
    Bare compile.outputRoot first.files →
    EndAlike
      (fun _ next other => AlikeButCache compile.outputRoot cacheFile next.files other.files)
      (fun _ next other => AlikeButCache compile.outputRoot cacheFile next.files other.files)
      (toolchain.compile compile first) (toolchain.compile compile second)
  declares : ∀ first second, AlikeButCache compile.outputRoot cacheFile first second →
    ∀ source ∈ compile.sources.toList,
      toolchain.typeDeclaredBy second source = toolchain.typeDeclaredBy first source
  surfaces : ∀ first second, AlikeButCache compile.outputRoot cacheFile first second →
    ∀ source ∈ compile.sources.toList, ∀ name, toolchain.typeDeclaredBy first source = .ok name →
      toolchain.surfaceOf second
          (Outputs.unitPath compile.outputRoot name toolchain.outputExtension) =
        toolchain.surfaceOf first
          (Outputs.unitPath compile.outputRoot name toolchain.outputExtension)

namespace Build

/-- What a build of everything asks of the compiler. -/
def everything (request : BuildRequest) : CompileRequest :=
  ⟨request.outputRoot, request.classpath, ∅, PathSet.ofList request.sources.present⟩

theorem compileAll_alike {world other : World}
    (overlooks : toolchain.Overlooks request.cacheFile (everything request))
    (alike : AlikeOutside request.outputRoot request.cacheFile world.files other.files) :
    EndAlike
      (fun _ next next' =>
        AlikeButCache request.outputRoot request.cacheFile next.files next'.files)
      (fun _ next next' =>
        AlikeButCache request.outputRoot request.cacheFile next.files next'.files)
      (compileAll toolchain request world) (compileAll toolchain request other) := by
  obtain ⟨emptied, empties, becomes⟩ :=
    recreateDirectory_of_open alike.left.calm alike.left.output
  obtain ⟨emptied', empties', becomes'⟩ :=
    recreateDirectory_of_open alike.right.calm alike.right.output
  have renewed := alike.renewed becomes becomes'
  have begins : BuildAction.change (recreateDirectory request.outputRoot) world =
      .ok () { world with files := emptied } := by rw [BuildAction.change, empties]
  have begins' : BuildAction.change (recreateDirectory request.outputRoot) other =
      .ok () { other with files := emptied' } := by rw [BuildAction.change, empties']
  refine EndAlike.bind_of_ok begins begins' ?_
  rw [compileAny]
  split
  · exact .returned renewed
  · exact overlooks.compiles { world with files := emptied } { other with files := emptied' } renewed
      (bare_renewed becomes)

end Build

/-! ## Learning from nothing -/

structure Beside (world other : World) (opened opened' : OpenSession) : Prop where
  left : opened.world = world
  right : opened'.world = other
  session : opened'.session.resumed = opened.session.resumed

namespace Session

variable {world other : World}

theorem inStep_consult {α : Type} {look : FileSystem → Except BuildError α}
    (same : look other.files = look world.files) :
    InStep (Beside world other) (SessionAction.consult fun _ files => look files) := by
  rintro opened opened' ⟨rfl, rfl, session⟩
  simp only [SessionAction.consult, same]
  cases look opened.world.files with
  | ok value => exact .returned ⟨rfl, rfl, session⟩
  | error error => exact .failed ⟨rfl, rfl, session⟩

theorem inStep_revise {change : Session → Session}
    (commutes : ∀ session, change session.resumed = (change session).resumed) :
    InStep (Beside world other) (SessionAction.revise change) := by
  rintro opened opened' ⟨rfl, rfl, session⟩
  refine .returned ⟨rfl, rfl, ?_⟩
  rw [← commutes, ← commutes, session]

theorem inStep_refreshOne {outputRoot : Path} {declaration : Declaration}
    (same : toolchain.surfaceOf other.files
        (Outputs.unitPath outputRoot declaration.name toolchain.outputExtension) =
      toolchain.surfaceOf world.files
        (Outputs.unitPath outputRoot declaration.name toolchain.outputExtension)) :
    InStep (Beside world other) (refreshOne toolchain outputRoot declaration) :=
  InStep.bind (inStep_consult same) fun abi => inStep_revise fun session =>
    record_resumed { session with graph := session.graph.update abi } abi.className _

theorem forM_forgetPrevious_of_empty {opened : OpenSession}
    (empty : opened.session.sourceToClass = ∅) (batch declarations : List Declaration) :
    declarations.forM (forgetPrevious toolchain outputRoot batch) opened = .ok () opened := by
  have none : ∀ source, opened.session.recordedType? source = none := by
    intro source
    rw [recordedType?, empty]
    exact Std.ExtTreeMap.getElem?_empty
  induction declarations with
  | nil => rfl
  | cons declaration declarations ih =>
      have step : forgetPrevious toolchain outputRoot batch declaration opened = .ok () opened := by
        simp only [forgetPrevious, bind, EStateM.bind, current, none]
        rfl
      change EStateM.bind _ _ opened = _
      simp only [EStateM.bind, step]
      exact ih

theorem refresh_alike {opened opened' : OpenSession} {sources : List Path}
    (beside : Beside world other opened opened') (empty : opened.session.sourceToClass = ∅)
    (declares : ∀ source ∈ sources, toolchain.typeDeclaredBy other.files source =
      toolchain.typeDeclaredBy world.files source)
    (surfaces : ∀ source ∈ sources, ∀ name,
      toolchain.typeDeclaredBy world.files source = .ok name →
      toolchain.surfaceOf other.files
          (Outputs.unitPath outputRoot name toolchain.outputExtension) =
        toolchain.surfaceOf world.files
          (Outputs.unitPath outputRoot name toolchain.outputExtension)) :
    EndAlike (fun _ => Beside world other) (fun _ => Beside world other)
      (refresh toolchain outputRoot sources opened)
      (refresh toolchain outputRoot sources opened') := by
  have types := congrArg Session.sourceToClass beside.session
  have empty' : opened'.session.sourceToClass = ∅ := types.trans empty
  have looks : InStep (Beside world other) (sources.mapM fun source => do
      let name ← SessionAction.consult fun _ files => toolchain.typeDeclaredBy files source
      pure (Declaration.mk source name)) :=
    InStep.mapM fun source member =>
      InStep.bind (inStep_consult (declares source member)) fun _ => InStep.pure _
  refine EndAlike.bind ((looks _ _ beside).result.imp ?_ fun _ _ _ failed => failed.2.2)
  rintro batch next next' ⟨returns, returns', -⟩
  obtain ⟨rfl, listed, declared⟩ := (ends_declarations toolchain sources opened).of_ok returns
  obtain ⟨rfl, -, -⟩ := (ends_declarations toolchain sources opened').of_ok returns'
  refine EndAlike.bind_of_ok (forM_forgetPrevious_of_empty empty batch batch)
    (forM_forgetPrevious_of_empty empty' batch batch) ?_
  refine InStep.forM (fun declaration member => inStep_refreshOne ?_) _ _ beside
  have source : declaration.source ∈ sources := by
    rw [← listed]
    exact List.mem_map_of_mem member
  have declares := declared _ member
  rw [beside.left] at declares
  exact surfaces _ source _ declares

theorem exists_reset (opened : OpenSession) (calm : opened.world.files.Calm)
    (takes : TakesFile cacheFile opened.world.files) : ∃ files,
      reset cacheFile opened =
          .ok () ⟨opened.session.forgetAll, { opened.world with files }⟩ ∧
        Becomes opened.world.files files
          (opened.world.files.without (opened.world.files.placeFor cacheFile)) := by
  obtain ⟨files, removes, becomes⟩ := removeFile_of_open calm takes
  have ignores : ignoreMissing (removeFile cacheFile) opened.world.files = .ok () files := by
    rcases removes with removed | missing
    · rw [ignoreMissing, removed]
    · rw [ignoreMissing, missing]
  refine ⟨files, ?_, becomes⟩
  simp only [reset, bind, EStateM.bind, SessionAction.revise, SessionAction.outside,
    BuildAction.change, ignores]

theorem persist_of_makes {opened : OpenSession} {made : FileSystem}
    (makes : (match cacheFile.parent? with
      | some parent => makeDirectories parent
      | none => pure ()) opened.world.files = .ok () made) :
    persist cacheFile opened =
      SessionAction.outside (BuildAction.change (replaceFile cacheFile
        opened.session.toCacheData.encode)) ⟨opened.session, { opened.world with files := made }⟩ := by
  simp only [persist, store, bind, EStateM.bind, current, SessionAction.outside, BuildAction.change]
  cases above : cacheFile.parent? with
  | none =>
      rw [above] at makes
      injection makes with _ same
      subst same
      rfl
  | some parent =>
      rw [above] at makes
      change makeDirectories parent opened.world.files = _ at makes
      simp only [EStateM.bind, makes]

theorem persist_alike {opened opened' : OpenSession}
    (alike : AlikeButCache outputRoot cacheFile opened.world.files opened'.world.files)
    (absent : opened.world.files.entryAt? (opened.world.files.placeFor cacheFile) = none)
    (absent' : opened'.world.files.entryAt? (opened'.world.files.placeFor cacheFile) = none)
    (session : opened'.session.resumed = opened.session.resumed) :
    EndAlike
      (fun _ next other => other.world.files = next.world.files ∧
        next.world.files.read cacheFile = .ok opened.session.toCacheData.encode)
      (fun _ next other => other.world.files = next.world.files)
      (persist cacheFile opened) (persist cacheFile opened') := by
  obtain ⟨made, makes, becomes⟩ := makeParent_of_open alike.left.calm alike.left.cache.toOpen
  obtain ⟨made', makes', becomes'⟩ := makeParent_of_open alike.right.calm alike.right.cache.toOpen
  obtain rfl := alike.eq_of_paved becomes becomes' absent absent'
  have stored := congrArg Session.toCacheData session
  change opened'.session.toCacheData = opened.session.toCacheData at stored
  have writes := ends_replaceFile_entryOf cacheFile opened.session.toCacheData.encode made'
  have host := moves_replaceFile_sameHome cacheFile opened.session.toCacheData.encode made'
  rw [persist_of_makes makes, persist_of_makes makes', stored]
  simp only [SessionAction.outside, BuildAction.change]
  cases replaces : replaceFile cacheFile opened.session.toCacheData.encode made' with
  | ok _ files =>
      have legible := becomes.calm.legible.congr (host.of_ok replaces)
      exact .returned ⟨rfl, read_of_entryOf legible (writes.of_ok replaces)⟩
  | error fault files => exact .failed rfl

end Session

namespace Build

/-! ## Building everything -/

structure EndSame (cacheFile : Path) (next other : FileSystem) : Prop where
  files : other = next
  stored : ∃ session : Session, next.read cacheFile = .ok session.toCacheData.encode

theorem commitFull_alike {opened opened' : OpenSession}
    (overlooks : toolchain.Overlooks request.cacheFile (everything request))
    (alike : AlikeButCache request.outputRoot request.cacheFile opened.world.files
      opened'.world.files) :
    EndAlike
      (fun _ next other => EndSame request.cacheFile next.world.files other.world.files)
      (fun _ next other => Keeps request.outputRoot next.world.files other.world.files)
      (commitFull toolchain request (PathSet.ofList request.sources.present) opened)
      (commitFull toolchain request (PathSet.ofList request.sources.present) opened') := by
  obtain ⟨files, resets, becomes⟩ :=
    Session.exists_reset opened alike.left.calm alike.left.cache
  obtain ⟨files', resets', becomes'⟩ :=
    Session.exists_reset opened' alike.right.calm alike.right.cache
  have alike := alike.without becomes becomes'
  refine EndAlike.bind_of_ok resets resets' (EndAlike.bind ?_)
  have beside : Beside { opened.world with files } { opened'.world with files := files' }
      ⟨opened.session.forgetAll, _⟩ ⟨opened'.session.forgetAll, _⟩ := ⟨rfl, rfl, rfl⟩
  refine (Session.refresh_alike beside rfl (overlooks.declares _ _ alike)
    (overlooks.surfaces _ _ alike)).imp ?_ ?_
  · rintro _ next other ⟨left, right, session⟩
    have absent : files.entryAt? (files.placeFor request.cacheFile) = none := by
      rw [placeFor_congr becomes.host, becomes.entries, without, if_pos rfl]
    have absent' : files'.entryAt? (files'.placeFor request.cacheFile) = none := by
      rw [placeFor_congr becomes'.host, becomes'.entries, without, if_pos rfl]
    have worlds : next.world.files = files := by rw [left]
    have worlds' : other.world.files = files' := by rw [right]
    rw [← worlds] at absent alike
    rw [← worlds'] at absent' alike
    refine (Session.persist_alike alike absent absent' session).imp ?_ ?_
    · rintro _ last last' ⟨same, reads⟩
      exact ⟨same, next.session, reads⟩
    · rintro _ last last' same
      rw [same]
      exact Accumulates.refl _
  · rintro _ next other ⟨left, right, -⟩
    rw [left, right]
    exact alike.keeps_output

theorem full_alike {opened opened' : OpenSession}
    (overlooks : toolchain.Overlooks request.cacheFile (everything request))
    (alike : AlikeOutside request.outputRoot request.cacheFile opened.world.files
      opened'.world.files) :
    EndAlike
      (fun report next other => report.mode = .full ∧
        Keeps request.outputRoot next.world.files other.world.files ∧
        (report.exitCode = 0 → EndSame request.cacheFile next.world.files other.world.files))
      (fun _ next other => Keeps request.outputRoot next.world.files other.world.files)
      (full toolchain request opened) (full toolchain request opened') := by
  rw [full_eq]
  have compiles : EndAlike
      (fun _ (next next' : OpenSession) => AlikeButCache request.outputRoot request.cacheFile
        next.world.files next'.world.files)
      (fun _ next next' => Keeps request.outputRoot next.world.files next'.world.files)
      (SessionAction.outside (compileAll toolchain request) opened)
      (SessionAction.outside (compileAll toolchain request) opened') := by
    have compiles := compileAll_alike overlooks alike
    revert compiles
    simp only [SessionAction.outside]
    generalize compileAll toolchain request opened.world = result
    generalize compileAll toolchain request opened'.world = result'
    rintro (same | same)
    · exact .returned same
    · exact .failed same.keeps_output
  refine EndAlike.bind (compiles.imp ?_ fun _ _ _ => id)
  intro exitCode next next' same
  by_cases good : exitCode = 0
  · simp only [if_pos good]
    refine EndAlike.bind ((commitFull_alike overlooks same).imp ?_ fun _ _ _ => id)
    intro _ last last' ends
    refine .returned ⟨rfl, ?_, fun _ => ends⟩
    rw [ends.files]
    exact Accumulates.refl _
  · simp only [if_neg good]
    exact .returned ⟨rfl, same.keeps_output, fun zero => absurd zero good⟩

end Build

/-! ## Opening -/

def StaysOrIsGone (cacheFile : Path) (before after : FileSystem) : Prop :=
  after = before ∨ Becomes before after (before.without (before.placeFor cacheFile))

theorem StaysOrIsGone.without {before middle after : FileSystem}
    (stays : StaysOrIsGone cacheFile before middle)
    (becomes : Becomes middle after (middle.without (middle.placeFor cacheFile))) :
    Becomes before after (before.without (before.placeFor cacheFile)) := by
  rcases stays with rfl | gone
  · exact becomes
  · refine (gone.trans becomes).congr fun place => ?_
    rw [FileSystem.without, FileSystem.without, placeFor_congr gone.host, gone.entries,
      FileSystem.without]
    split <;> rfl

theorem Session.exists_start (world : World) (calm : world.files.Calm)
    (takes : TakesFile cacheFile world.files) : ∃ session opened,
      Session.start cacheFile world = .ok session opened ∧
        StaysOrIsGone cacheFile world.files opened.files := by
  obtain ⟨files, removes, becomes⟩ := removeFile_of_open calm takes
  have removed : Ends (removeFile cacheFile) world.files
      (fun _ next => StaysOrIsGone cacheFile world.files next)
      (fun _ next => StaysOrIsGone cacheFile world.files next) := by
    unfold Ends
    rcases removes with done | missing
    · rw [done]
      exact .inr becomes
    · rw [missing]
      exact .inr becomes
  have starts := ends_start (.inl rfl) removed
  unfold Ends at starts
  cases result : Session.start cacheFile world with
  | ok session opened =>
      rw [result] at starts
      refine ⟨session, opened, rfl, ?_⟩
      rcases starts with ⟨-, rfl⟩ | ⟨-, holds⟩
      · exact .inl rfl
      · exact holds
  | error error opened =>
      rw [result] at starts
      cases starts

theorem AlikeOutside.opened {before after : FileSystem}
    (alike : AlikeOutside outputRoot cacheFile first second)
    (stays : StaysOrIsGone cacheFile first before)
    (stays' : StaysOrIsGone cacheFile second after) :
    AlikeOutside outputRoot cacheFile before after := by
  have can : ∀ {files next}, CanBuild outputRoot cacheFile files →
      StaysOrIsGone cacheFile files next → CanBuild outputRoot cacheFile next ∧
        next.host = files.host ∧
        ∀ place, ¬place <+: files.placeFor cacheFile → next.entryAt? place = files.entryAt? place := by
    rintro files next can (rfl | becomes)
    · exact ⟨can, rfl, fun _ _ => rfl⟩
    · refine ⟨can.without becomes, becomes.host, fun place elsewhere => ?_⟩
      rw [becomes.entries, without, if_neg]
      rintro rfl
      exact elsewhere (List.prefix_refl _)
  obtain ⟨left, directory, elsewhere⟩ := can alike.left stays
  obtain ⟨right, directory', elsewhere'⟩ := can alike.right stays'
  refine ⟨left, right, ?_, fun place => ?_⟩
  · rw [directory, directory', alike.host]
  · rw [placeFor_congr directory, placeFor_congr directory]
    intro apart outside leads
    rw [elsewhere place apart, elsewhere' place (by rwa [placeFor_congr alike.host]),
      alike.elsewhere place apart outside leads]

namespace Build

/-- The session that is opened for the request makes it a build of everything. -/
def StartsFull (request : BuildRequest) (world : World) : Prop :=
  ∃ session opened, Session.start request.cacheFile world = .ok session opened ∧
    TakesFull session request

theorem choose_of_takesFull {session : Session} (takes : TakesFull session request)
    (world : World) : choose toolchain request ⟨session, world⟩ =
      full toolchain request ⟨session, begun request world⟩ := by
  rw [choose, begun]
  by_cases changed : request.classpathChanged = true
  · rw [if_pos changed, if_pos changed]
  · have lacks := takes.resolve_left changed
    rw [if_neg changed, if_neg changed]
    simp only [bind, EStateM.bind, current, lacks, if_true]
    rfl

/-- A build of everything depends on its request only by what it asks of the compiler and by the
cache file. -/
theorem full_congr {changed : Bool} {states : SourceStates}
    (present : states.present = request.sources.present) :
    full toolchain { request with classpathChanged := changed, sources := states } =
      full toolchain request := by
  simp only [full, present]
  rfl

/-- Two builds of everything end alike and leave the same outputs behind; if they succeed, the same
files. -/
theorem compileSources_alike {world other : World} {changed : Bool} {states : SourceStates}
    (overlooks : toolchain.Overlooks request.cacheFile (everything request))
    (present : states.present = request.sources.present)
    (alike : AlikeOutside request.outputRoot request.cacheFile world.files other.files)
    (starts : StartsFull request world)
    (starts' : StartsFull { request with classpathChanged := changed, sources := states } other) :
    EndAlike
      (fun report next next' => report.mode = .full ∧
        Keeps request.outputRoot next.files next'.files ∧
        (report.exitCode = 0 → EndSame request.cacheFile next.files next'.files))
      (fun _ next next' => Keeps request.outputRoot next.files next'.files)
      (compileSources toolchain request world)
      (compileSources toolchain { request with classpathChanged := changed, sources := states }
        other) := by
  obtain ⟨session, opened, opens, takes⟩ := starts
  obtain ⟨session', opened', opens', takes'⟩ := starts'
  have stays : StaysOrIsGone request.cacheFile world.files opened.files := by
    obtain ⟨_, _, same, stays⟩ := Session.exists_start world alike.left.calm alike.left.cache
    injection same.symm.trans opens with _ sameWorld
    rwa [sameWorld] at stays
  have stays' : StaysOrIsGone request.cacheFile other.files opened'.files := by
    obtain ⟨_, _, same, stays⟩ := Session.exists_start other alike.right.calm alike.right.cache
    injection same.symm.trans opens' with _ sameWorld
    rwa [sameWorld] at stays
  have begunFiles : ∀ (request : BuildRequest) world, (begun request world).files = world.files := by
    intro request world
    rw [begun]
    split <;> rfl
  refine EndAlike.bind_of_ok opens opens' ?_
  simp only [SessionAction.run]
  rw [choose_of_takesFull takes, choose_of_takesFull takes', full_congr present]
  have alike := alike.opened stays stays'
  rw [← begunFiles request opened,
    ← begunFiles { request with classpathChanged := changed, sources := states } opened'] at alike
  have ends : EndAlike _ _ (full toolchain request ⟨session, begun request opened⟩)
      (full toolchain request ⟨session', begun { request with
        classpathChanged := changed, sources := states } opened'⟩) :=
    full_alike overlooks alike
  revert ends
  generalize full toolchain request ⟨session, begun request opened⟩ = result
  generalize full toolchain request ⟨session', _⟩ = result'
  rintro (holds | holds)
  · exact .returned holds
  · exact .failed holds

end Build

/-! ## Opening what was built -/

/-- The files are the same, and so is the session that they open as.  It is the one that was stored,
where its parts can be counted in 32 bits. -/
structure OpensAlike (cacheFile : Path) (next other : World) : Prop where
  files : other.files = next.files
  opens : ∃ session opened opened', Session.start cacheFile next = .ok session opened ∧
    Session.start cacheFile other = .ok session opened'
  stored : ∃ session : Session, next.files.read cacheFile = .ok session.toCacheData.encode ∧
    (session.toCacheData.Encodable →
      Session.start cacheFile next = .ok (.ofStored session.classToSource session.graph) next ∧
      Session.start cacheFile other = .ok (.ofStored session.classToSource session.graph) other)

theorem Session.inStep_start (cacheFile : Path) : InStep SameFiles (start cacheFile) := by
  refine InStep.bind (inStep_inspect _) fun present => ?_
  split
  · refine InStep.bind (inStep_inspect _) fun loaded => ?_
    split
    · exact InStep.pure _
    · exact InStep.bind (inStep_notify _) fun _ =>
        InStep.bind (inStep_tryChange _) fun _ => InStep.pure _
  · exact InStep.pure _

theorem Session.exists_start_eq_ok (cacheFile : Path) (world : World) :
    ∃ session opened, start cacheFile world = .ok session opened := by
  have removes : Ends (removeFile cacheFile) world.files (fun _ _ => True) (fun _ _ => True) :=
    ends_true _ _
  have starts : Ends (start cacheFile) world _ _ := ends_start trivial removes
  cases result : start cacheFile world with
  | ok session opened => exact ⟨session, opened, rfl⟩
  | error error opened => exact (starts.of_error result).elim

theorem Build.EndSame.opensAlike {next other : World}
    (ends : Build.EndSame cacheFile next.files other.files) : OpensAlike cacheFile next other := by
  obtain ⟨session, reads⟩ := ends.stored
  refine ⟨ends.files, ?_, session, reads, fun encodable => ?_⟩
  · obtain ⟨reopened, opened, starts⟩ := Session.exists_start_eq_ok cacheFile next
    obtain ⟨opened', starts', -⟩ :=
      (Session.inStep_start cacheFile next other ends.files).exists_of_ok starts
    exact ⟨reopened, opened, opened', starts, starts'⟩
  · have reads' : other.files.read cacheFile = .ok session.toCacheData.encode := by
      rw [ends.files, reads]
    exact ⟨Session.start_of_load (pathExists_of_read reads) (Session.load_of_encodable encodable reads),
      Session.start_of_load (pathExists_of_read reads') (Session.load_of_encodable encodable reads')⟩

end AbiBuild
