import AbiBuild.Build.PlainText
import AbiBuild.Proofs.Session.Reached
import AbiBuild.Proofs.Session.Reopen

/-!
# Types and sources stay inverse

However many operations a session has gone through, a type is recorded under a source exactly when
the source is recorded with that type.  A batch may name a source more than once, and its sources may
swap types, take them from each other or from sources elsewhere, or declare one type together.
-/

namespace AbiBuild.Session

open Files

/-- Spellings of one source declare one type. -/
def DeclareAlike (toolchain : Toolchain) (files : FileSystem) (sources : List Path) : Prop :=
  ∀ source ∈ sources, ∀ other ∈ sources, source.location = other.location → ∀ name otherName,
    toolchain.typeDeclaredBy files source = .ok name →
      toolchain.typeDeclaredBy files other = .ok otherName → name = otherName

theorem declareAlike_of_text {toolchain : Toolchain} {files : FileSystem} {sources : List Path}
    (spelled : ∀ source ∈ sources, ∀ other ∈ sources, source.location = other.location →
      source = other) : DeclareAlike toolchain files sources := by
  intro source member other otherMember same name otherName declares declaresOther
  obtain rfl := spelled source member other otherMember same
  rw [declares] at declaresOther
  exact Except.ok.inj declaresOther

/-- One operation that succeeds.  Between operations anything may happen to the files; a cache file
is opened while it reads as it did when it was stored. -/
inductive Succeeds (toolchain : Toolchain) : OpenSession → OpenSession → Prop
  | elsewhere {session : Session} {world next : World} : Succeeds toolchain ⟨session, world⟩
      ⟨session, next⟩
  | reset {before after : OpenSession} {cacheFile : Path}
      (succeeds : Session.reset cacheFile before = .ok () after) : Succeeds toolchain before after
  | remove {before after : OpenSession} {outputRoot : Path} {sources : List Path}
      (succeeds : removeSources toolchain outputRoot sources before = .ok () after) :
      Succeeds toolchain before after
  | refresh {before after : OpenSession} {outputRoot : Path} {sources : List Path}
      (succeeds : Session.refresh toolchain outputRoot sources before = .ok () after)
      (faithful : ReadsFaithfully toolchain outputRoot sources before.world.files after.world.files)
      (alike : DeclareAlike toolchain before.world.files sources) : Succeeds toolchain before after
  | reopen {before stored : OpenSession} {cacheFile : Path} {session : Session}
      {world next : World} (stores : persist cacheFile before = .ok () stored)
      (storable : before.session.Storable)
      (unchanged : world.files.read cacheFile = stored.world.files.read cacheFile)
      (opens : start cacheFile world = .ok session next) : Succeeds toolchain before ⟨session, next⟩

theorem Refreshed.coherent {toolchain : Toolchain} {outputRoot : Path} {sources : List Path}
    {before after : OpenSession} {learned : List (Declaration × SourceAbi)}
    (refreshed : Refreshed toolchain outputRoot sources before after learned)
    (faithful : ∀ entry ∈ learned, entry.2.className = entry.1.name)
    (alike : DeclareAlike toolchain before.world.files sources) :
    learned.Pairwise fun first second =>
      second.1.source.location = first.1.source.location →
        second.2.className = first.2.className := by
  refine List.pairwise_iff_forall_sublist.mpr fun {first second} together same => ?_
  have hfirst : first ∈ learned := together.subset (by simp)
  have hsecond : second ∈ learned := together.subset (by simp)
  rw [faithful first hfirst, faithful second hsecond]
  exact alike _ (refreshed.mem_sources hsecond) _ (refreshed.mem_sources hfirst) same _ _
    (refreshed.declared second hsecond) (refreshed.declared first hfirst)

theorem Paired.succeeds {toolchain : Toolchain} {before after : OpenSession}
    (paired : before.session.Paired) (step : Succeeds toolchain before after) :
    after.session.Paired := by
  cases step with
  | elsewhere => exact paired
  | reset succeeds =>
      rw [(ends_reset _ before).of_ok succeeds]
      exact paired_forgetAll _
  | remove succeeds =>
      rw [(ends_removeSources toolchain _ _ before).of_ok succeeds]
      exact paired.foldl_dropSource _
  | refresh succeeds faithful alike =>
      obtain ⟨learned, refreshed⟩ := (ends_refresh toolchain _ _ before).of_ok succeeds
      have named := refreshed.className_eq faithful
      exact paired.refreshed refreshed named (refreshed.coherent named alike)
  | reopen stores storable unchanged opens =>
      rcases eq_of_start unchanged storable stores opens with same | same
      · exact same ▸ paired.ofStored _
      · exact same ▸ paired_empty

/-- After any operations that succeed, sources by type and types by source are inverse to each
other. -/
theorem sources_and_types_inverse {toolchain : Toolchain} {world : World} {opened : OpenSession}
    (operations : Relation.ReflTransGen (Succeeds toolchain) ⟨.empty, world⟩ opened)
    (name : String) (source : Path) :
    (opened.session.classToSource[name]?).map Path.location = some source.location ↔
      opened.session.recordedType? source = some name := by
  have paired : opened.session.Paired := by
    induction operations with
    | refl => exact paired_empty
    | tail _ step ih => exact ih.succeeds step
  rw [recordedType?, paired, Option.map_eq_some_iff]

section Swap

/-- Two sources that declare these types, with the units of `A` and `B`. -/
def declaring (first second : String) : World where
  files :=
    { entries := Std.ExtTreeMap.ofList
        [(["out"], .directory), (["out", "A.class"], .file (Text.Utf8.encode "A")),
          (["out", "B.class"], .file (Text.Utf8.encode "B")), (["src"], .directory),
          (["src", "first.java"], .file (Text.Utf8.encode first)),
          (["src", "second.java"], .file (Text.Utf8.encode second))] compare
      host := { workingDirectory := [] } }

def refreshTwice : SessionAction Unit :=
  refresh PlainText.toolchain ⟨"out"⟩ [⟨"src/first.java"⟩, ⟨"src/second.java"⟩, ⟨"src/first.java"⟩]

def beforeSwap : OpenSession := stateAfter refreshTwice ⟨.empty, declaring "A" "B"⟩

/-- The session that has taken them in again after they swapped their types. -/
def afterSwap : OpenSession := stateAfter refreshTwice ⟨beforeSwap.session, declaring "B" "A"⟩

private theorem swap_holds :
    returns refreshTwice ⟨.empty, declaring "A" "B"⟩ ∧
    returns refreshTwice ⟨beforeSwap.session, declaring "B" "A"⟩ ∧
    ReadsFaithfully PlainText.toolchain ⟨"out"⟩
      [⟨"src/first.java"⟩, ⟨"src/second.java"⟩, ⟨"src/first.java"⟩]
      (declaring "A" "B").files beforeSwap.world.files ∧
    ReadsFaithfully PlainText.toolchain ⟨"out"⟩
      [⟨"src/first.java"⟩, ⟨"src/second.java"⟩, ⟨"src/first.java"⟩]
      (declaring "B" "A").files afterSwap.world.files ∧
    afterSwap.session.classToSource["A"]? = some ⟨"src/second.java"⟩ := by
  decide +kernel

theorem sources_and_types_inverse_swap :
    Relation.ReflTransGen (Succeeds PlainText.toolchain) ⟨.empty, declaring "A" "B"⟩ afterSwap ∧
      afterSwap.session.recordedType? ⟨"src/second.java"⟩ = some "A" := by
  obtain ⟨first, second, faithful, faithfulAgain, moved⟩ := swap_holds
  have alike : ∀ files, DeclareAlike PlainText.toolchain files
      [⟨"src/first.java"⟩, ⟨"src/second.java"⟩, ⟨"src/first.java"⟩] :=
    fun files => declareAlike_of_text (by decide)
  obtain ⟨_, refreshes⟩ := exists_of_returns first
  obtain ⟨_, refreshesAgain⟩ := exists_of_returns second
  have operations : Relation.ReflTransGen (Succeeds PlainText.toolchain)
      ⟨.empty, declaring "A" "B"⟩ afterSwap :=
    ((Relation.ReflTransGen.single (.refresh refreshes faithful (alike _))).tail
      .elsewhere).tail (.refresh refreshesAgain faithfulAgain (alike _))
  refine ⟨operations, (sources_and_types_inverse operations "A" ⟨"src/second.java"⟩).mp ?_⟩
  rw [moved, Option.map_some]

end Swap

end AbiBuild.Session
