import AbiBuild.Build.PlainText
import AbiBuild.Proofs.Build.Language

/-!
# A compiler that serves its language

The plain text language without nested types.  Its compiler copies each source to the unit of its
type, and looks before and after: it refuses types whose units would lie elsewhere, and it does not
report success unless every copy is there in the end.
-/

namespace AbiBuild.PlainText

open Files FileSystem

theorem partitioned_surfaceOfText (text : String) : (surfaceOfText text).Partitioned :=
  SourceAbi.partitioned_ofTypes _ _ _

/-- The surface of a source that names a type. -/
def surface? (content : Bytes) : Option PartitionedAbi :=
  (Text.Utf8.decode? content).bind fun text =>
    if (typeName? text).isSome then some ⟨surfaceOfText text, partitioned_surfaceOfText text⟩
    else none

def language : Language where
  surface? := surface?
  IsUnit content unit := unit = content

def namedContents (files : FileSystem) (sources : List Path) :
    Except BuildError (List (String × Bytes)) :=
  sources.mapM fun source => do
    let name ← typeDeclaredBy files source
    let content ← (files.read source).mapError .io
    pure (name, content)

-- Where a unit lies is not to be found by reduction.
@[irreducible] def unitOf (outputRoot : Path) (source : String × Bytes) : Path :=
  Outputs.unitPath outputRoot source.1 "class"

def copySource (outputRoot : Path) (source : String × Bytes) : BuildAction Unit :=
  BuildAction.change do
    match (unitOf outputRoot source).parent? with
    | some parent => FileSystem.makeDirectories parent
    | none => pure ()
    FileSystem.write (unitOf outputRoot source) source.2

def hasCopy (outputRoot : Path) (files : FileSystem) (source : String × Bytes) : Bool :=
  (files.read (unitOf outputRoot source)).toOption = some source.2

def copying : Toolchain where
  surfaceOf := surfaceOf
  typeDeclaredBy := typeDeclaredBy
  compile request := do
    let sources ← BuildAction.consult (namedContents · request.sources.toList)
    if ∀ source ∈ sources, IsTypeName source.1 then
      sources.forM (copySource request.outputRoot)
      let complete ← BuildAction.inspect fun files =>
        sources.all (hasCopy request.outputRoot files)
      pure (if complete then 0 else 1)
    else pure 1
  sourceExtension := "java"
  outputExtension := "class"

variable {files : FileSystem} {path outputRoot : Path}

theorem hasCopy_iff {source : String × Bytes} : hasCopy outputRoot files source ↔
    files.read (unitOf outputRoot source) = .ok source.2 := by
  rw [hasCopy, decide_eq_true_iff]
  cases files.read (unitOf outputRoot source) <;> simp [Except.toOption]

theorem className_surfaceOfText {text name : String} (named : typeName? text = some name) :
    (surfaceOfText text).className = name := by
  rw [typeName?, Option.filter_eq_some_iff] at named
  obtain ⟨line, first, rfl⟩ := Option.map_eq_some_iff.mp named.1
  rw [surfaceOfText, SourceAbi.ofTypes, List.headD_eq_head?_getD, first]
  rfl

theorem readText_eq_ok {text : String} (reads : files.readText path = .ok text) :
    ∃ content, files.read path = .ok content ∧ Text.Utf8.decode? content = some text := by
  obtain ⟨content, found, decodes⟩ := bind_eq_ok.mp reads
  refine ⟨content, found, ?_⟩
  cases decoded : Text.Utf8.decode? content with
  | none =>
      rw [decoded] at decodes
      cases decodes
  | some other =>
      rw [decoded] at decodes
      rw [Except.ok.inj decodes]

theorem exists_of_declares {name : String} (declares : typeDeclaredBy files path = .ok name) :
    ∃ content surface, files.read path = .ok content ∧
      language.surface? content = some surface ∧ surface.1.className = name := by
  obtain ⟨text, reads, named⟩ := bind_eq_ok.mp declares
  cases readText : files.readText path with
  | error fault =>
      rw [readText] at reads
      cases reads
  | ok other =>
      rw [readText] at reads
      obtain rfl := Except.ok.inj reads
      cases found : typeName? other with
      | none =>
          rw [found] at named
          cases named
      | some declared =>
          rw [found] at named
          obtain rfl := Except.ok.inj named
          obtain ⟨content, reads, decodes⟩ := readText_eq_ok readText
          refine ⟨content, ⟨surfaceOfText other, partitioned_surfaceOfText other⟩, reads, ?_,
            className_surfaceOfText found⟩
          change surface? content = _
          rw [surface?, decodes, Option.bind_some, found]
          rfl

theorem shows_of_surfaceOf {abi : SourceAbi} (found : surfaceOf files path = .ok abi) :
    ∃ unit, files.read path = .ok unit ∧ ∀ content surface, language.IsUnit content unit →
      language.surface? content = some surface → abi.Shows surface.1 := by
  obtain ⟨text, reads, rest⟩ := bind_eq_ok.mp found
  obtain rfl := Except.ok.inj rest
  cases readText : files.readText path with
  | error fault =>
      rw [readText] at reads
      cases reads
  | ok other =>
      rw [readText] at reads
      obtain rfl := Except.ok.inj reads
      obtain ⟨unit, reads, decodes⟩ := readText_eq_ok readText
      refine ⟨unit, reads, ?_⟩
      rintro content surface rfl shown
      change surface? unit = _ at shown
      rw [surface?, decodes, Option.bind_some, Option.ite_none_right_eq_some] at shown
      rw [← Option.some.inj shown.2]
      exact ⟨rfl, rfl, rfl⟩

theorem mem_namedContents {sources : List Path} {named : List (String × Bytes)}
    (names : namedContents files sources = .ok named) {content : Bytes} {surface : PartitionedAbi}
    (member : path ∈ sources) (reads : files.read path = .ok content)
    (found : language.surface? content = some surface) :
    (surface.1.className, content) ∈ named := by
  obtain ⟨source, listed, names⟩ := exists_of_mem_values names member
  obtain ⟨name, declares, names⟩ := bind_eq_ok.mp names
  rw [reads] at names
  obtain rfl := Except.ok.inj names
  obtain ⟨other, surface', reads', found', rfl⟩ := exists_of_declares declares
  rw [reads] at reads'
  obtain rfl := Except.ok.inj reads'
  rw [found] at found'
  rwa [Option.some.inj found']

theorem exists_copySource_eq (plain : outputRoot.Plain) {source : String × Bytes}
    (isTypeName : IsTypeName source.1) : ∃ directory name, Below outputRoot directory ∧
      IsName name ∧ Outputs.unitPath outputRoot source.1 "class" = directory.join name ∧
      copySource outputRoot source = BuildAction.change (do
        FileSystem.makeDirectories directory
        FileSystem.write (directory.join name) source.2) := by
  have whole : '/' ∉ "class".toList := by decide
  obtain ⟨directory, name, below, isName, joined⟩ :=
    Outputs.exists_unitPath_eq_join plain isTypeName whole
  refine ⟨directory, name, below, isName, joined, ?_⟩
  rw [copySource, unitOf, joined, below.plain.parent?_join isName]

theorem moves_copySource (plain : outputRoot.Plain) (source : String × Bytes)
    (isTypeName : IsTypeName source.1) :
    Moves (OnFiles (Within outputRoot)) (copySource outputRoot source) := by
  obtain ⟨directory, name, below, isName, -, copies⟩ := exists_copySource_eq plain isTypeName
  have writes : Moves (Within outputRoot) (write (directory.join name) source.2) :=
    (moves_write (below.join isName).plain source.2).imp fun _ _ touches =>
      touches.within (by simpa using (below.join isName).near)
  rw [copies]
  exact moves_change (Moves.bind (moves_makeDirectories below.near) fun _ => writes)

theorem exists_of_mem_namedContents {sources : List Path} {named : List (String × Bytes)}
    (names : namedContents files sources = .ok named) {source : String × Bytes}
    (member : source ∈ named) : ∃ path surface,
      surfacesAt language files sources path = some surface ∧ surface.1.className = source.1 := by
  obtain ⟨path, listed, names⟩ := exists_of_mem_results names member
  obtain ⟨name, declares, names⟩ := bind_eq_ok.mp names
  obtain ⟨content, surface, reads, found, rfl⟩ := exists_of_declares declares
  rw [reads] at names
  obtain rfl := Except.ok.inj names
  refine ⟨path, surface, ?_, rfl⟩
  rw [surfacesAt, if_pos listed, reads]
  exact found

theorem leaves_copySource (plain : outputRoot.Plain) (source : String × Bytes)
    (isTypeName : IsTypeName source.1) {other : String} (isTypeNameOther : IsTypeName other)
    (different : source.1 ≠ other) :
    Moves (OnFiles (Leaves (Outputs.unitPath outputRoot other "class")))
      (copySource outputRoot source) := by
  have whole : '/' ∉ "class".toList := by decide
  obtain ⟨directory, name, below, isName, joined, copies⟩ := exists_copySource_eq plain isTypeName
  have apart : steps (Outputs.unitPath outputRoot other "class") ≠ steps (directory.join name) := by
    intro same
    rw [← joined] at same
    exact different (Outputs.eq_of_steps_unitPath plain isTypeNameOther isTypeName whole same).symm
  have elsewhere :=
    (Outputs.below_unitPath plain isTypeNameOther whole).placeFor_ne (below.join isName) apart
  have writes : Moves (Leaves (Outputs.unitPath outputRoot other "class"))
      (write (directory.join name) source.2) :=
    (moves_write (below.join isName).plain source.2).imp fun before _ touches =>
      touches.leaves (by simpa using elsewhere before)
  rw [copies]
  exact moves_change (Moves.bind (moves_makeDirectories_leaves below.plain _) fun _ => writes)

theorem serves_copying {untouched : List Path} (plain : outputRoot.Plain)
    (apart : ∀ root ∈ untouched, ∀ files, Apart files outputRoot root) :
    copying.Serves language outputRoot untouched where
  extension := by decide
  resolves _ _ _ := exists_of_declares
  reads _ _ _ := shows_of_surfaceOf
  compiles := by
    rintro request world rfl wellFormed
    have same : ∀ root ∈ untouched, Keeps root world.files world.files :=
      fun root _ => Accumulates.refl world.files
    simp only [copying, ends_bind, ends_consult]
    cases names : namedContents world.files request.sources.toList with
    | error error => exact same
    | ok named =>
        dsimp only
        rw [ends_ite]
        split
        next isTypeName =>
          have copies : Moves (OnFiles (Within request.outputRoot))
              (named.forM (copySource request.outputRoot)) :=
            Moves.forM fun source member => moves_copySource plain source (isTypeName source member)
          have keeps : ∀ next : World, Within request.outputRoot world.files next.files →
              ∀ root ∈ untouched, Keeps root world.files next.files :=
            fun next within root member => within.keeps (apart root member world.files)
          rw [ends_bind]
          refine (copies world).imp ?_ fun _ next within => keeps next within
          intro _ next within
          rw [ends_bind, ends_inspect, ends_pure]
          refine ⟨keeps next within, fun good _ => ?_⟩
          have complete : named.all (hasCopy request.outputRoot next.files) := by
            by_contra missing
            rw [if_neg missing] at good
            cases good
          intro path member content surface reads found
          have listed := mem_namedContents names member reads found
          have copied := List.all_eq_true.mp complete _ listed
          rw [hasCopy_iff, unitOf] at copied
          exact ⟨content, copied, rfl⟩
        next => exact ⟨same, fun good => by cases good⟩

theorem sparesOthers_copying (plain : outputRoot.Plain) :
    copying.SparesOthers language outputRoot where
  outer := by decide
  compiles := by
    rintro request world rfl wellFormed - name isTypeName - others unit reads
    simp only [copying, ends_bind, ends_consult]
    cases names : namedContents world.files request.sources.toList with
    | error error => trivial
    | ok named =>
        dsimp only
        rw [ends_ite]
        split
        next isTypeNames =>
          have copies : Moves (OnFiles (Leaves (Outputs.unitPath request.outputRoot name "class")))
              (named.forM (copySource request.outputRoot)) := by
            refine Moves.forM fun source member => leaves_copySource plain source
              (isTypeNames source member) isTypeName ?_
            obtain ⟨path, surface, found, declared⟩ := exists_of_mem_namedContents names member
            rw [← declared]
            exact others path surface found
          rw [ends_bind]
          refine (copies world).imp ?_ fun _ _ _ => trivial
          intro _ next leaves
          rw [ends_bind, ends_inspect, ends_pure]
          have below := Outputs.below_unitPath plain isTypeName (by decide : '/' ∉ "class".toList)
          exact fun _ => leaves.read wellFormed below.plain reads
        next => exact fun good => by cases good

end AbiBuild.PlainText
