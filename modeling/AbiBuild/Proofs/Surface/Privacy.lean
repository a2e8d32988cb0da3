import AbiBuild.Proofs.Files.Replace
import AbiBuild.Proofs.Surface.Outline

/-!
# Code and private members stay inside

Two sets of class files that differ only in code and in private members have the same public
surface.  The files are followed in lockstep: since the outlines are the same, both runs meet the
same names in the same order and gather the same public mentions.
-/

namespace AbiBuild.Surface

open ClassFile Files FileSystem

/-- What is at a path differs at most in code and in private members: nothing is there, or class
files with the same outline are. -/
structure SameOutline (before after : FileSystem) (path : Path) : Prop where
  missing : before.read path = .error .notFound ↔ after.read path = .error .notFound
  outline : ∀ content content' unit unit', before.read path = .ok content →
    after.read path = .ok content' → ClassFile.ofBytes content = .ok unit →
      ClassFile.ofBytes content' = .ok unit' → outlineOf unit' = outlineOf unit

variable {before after : FileSystem} {directory : Path} {root : String}

abbrev Twins (first second : LoadedUnit) : Prop :=
  outlineOf second.unit = outlineOf first.unit

structure Gathered.PubliclyEqual (first second : Gathered) : Prop where
  owners : second.owners = first.owners
  nested : second.nested = first.nested
  mentions : exposed second.mentions = exposed first.mentions

theorem Gathered.PubliclyEqual.types {first second : Gathered}
    (alike : first.PubliclyEqual second) : second.types root false = first.types root false := by
  have mentions := alike.mentions
  simp only [Gathered.types, alike.owners, alike.nested]
  rw [← exposed, ← exposed, mentions]

theorem Reveals.eq_of_outline {unit unit' : ClassFile} {name name' : String}
    {table table' : List NestedClass} {mentions mentions' : List Mention}
    (reveals : Reveals unit name table mentions) (reveals' : Reveals unit' name' table' mentions')
    (same : outlineOf unit' = outlineOf unit) :
    name' = name ∧ table' = table ∧ exposed mentions' = exposed mentions := by
  obtain ⟨outline, seen, outlined, named, listed, sees, exposes⟩ := reveals.exists_outline
  obtain ⟨outline', seen', outlined', named', listed', sees', exposes'⟩ := reveals'.exists_outline
  rw [outlined, outlined', Except.ok.injEq] at same
  subst same
  obtain rfl := Except.ok.inj (sees.symm.trans sees')
  exact ⟨named'.symm.trans named, listed'.symm.trans listed, exposes'.symm.trans exposes⟩

theorem twins_of_loadNested
    (alike : ∀ name, SameOutline before after (nestedPath directory name)) {names : List String}
    {found found' : List (Option LoadedUnit)}
    (finds : names.mapM (loadNested before directory) = .ok found)
    (finds' : names.mapM (loadNested after directory) = .ok found') :
    List.Forall₂ Twins (found.flatMap Option.toList) (found'.flatMap Option.toList) := by
  induction names generalizing found found' with
  | nil =>
      cases mapM_eq_ok.mp finds
      cases mapM_eq_ok.mp finds'
      exact .nil
  | cons name names ih =>
      obtain ⟨first, rest, here, later, rfl⟩ := mapM_cons_eq_ok finds
      obtain ⟨first', rest', here', later', rfl⟩ := mapM_cons_eq_ok finds'
      have tail := ih later later'
      rw [List.flatMap_cons, List.flatMap_cons]
      cases first with
      | none =>
          have missing := (alike name).missing.mp (loadNested_eq_none.mp here)
          rw [loadNested_eq_none.mpr missing] at here'
          obtain rfl := Except.ok.inj here'
          exact tail
      | some loaded =>
          obtain ⟨content, reads, decodes⟩ := loadNested_eq_some.mp here
          cases first' with
          | none =>
              rw [(alike name).missing.mpr (loadNested_eq_none.mp here')] at reads
              cases reads
          | some loaded' =>
              obtain ⟨content', reads', decodes'⟩ := loadNested_eq_some.mp here'
              exact .cons ((alike name).outline _ _ _ _ reads reads' (decodeUnit_eq_ok.mp decodes).2
                (decodeUnit_eq_ok.mp decodes').2) tail

theorem Gathered.PubliclyEqual.gather
    (outlines : ∀ name, SameOutline before after (nestedPath directory name))
    {loaded loaded' : LoadedUnit} {gathered gathered' next next' : Gathered}
    {found found' : List LoadedUnit} (twins : Twins loaded loaded')
    (alike : gathered.PubliclyEqual gathered')
    (advances : Surface.gather before directory root loaded gathered = .ok (found, next))
    (advances' : Surface.gather after directory root loaded' gathered' = .ok (found', next')) :
    List.Forall₂ Twins found found' ∧ next.PubliclyEqual next' := by
  obtain ⟨name, table, mentions, units, reveals, finds, rfl, rfl⟩ := gather_eq_ok.mp advances
  obtain ⟨name', table', mentions', units', reveals', finds', rfl, rfl⟩ :=
    gather_eq_ok.mp advances'
  obtain ⟨rfl, rfl, exposes⟩ := reveals.eq_of_outline reveals' twins
  rw [alike.nested] at finds'
  refine ⟨twins_of_loadNested outlines finds finds', ?_, ?_, ?_⟩
  · simp only [alike.owners]
  · simp only [alike.nested]
  · have before := alike.mentions
    simp only [exposed, List.filter_append] at before exposes ⊢
    rw [before, exposes]

theorem Gathers.publiclyEqual
    (outlines : ∀ name, SameOutline before after (nestedPath directory name))
    {waiting waiting' : List LoadedUnit} {gathered gathered' last last' : Gathered}
    (twins : List.Forall₂ Twins waiting waiting') (alike : gathered.PubliclyEqual gathered')
    (gathers : Gathers before directory root waiting gathered last)
    (gathers' : Gathers after directory root waiting' gathered' last') :
    last.PubliclyEqual last' := by
  induction gathers generalizing waiting' gathered' with
  | done gathered =>
      cases twins
      cases gathers'
      exact alike
  | step advances rest ih =>
      cases twins with
      | cons head tail =>
          cases gathers' with
          | step advances' rest' =>
              obtain ⟨found, next⟩ := alike.gather outlines head advances advances'
              exact ih (List.rel_append tail found) next rest'

/-- Code and private members never show in the public surface: class files that differ in nothing
else have the same name, the same nested classes and the same public types. -/
theorem public_surface_hides_code_and_private_members {path : Path} {abi abi' : SourceAbi}
    (unit : SameOutline before after path)
    (nested : ∀ name, SameOutline before after (nestedPath (path.parent?.getD ⟨""⟩) name))
    (reads : Surface.read before path = .ok abi) (reads' : Surface.read after path = .ok abi') :
    abi'.className = abi.className ∧ abi'.innerClassNames = abi.innerClassNames ∧
      abi'.publicTypes = abi.publicTypes := by
  obtain ⟨content, loaded, root, gathered, found, decodes, isNamed, gathers, rfl⟩ :=
    read_eq_ok.mp reads
  obtain ⟨content', loaded', root', gathered', found', decodes', isNamed', gathers', rfl⟩ :=
    read_eq_ok.mp reads'
  have twins : Twins loaded loaded' := unit.outline _ _ _ _ found found'
    (decodeUnit_eq_ok.mp decodes).2 (decodeUnit_eq_ok.mp decodes').2
  -- The unit at the path is gathered from first, so it has an outline, and both roots are its name.
  obtain rfl : root' = root := by
    cases gathers with
    | step advances rest =>
        obtain ⟨name, table, mentions, units, reveals, -⟩ := gather_eq_ok.mp advances
        obtain ⟨outline, seen, outlined, -⟩ := reveals.exists_outline
        rw [isNamed_of_outline outlined] at isNamed
        rw [isNamed_of_outline (twins.trans outlined)] at isNamed'
        exact (Except.ok.inj isNamed').symm.trans (Except.ok.inj isNamed)
  have alike := gathers.publiclyEqual nested (.cons twins .nil) ⟨rfl, rfl, rfl⟩ gathers'
  refine ⟨rfl, ?_, ?_⟩
  · simp only [alike.nested]
  · simp only [SourceAbi.ofTypes, alike.types]

section Makers

def textConstant (text : String) : Bytes :=
  1 :: (Bytes.ofNatBE 2 text.utf8ByteSize ++ Text.Utf8.encode text)

def classConstant (nameIndex : Nat) : Bytes :=
  7 :: Bytes.ofNatBE 2 nameIndex

/-- A class `A` with a nested class `A$N`, whose method `m` answers a `P` and makes a new object of
another class, and with the given private members. -/
def maker (made : String) (privateFields : List Bytes) : Bytes :=
  let constants :=
    [textConstant "A", classConstant 1, textConstant "Top", classConstant 3, textConstant "Code",
      textConstant "m", textConstant "()LP;", textConstant made, classConstant 8,
      textConstant "InnerClasses", textConstant "A$N", classConstant 11, textConstant "LS;"]
  let code : Bytes := [0xBB, 0, 9, 0xB0]
  let body := [0, 1, 0, 1] ++ Bytes.ofNatBE 4 code.length ++ code ++ [0, 0, 0, 0]
  [0xCA, 0xFE, 0xBA, 0xBE, 0, 0, 0, 52] ++ Bytes.ofNatBE 2 (constants.length + 1) ++
    constants.flatten ++ [0, 1, 0, 2, 0, 4, 0, 0] ++
    Bytes.ofNatBE 2 privateFields.length ++ privateFields.flatten ++
    [0, 1, 0, 1, 0, 6, 0, 7, 0, 1, 0, 5] ++ Bytes.ofNatBE 4 body.length ++ body ++
    [0, 1, 0, 10, 0, 0, 0, 10, 0, 1, 0, 12, 0, 2, 0, 0, 0, 1]

def nestedMaker : Bytes :=
  [0xCA, 0xFE, 0xBA, 0xBE, 0, 0, 0, 52, 0, 5] ++ textConstant "A$N" ++ classConstant 1 ++
    textConstant "Base" ++ classConstant 3 ++ [0, 1, 0, 2, 0, 4, 0, 0, 0, 0, 0, 0, 0, 0]

def makerFiles : FileSystem where
  entries := Std.ExtTreeMap.ofList
    [(["out"], .directory), (["out", "A.class"], .file (maker "Q" [])),
      (["out", "A$N.class"], .file nestedMaker)] compare
  host := { workingDirectory := [] }

/-- Now the method makes an `R`, and there is a private field that holds an `S`. -/
def changedMakerFiles : FileSystem :=
  makerFiles.setEntry ["out", "A.class"] (.file (maker "R" [[0, 2, 0, 6, 0, 13, 0, 0]]))

theorem sameOutline_setEntry {files : FileSystem} {place : Place} {old new : Bytes}
    (stood : files.entryAt? place = some (.file old))
    (outline : ∀ unit unit', ClassFile.ofBytes old = .ok unit → ClassFile.ofBytes new = .ok unit' →
      outlineOf unit' = outlineOf unit) (path : Path) :
    SameOutline files (files.setEntry place (.file new)) path := by
  have cases' : _ ∨ (files.setEntry place (.file new)).read path = _ :=
    read_setEntry_of_file stood path
  rcases cases' with ⟨reads, reads'⟩ | same
  · refine ⟨by rw [reads, reads']; simp, ?_⟩
    intro content content' unit unit' found found'
    rw [reads] at found
    rw [reads'] at found'
    obtain rfl := Except.ok.inj found
    obtain rfl := Except.ok.inj found'
    exact outline unit unit'
  · refine ⟨by rw [same], ?_⟩
    intro content content' unit unit' found found' decodes decodes'
    rw [same, found] at found'
    obtain rfl := Except.ok.inj found'
    rw [decodes] at decodes'
    rw [Except.ok.inj decodes']

private theorem makers_hold :
    ((ClassFile.ofBytes (maker "R" [[0, 2, 0, 6, 0, 13, 0, 0]])).mapError UnitFault.decoding >>=
        outlineOf) =
      ((ClassFile.ofBytes (maker "Q" [])).mapError UnitFault.decoding >>= outlineOf) ∧
    (Surface.read makerFiles ⟨"out/A.class"⟩).toOption.map (·.privateTypes.toList) = some ["Q"] ∧
    (Surface.read changedMakerFiles ⟨"out/A.class"⟩).toOption.map (·.privateTypes.toList) =
      some ["R", "S"] ∧
    (Surface.read makerFiles ⟨"out/A.class"⟩).toOption.map (·.publicTypes.toList) =
      some ["Base", "P", "Top"] := by
  decide +kernel

/-- The method body makes another class and there is a new private field, but only the private types
change. -/
theorem public_surface_hides_code_and_private_members_of_makers : ∃ abi abi',
    Surface.read makerFiles ⟨"out/A.class"⟩ = .ok abi ∧
      Surface.read changedMakerFiles ⟨"out/A.class"⟩ = .ok abi' ∧
      abi.privateTypes.toList = ["Q"] ∧ abi'.privateTypes.toList = ["R", "S"] ∧
      abi.publicTypes.toList = ["Base", "P", "Top"] ∧ abi'.publicTypes = abi.publicTypes := by
  obtain ⟨outlines, first, second, publicTypes⟩ := makers_hold
  obtain ⟨abi, reads, privateTypes⟩ := Option.map_eq_some_iff.mp first
  obtain ⟨abi', reads', privateTypes'⟩ := Option.map_eq_some_iff.mp second
  have same : ∀ path, SameOutline makerFiles changedMakerFiles path := by
    have stood : makerFiles.entryAt? ["out", "A.class"] = some (.file (maker "Q" [])) := by
      decide +kernel
    refine sameOutline_setEntry stood ?_
    intro unit unit' decodes decodes'
    rw [decodes, decodes'] at outlines
    exact outlines
  rw [reads] at publicTypes
  have reads := eq_ok_of_toOption reads
  have reads' := eq_ok_of_toOption reads'
  have hides := public_surface_hides_code_and_private_members (same _) (fun name => same _)
    reads reads'
  exact ⟨abi, abi', reads, reads', privateTypes, privateTypes', Option.some.inj publicTypes,
    hides.2.2⟩

end Makers

end AbiBuild.Surface
