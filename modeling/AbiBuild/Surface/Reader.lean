import AbiBuild.Error
import AbiBuild.Files.FileSystem
import AbiBuild.Surface.Ownership

/-!
# Reading the surface of a source file

A source file compiles to a top-level class and the classes nested in it, each in a class file of
its own in one directory.  The files are read from the top-level one on, following the tables of
nested classes; a nested class whose file is missing is passed over.
-/

namespace AbiBuild.Surface

open ClassFile Files

/-- A decoded class file and where it was found. -/
structure LoadedUnit where
  path : Path
  unit : ClassFile

/-- What has been gathered so far. -/
structure Gathered where
  owners : Owners := ∅
  /-- Nested classes in the order in which they were found. -/
  nested : List String := []
  mentions : List Mention := []

def malformed (path : Path) {α : Type} (result : Except UnitFault α) : Except BuildError α :=
  result.mapError fun fault => .malformedUnit path fault.message

def decodeUnit (path : Path) (bytes : Bytes) : Except BuildError LoadedUnit :=
  malformed path do
    pure ⟨path, ← (ClassFile.ofBytes bytes).mapError UnitFault.decoding⟩

def simpleName (className : String) : String :=
  Text.lastPiece '/' className

def loadNested (files : FileSystem) (directory : Path) (name : String) :
    Except BuildError (Option LoadedUnit) := do
  let path := directory.join (simpleName name ++ ".class")
  match files.read path with
  | .ok bytes => some <$> decodeUnit path bytes
  | .error .notFound => pure none
  | .error fault => throw (.io fault)

def discover (files : FileSystem) (directory : Path) (root : String) :
    List String → Gathered → Except BuildError (List LoadedUnit × Gathered)
  | [], gathered => pure ([], gathered)
  | name :: others, gathered =>
    if name = root || gathered.nested.contains name then discover files directory root others gathered
    else do
      let found ← loadNested files directory name
      let (units, gathered) ← discover files directory root others
        { gathered with nested := gathered.nested ++ [name] }
      pure (found.toList ++ units, gathered)

/-- What one unit adds, and the units of the nested classes that it is the first to list. -/
def gather (files : FileSystem) (directory : Path) (root : String) (loaded : LoadedUnit)
    (gathered : Gathered) : Except BuildError (List LoadedUnit × Gathered) := do
  let (table, name, mentions) ← malformed loaded.path do
    let name ← classAt loaded.unit.pool loaded.unit.thisIndex
    let table ← nestedClasses loaded.unit
    let mentions ← classMentions loaded.unit (NestedClass.marksPrivate table name)
    pure (table, name, mentions)
  discover files directory root (NestedClass.nestedIn table root name)
    { gathered with
      owners := NestedClass.addOwners gathered.owners table
      mentions := gathered.mentions ++ mentions }

def gatherAll (files : FileSystem) (directory : Path) (root : String) :
    Nat → List LoadedUnit → Gathered → Except BuildError Gathered
  | _, [], gathered => pure gathered
  | 0, _, gathered => pure gathered
  | count + 1, unit :: waiting, gathered => do
    let (found, gathered) ← gather files directory root unit gathered
    gatherAll files directory root count (waiting ++ found) gathered

/-- How many attributes a class file may have, and how many lines a table of nested classes, since
both are counted in two octets. -/
def tableLimit : Nat := 2 ^ 16

def unitBound (files : FileSystem) : Nat :=
  files.entries.size * (tableLimit * tableLimit) + 1

namespace Gathered

/-- Mentioned types of one visibility, each as the top-level class around it.  Those of the source
file itself do not count. -/
def types (gathered : Gathered) (root : String) (isPrivate : Bool) : List String :=
  ((gathered.mentions.filter (·.isPrivate = isPrivate)).map fun mention =>
    outermost gathered.owners mention.name).filter fun name =>
      name ≠ root && !gathered.nested.contains name

end Gathered

def sourceFileName (unit : ClassFile) : Option String :=
  unit.attributes.findSome? fun part =>
    match part with
    | .sourceFile textIndex => (unit.pool.text textIndex).toOption
    | _ => none

/-- The surface of the source file whose top-level class is in the class file at `path`. -/
def read (files : FileSystem) (path : Path) : Except BuildError SourceAbi := do
  let bytes ← (files.read path).mapError fun fault => .malformedUnit path fault.message
  let loaded ← decodeUnit path bytes
  let root ← malformed path (classAt loaded.unit.pool loaded.unit.thisIndex)
  let directory := path.parent?.getD ⟨""⟩
  let gathered ← gatherAll files directory root (unitBound files) [loaded] {}
  pure { SourceAbi.ofTypes root (gathered.types root false) (gathered.types root true) with
    sourceFileName := sourceFileName loaded.unit
    innerClassNames := Names.ofList gathered.nested }

end AbiBuild.Surface
