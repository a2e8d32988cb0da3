import AbiBuild.Files.Fault

/-!
# A file system as a value

Files and directories lie in one tree below the root, each under the list of names that leads to
it.  Names are ordered by code point, so the entries in order are those of a walk that visits names
in order and the content of a directory right after it.  The host may refuse to let a file be read or
a directory be listed, and it may refuse calls that change the tree; what it refuses is part of the
value.
-/

namespace AbiBuild.Files

inductive Entry
  | file (content : Bytes)
  | directory
  deriving DecidableEq, Repr

abbrev Place := List String

/-- What stays as it is while a program runs. -/
structure Host where
  workingDirectory : Place
  /-- Where there is something that the host does not let be read, and why. -/
  unreadable : Std.ExtTreeMap Place IoFault compare := ∅

/-- A host that lets everything be read. -/
instance : Coe Place Host where
  coe workingDirectory := { workingDirectory }

structure FileSystem where
  /-- Everything except the root itself. -/
  entries : Std.ExtTreeMap Place Entry compare
  host : Host
  /-- For each change still to come, whether the host refuses it; none after the last one. -/
  refusals : List (Option IoFault) := []

abbrev FileAction := EStateM IoFault FileSystem

namespace FileSystem

def longestName : Nat := 255

def longestPath : Nat := 4095

def entryAt? (files : FileSystem) : Place → Option Entry
  | [] => some .directory
  | place => files.entries[place]?

def enter (files : FileSystem) (place : Place) (segment : String) : Except IoFault Place :=
  match files.entryAt? place with
  | none => .error .notFound
  | some (.file _) => .error .notADirectory
  | some .directory =>
    if segment = "" || segment = "." then .ok place
    else if segment = ".." then .ok place.dropLast
    else if segment.utf8ByteSize > longestName then .error .nameTooLong
    else .ok (place ++ [segment])

def steps (path : Path) : List String :=
  if path.isAbsolute then path.segments.drop 1 else path.segments

def placeOf (files : FileSystem) (path : Path) : Except IoFault Place :=
  if path.text.toList.contains (Char.ofNat 0) then .error .zeroInName
  else if path.text = "" then .error .notFound
  else if path.text.utf8ByteSize > longestPath then .error .nameTooLong
  else (steps path).foldlM files.enter (if path.isAbsolute then [] else files.host.workingDirectory)

/-- The entry a path names. -/
def entryOf (files : FileSystem) (path : Path) : Except IoFault Entry := do
  match files.entryAt? (← files.placeOf path) with
  | some entry => pure entry
  | none => throw .notFound

def pathExists (files : FileSystem) (path : Path) : Bool :=
  match files.entryOf path with
  | .ok _ => true
  | .error _ => false

def isFile (files : FileSystem) (path : Path) : Bool :=
  match files.entryOf path with
  | .ok (.file _) => true
  | _ => false

def isDirectory (files : FileSystem) (path : Path) : Bool :=
  match files.entryOf path with
  | .ok .directory => true
  | _ => false

/-- Fails where the host does not let what is there be read. -/
def mayRead (files : FileSystem) (place : Place) : Except IoFault Unit :=
  match files.host.unreadable[place]? with
  | some fault => .error fault
  | none => .ok ()

def read (files : FileSystem) (path : Path) : Except IoFault Bytes := do
  let place ← files.placeOf path
  match files.entryAt? place with
  | none => throw .notFound
  | some entry =>
    files.mayRead place
    match entry with
    | .file content => pure content
    | .directory => throw .isADirectory

def readText (files : FileSystem) (path : Path) : Except IoFault String := do
  match Text.Utf8.decode? (← files.read path) with
  | some text => pure text
  | none => throw .notUtf8

def below (files : FileSystem) (place : Place) : List (Place × Entry) :=
  files.entries.toList.filterMap fun (there, entry) =>
    if place.isPrefixOf there && there != place then some (there.drop place.length, entry) else none

/-- The names in a directory. -/
def names (files : FileSystem) (path : Path) : Except IoFault (List String) := do
  let place ← files.placeOf path
  match files.entryAt? place with
  | none => throw .notFound
  | some (.file _) => throw .notADirectory
  | some .directory =>
    files.mayRead place
    pure ((files.below place).filterMap fun (there, _) =>
      match there with
      | [name] => some name
      | _ => none)

/-- A walk lists each directory that it comes to, and reads the files that are wanted. -/
def visit (files : FileSystem) (wanted : Path → Bool) (root : Path) (place : Place)
    (reached : Place × Entry) : Except IoFault (Path × Entry) := do
  let path := reached.1.foldl Path.join root
  match reached.2 with
  | .directory => (files.mayRead (place ++ reached.1)).mapError (.walk path)
  | .file _ => if wanted path then files.mayRead (place ++ reached.1)
  pure (path, reached.2)

/-- Every entry at or below a path, each under the path joined with the names that lead to it. -/
def walk (files : FileSystem) (wanted : Path → Bool) (root : Path) :
    Except IoFault (List (Path × Entry)) := do
  let place ← (files.placeOf root).mapError (.walk root)
  match files.entryAt? place with
  | none => throw (.walk root .notFound)
  | some entry => (([], entry) :: files.below place).mapM (files.visit wanted root place)

def canonical (files : FileSystem) (path : Path) : Except IoFault Path := do
  let place ← files.placeOf path
  match files.entryAt? place with
  | none => throw .notFound
  | some _ => pure ⟨"/" ++ String.intercalate "/" place⟩

/-- The working directory as a path. -/
def directory (files : FileSystem) : Path :=
  ⟨"/" ++ String.intercalate "/" files.host.workingDirectory⟩

/-! ## Changes -/

def setEntry (files : FileSystem) (place : Place) (entry : Entry) : FileSystem :=
  { files with entries := files.entries.insert place entry }

def dropEntry (files : FileSystem) (place : Place) : FileSystem :=
  { files with entries := files.entries.erase place }

def dropTree (files : FileSystem) (place : Place) : FileSystem :=
  { files with entries := files.entries.filter fun there _ => !place.isPrefixOf there }

def dropBelow (files : FileSystem) (place : Place) : FileSystem :=
  { files with
    entries := files.entries.filter fun there _ => !(place.isPrefixOf there && there != place) }

def attempt (change : FileSystem → Except IoFault FileSystem) : FileAction Unit := fun files =>
  let rest := { files with refusals := files.refusals.drop 1 }
  match files.refusals.head?.join with
  | some fault => .error fault rest
  | none =>
    match change rest with
    | .ok changed => .ok () changed
    | .error fault => .error fault rest

def inspect {α : Type} (look : FileSystem → α) : FileAction α := fun files =>
  .ok (look files) files

def withoutEndSeparators (path : Path) : Path :=
  match (path.text.toList.reverse.dropWhile (· = '/')).reverse with
  | [] => path
  | text => ⟨String.ofList text⟩

def placedFile (files : FileSystem) (path : Path) (content : Bytes) :
    Except IoFault FileSystem := do
  let place ← files.placeOf path
  match files.entryAt? place with
  | some .directory => throw .isADirectory
  | some (.file _) => pure (files.setEntry place (.file content))
  | none =>
    if (steps path).getLast? = some "" then throw .isADirectory
    else pure (files.setEntry place (.file content))

/-- Writes a file anew; its directory has to exist. -/
def write (path : Path) (content : Bytes) : FileAction Unit :=
  attempt fun files => files.placedFile path content

def madeDirectory (files : FileSystem) (path : Path) : Except IoFault FileSystem := do
  let place ← files.placeOf (withoutEndSeparators path)
  match files.entryAt? place with
  | some _ => throw .fileExists
  | none => pure (files.setEntry place .directory)

def makeDirectory (path : Path) : FileAction Unit :=
  attempt fun files => files.madeDirectory path

def makeMissing (path : Path) : FileAction Unit := do
  if ← inspect (·.isDirectory path) then return
  makeDirectory path

/-- Makes the missing directories on the way to a path and then the directory itself.  The count
bounds the way up; a path has no more ancestors than segments. -/
def makeDirectoriesWithin : Nat → Path → FileAction Unit
  | 0, path => if path.text = "" then pure () else makeMissing path
  | count + 1, path => do
    if path.text = "" then return
    if ← inspect (·.isDirectory path) then return
    match ← inspect (·.madeDirectory path), path.parent? with
    | .error .notFound, some parent => makeDirectoriesWithin count parent
    | _, _ => pure ()
    makeMissing path

def makeDirectories (path : Path) : FileAction Unit :=
  makeDirectoriesWithin path.segments.length path

def withoutFile (files : FileSystem) (path : Path) : Except IoFault FileSystem := do
  let place ← files.placeOf path
  match files.entryAt? place with
  | none => throw .notFound
  | some .directory => throw .isADirectory
  | some (.file _) => pure (files.dropEntry place)

def removeFile (path : Path) : FileAction Unit :=
  attempt fun files => files.withoutFile path

def emptied (files : FileSystem) (path : Path) : Except IoFault FileSystem := do
  let place ← files.placeOf path
  match files.entryAt? place with
  | none => throw .notFound
  | some (.file _) => throw .notADirectory
  | some .directory => pure (files.dropBelow place)

def withoutDirectory (files : FileSystem) (path : Path) : Except IoFault FileSystem := do
  let place ← files.placeOf path
  match (steps (withoutEndSeparators path)).getLast? with
  | some "." => throw .invalidArgument
  | some ".." => throw .directoryNotEmpty
  | _ => pure (files.dropTree place)

def removeTree (path : Path) : FileAction Unit := do
  attempt fun files => files.emptied path
  attempt fun files => files.withoutDirectory path

def renamed (files : FileSystem) (source target : Path) : Except IoFault FileSystem := do
  let sourcePlace ← files.placeOf source
  let targetPlace ← files.placeOf target
  match files.entryAt? sourcePlace, files.entryAt? targetPlace with
  | none, _ => throw .notFound
  | some (.file _), some .directory => throw .isADirectory
  | some .directory, _ => throw .isADirectory
  | some (.file content), _ =>
    pure ((files.dropEntry sourcePlace).setEntry targetPlace (.file content))

def renameFile (source target : Path) : FileAction Unit :=
  attempt fun files => files.renamed source target

def copied (files : FileSystem) (source target : Path) : Except IoFault FileSystem := do
  match ← files.entryOf source with
  | .directory => throw .notAFile
  | .file _ => files.placedFile target (← files.read source)

def copyFile (source target : Path) : FileAction Unit :=
  attempt fun files => files.copied source target

def ignoreMissing (action : FileAction Unit) : FileAction Unit := fun files =>
  match action files with
  | .error .notFound rest => .ok () rest
  | result => result

def recreateDirectory (path : Path) : FileAction Unit := do
  if ← inspect (·.pathExists path) then removeTree path
  makeDirectories path

end FileSystem

end AbiBuild.Files
