import AbiBuild.Error
import AbiBuild.Files.FileSystem

/-!
# What a build works on

A build reads and changes files, and tells its user what went on.  Both stay as they are when a
step fails, so nothing that was written is taken back.
-/

namespace AbiBuild

open Files

/-- What the user is told besides the result. -/
inductive Notice
  | discardedCache (path : Path) (error : BuildError)
  | ignoredDigests (path : Path)
  | noCache (path : Path)
  | outsideOutput (path output : Path)
  | compilerFailed (exitCode : Int)
  | rebuilding (error : BuildError)
  | noSources (root : Path)
  | commandFailed (exitCode : Int)
  | failure (error : BuildError)
  deriving DecidableEq, Repr

namespace Notice

def isError : Notice → Bool
  | noSources _ | commandFailed _ | failure _ => true
  | _ => false

def message : Notice → String
  | discardedCache path error =>
    "Discarding unreadable incremental cache " ++ path.text ++ ": " ++ error.message
  | ignoredDigests path =>
    "Ignoring unreadable digest file " ++ path.text ++ ": " ++ CacheFault.notMessagePack.message
  | noCache path =>
    "No usable incremental cache at " ++ path.text ++ ", recompiling everything"
  | outsideOutput path output =>
    "Precompiled file " ++ path.text ++ " is outside " ++ output.text
  | compilerFailed exitCode =>
    "Compiler exited with " ++ toString exitCode ++ ", keeping previous state"
  | rebuilding error => error.message ++ ", recompiling everything"
  | noSources root => "No sources found in " ++ root.text
  | commandFailed exitCode => "javac exited with " ++ toString exitCode
  | failure error => error.message

end Notice

structure World where
  files : FileSystem
  /-- In the order in which they were given. -/
  notices : List Notice := []

abbrev BuildAction := EStateM BuildError World

namespace BuildAction

def notify (notice : Notice) : BuildAction Unit := fun world =>
  .ok () { world with notices := world.notices ++ [notice] }

def inspect {α : Type} (look : FileSystem → α) : BuildAction α := fun world =>
  .ok (look world.files) world

/-- The answer of a function that may fail on the files as they are. -/
def consult {α : Type} (look : FileSystem → Except BuildError α) : BuildAction α := fun world =>
  match look world.files with
  | .ok value => .ok value world
  | .error error => .error error world

def change {α : Type} (action : FileAction α) : BuildAction α := fun world =>
  match action world.files with
  | .ok value files => .ok value { world with files }
  | .error fault files => .error (.io fault) { world with files }

def tryChange (action : FileAction Unit) : BuildAction Unit := fun world =>
  match action world.files with
  | .ok _ files | .error _ files => .ok () { world with files }

end BuildAction

def replaceFile (path : Path) (content : Bytes) : FileAction Unit := do
  let temporary := path.withExtension "tmp"
  FileSystem.write temporary content
  FileSystem.renameFile temporary path

end AbiBuild
