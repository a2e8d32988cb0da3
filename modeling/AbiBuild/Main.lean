import AbiBuild.CommandLine.Run
import AbiBuild.Files.Archive

/-!
# The program

The program is a filter on file trees.  It reads the files that a command works on from standard
input and writes what the command prints, followed by the files as the command leaves them, to
standard output; notices go to standard error.  It starts no other programs, so a command that needs
the compiler ends with an error.
-/

namespace AbiBuild.Program

open Files CommandLine

partial def readAll (input : IO.FS.Stream) (read : ByteArray) : IO ByteArray := do
  let next ← input.read 65536
  if next.isEmpty then pure read else readAll input (read ++ next)

def environment : IO Environment := do
  pure
    { home := ← IO.getEnv "HOME"
      cacheDirectory := ← IO.getEnv "ABISCOPE_CACHE_DIR"
      javaHome := ← IO.getEnv "JAVA_HOME" }

def launcher : Java.Launcher := fun _ _ => throw .permissionDenied

def tell (notice : Notice) : IO Unit :=
  IO.eprintln ((if notice.isError then "ERROR " else "WARN ") ++ notice.message)

/-- Shows what a command did. -/
def present (outcome : Outcome) (world : World) : IO UInt32 := do
  world.notices.forM tell
  let output ← IO.getStdout
  output.putStr outcome.printed
  output.write (Archive.encode world.files).toByteArray
  pure (UInt32.ofNat (outcome.exitCode % 256).toNat)

def perform (invocation : Invocation) : IO UInt32 := do
  let bytes ← readAll (← IO.getStdin) ByteArray.empty
  match Archive.decode? bytes.toList with
  | none =>
    IO.eprintln "ERROR standard input is not a file tree"
    pure 1
  | some files =>
    match CommandLine.run (← environment) launcher invocation ⟨files, []⟩ with
    | .ok outcome world => present outcome world
    | .error error world => present ⟨1, ""⟩ { world with notices := world.notices ++ [.failure error] }

end AbiBuild.Program

def main (arguments : List String) : IO UInt32 :=
  match AbiBuild.CommandLine.parse arguments with
  | .ok invocation => AbiBuild.Program.perform invocation
  | .error refusal => pure (UInt32.ofNat (refusal.exitCode % 256).toNat)
