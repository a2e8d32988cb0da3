import AbiBuild.Build.Toolchain
import AbiBuild.Changes.CacheLayout
import AbiBuild.JavaSource.Declaration
import AbiBuild.Surface.Reader

/-!
# Running the Java compiler

The compiler is another program.  Outputs that stay valid are copied to a directory of their own,
which is put at the end of the class path, so that the compiler finds them without their sources.
-/

namespace AbiBuild.Java

open Files

/-- Runs a program with arguments until it ends.  The result is its exit code, or none when a signal
ended it. -/
abbrev Launcher := Path → List String → FileAction (Option Int)

def findJavac (files : FileSystem) (environment : Environment) : Path :=
  match environment.javaHome with
  | none => ⟨"javac"⟩
  | some home =>
    let binaries := Path.join ⟨home⟩ "bin"
    ((["javac", "javac.exe"].map binaries.join).find? files.isFile).getD ⟨"javac"⟩

/-! ## The overlay -/

def temporaryRoot : Path := ⟨"/tmp"⟩

def overlayPath (files : FileSystem) : Path :=
  let candidate (number : Nat) : Path :=
    temporaryRoot.join ("abibuild-overlay" ++ Bytes.hexText 6 number)
  let taken (number : Nat) : Bool := files.pathExists (candidate number)
  candidate (((List.range (files.entries.size + 1)).find? (!taken ·)).getD 0)

def copyToOverlay (outputRoot overlay file : Path) : BuildAction Unit := do
  match file.below? outputRoot with
  | none => BuildAction.notify (.outsideOutput file outputRoot)
  | some location =>
    let target := (location.map (·.text)).foldl Path.join overlay
    BuildAction.change do
      match target.parent? with
      | some parent => FileSystem.makeDirectories parent
      | none => pure ()
      FileSystem.copyFile file target

def releasing {α : Type} (overlay : Path) (action : BuildAction α) : BuildAction α := fun world =>
  let release (world : World) : World :=
    match FileSystem.removeTree overlay world.files with
    | .ok _ files | .error _ files => { world with files }
  match action world with
  | .ok value world => .ok value (release world)
  | .error error world => .error error (release world)

def withOverlay {α : Type} (outputRoot : Path) (precompiled : PathSet)
    (next : Path → BuildAction α) : BuildAction α := do
  let overlay ← BuildAction.inspect overlayPath
  BuildAction.change (FileSystem.makeDirectory overlay)
  releasing overlay do
    precompiled.toList.forM (copyToOverlay outputRoot overlay)
    next overlay

/-! ## The call -/

def separatorMessage : String :=
  "invalid classpath: path segment contains separator \x60:\x60"

def joinClasspath (entries : List Path) : Except BuildError String :=
  if entries.any fun entry => entry.text.toList.contains ':' then
    .error (.backend separatorMessage)
  else .ok (String.intercalate ":" (entries.map (·.text)))

def arguments (request : CompileRequest) (overlay : Option Path) :
    Except BuildError (List String) := do
  let entries := request.classpath.toList ++ overlay.toList
  let classpath ← if entries.isEmpty then pure [] else (fun text => ["-cp", text]) <$> joinClasspath entries
  pure (classpath ++ ["-d", request.outputRoot.text] ++ request.sources.toList.map (·.text))

def launch (launcher : Launcher) (javac : Path) (arguments : List String) : BuildAction Int :=
  fun world =>
    match launcher javac arguments world.files with
    | .ok exitCode files => .ok (exitCode.getD 1) { world with files }
    | .error fault files =>
      .error (.backend ("failed to run " ++ javac.text ++ ": " ++ fault.message))
        { world with files }

def compile (launcher : Launcher) (javac : Path) (request : CompileRequest) : BuildAction Int := do
  BuildAction.change (FileSystem.makeDirectories request.outputRoot)
  let call (overlay : Option Path) : BuildAction Int := do
    launch launcher javac (← BuildAction.consult fun _ => arguments request overlay)
  if request.precompiled.isEmpty then call none
  else withOverlay request.outputRoot request.precompiled fun overlay => call (some overlay)

/-- The toolchain of Java with the given compiler. -/
def toolchain (launcher : Launcher) (javac : Path) : Toolchain where
  surfaceOf := Surface.read
  typeDeclaredBy := JavaSource.typeOfFile
  compile := compile launcher javac
  sourceExtension := "java"
  outputExtension := "class"

end AbiBuild.Java
