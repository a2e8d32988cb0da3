import AbiBuild.Abi
import AbiBuild.Build.World
import AbiBuild.Changes.CacheLayout
import AbiBuild.MessagePack.Reader
import AbiBuild.MessagePack.Writer

/-!
# What changed since the last good build

Sources and the class path are known by digests of their content.  Digests are compared with those
stored after the last build that succeeded, and stored anew only when a build succeeds.
-/

namespace AbiBuild.Changes

open Files MessagePack

/-! ## Digests -/

def streamOfFile (entry : Path × Entry) : Bytes :=
  match entry with
  | (path, .file content) => Text.Utf8.encode path.text ++ content
  | (_, .directory) => []

/-- What a class path entry adds to the digested octets: its text, and the files below it or its own
content. -/
def streamOfEntry (files : FileSystem) (entry : Path) : Except IoFault Bytes := do
  let content ←
    if files.isDirectory entry then (·.flatMap streamOfFile) <$> files.walk (fun _ => true) entry
    else if files.isFile entry then files.read entry
    else pure []
  pure (Text.Utf8.encode entry.text ++ content)

/-- The octets whose digest stands for a class path. -/
def classpathStream (files : FileSystem) (classpath : List Path) : Except IoFault Bytes :=
  classpath.flatMapM (streamOfEntry files)

abbrev SourceDigests := Std.ExtTreeMap String UInt64 compare

def sourceContent? (extension : String) (entry : Path × Entry) : Option (String × Bytes) :=
  match entry with
  | (path, .file content) =>
    if path.extension? = some extension then some (path.text, content) else none
  | (_, .directory) => none

def sourceContents (files : FileSystem) (root : Path) (extension : String) :
    Except IoFault (List (String × Bytes)) :=
  (·.filterMap (sourceContent? extension)) <$> files.walk (·.extension? = some extension) root

def digestsOf (contents : List (String × Bytes)) : SourceDigests :=
  Std.ExtTreeMap.ofList
    (contents.map fun (path, content) => (path, Digest.Xxh3.digest content)) compare

def statesBetween (previous current : SourceDigests) : PathMap SourceState :=
  let seen := current.toList.foldl (fun (states : PathMap SourceState) (path, digest) =>
    let state : SourceState :=
      match previous[path]? with
      | none => .added
      | some before => if before = digest then .notChanged else .changed
    PathMap.put states ⟨path⟩ state) ∅
  previous.toList.foldl (fun (states : PathMap SourceState) (path, _) =>
    if current.contains path then states else PathMap.put states ⟨path⟩ .removed) seen

/-! ## Stored digests -/

def digestReader : Reader UInt64 := UInt64.ofNat <$> unsigned 64

def encodeDigest (digest : UInt64) : Bytes := encodeUnsigned digest.toNat

/-- Of two digests stored for one path the last one counts. -/
def digestsReader : Reader SourceDigests :=
  (Std.ExtTreeMap.ofList · compare) <$> pairs text digestReader

def encodeDigests (digests : SourceDigests) : Bytes :=
  encodePairs encodeText encodeDigest digests.toList

/-- What a stored file holds; `none` when its octets cannot be read that way.  Octets after the value
do not count. -/
def decodeState {α : Type} (reader : Reader α) (bytes : Bytes) : Option α :=
  (reader bytes).map (·.1)

def readState {α : Type} (reader : Reader α) (path : Path) : BuildAction (Option α) := do
  match ← BuildAction.inspect (·.read path) with
  | .error _ => pure none
  | .ok bytes =>
    match decodeState reader bytes with
    | some value => pure (some value)
    | none =>
      BuildAction.notify (.ignoredDigests path)
      pure none

def classpathFile : String := "classpath_hash.bin"

def sourcesFile : String := "sources_hash.bin"

/-! ## The detector -/

/-- What has been computed in this run, for the state directories below a root. -/
structure Detector where
  root : Path
  classpathDigest : Option UInt64 := none
  sourceDigests : Option SourceDigests := none

namespace Detector

def stateDirectory (detector : Detector) (pair : RootPair) : BuildAction Path := do
  let directory ← BuildAction.inspect (·.directory)
  pure (detector.root.join (pair.key directory))

/-- Does the class path differ from the one of the last good build? -/
def classpathChanged (detector : Detector) (pair : RootPair) (classpath : List Path) :
    BuildAction (Bool × Detector) := do
  let stream ← BuildAction.consult fun files => (classpathStream files classpath).mapError .io
  let digest := Digest.Xxh3.digest stream
  let directory ← detector.stateDirectory pair
  let previous ← readState digestReader (directory.join classpathFile)
  pure (decide (previous ≠ some digest), { detector with classpathDigest := some digest })

/-- How each source stands to the last good build. -/
def sourceStates (detector : Detector) (pair : RootPair) (extension : String) :
    BuildAction (PathMap SourceState × Detector) := do
  let contents ← BuildAction.consult fun files =>
    (sourceContents files pair.source extension).mapError .io
  let current := digestsOf contents
  let directory ← detector.stateDirectory pair
  let previous ← readState digestsReader (directory.join sourcesFile)
  pure (statesBetween (previous.getD ∅) current, { detector with sourceDigests := some current })

/-- Stores what has been computed in this run. -/
def save (detector : Detector) (pair : RootPair) : BuildAction Unit := do
  let directory ← detector.stateDirectory pair
  BuildAction.change (FileSystem.makeDirectories directory)
  match detector.classpathDigest with
  | some digest =>
    BuildAction.change (replaceFile (directory.join classpathFile) (encodeDigest digest))
  | none => pure ()
  match detector.sourceDigests with
  | some digests =>
    BuildAction.change (replaceFile (directory.join sourcesFile) (encodeDigests digests))
  | none => pure ()

def clear (detector : Detector) (pair : RootPair) : BuildAction Unit := do
  let directory ← detector.stateDirectory pair
  BuildAction.change (FileSystem.ignoreMissing (FileSystem.removeTree directory))

end Detector

end AbiBuild.Changes
