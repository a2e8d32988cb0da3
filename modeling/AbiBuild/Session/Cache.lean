import AbiBuild.Dependency.Codec
import AbiBuild.Session.Basic

/-!
# The cache file of a session

A session is stored as one file: a version, the source of each type, and the graph.  A file that
cannot be read is removed and counts as none.
-/

namespace AbiBuild

open Files MessagePack Dependency

def cacheVersion : UInt32 := 1

structure CacheData where
  version : UInt32
  classToSource : List (String × String)
  graph : Bytes
  deriving DecidableEq, Repr

namespace CacheData

def encode (stored : CacheData) : Bytes :=
  encodeArrayHead 3 ++ encodeUnsigned stored.version.toNat ++
    encodePairs encodeText encodeText stored.classToSource ++ encodeBinary stored.graph

structure Fields where
  version : Option UInt32 := none
  classToSource : Option (List (String × String)) := none
  graph : Option Bytes := none

def reader : Reader CacheData := do
  let fields ← recordOf (nestingLimit - 1) ["version", "class_to_source", "graph"] ({} : Fields)
    fun index fields => do
      match index with
      | 0 => pure { fields with version := ← setOnce fields.version word }
      | 1 => pure { fields with classToSource := ← setOnce fields.classToSource (pairs text text) }
      | _ => pure { fields with graph := ← setOnce fields.graph binary }
  match fields with
  | ⟨some version, some classToSource, some graph⟩ => pure ⟨version, classToSource, graph⟩
  | _ => failure

def decode (bytes : Bytes) : Except CacheFault CacheData :=
  match reader bytes with
  | some (stored, _) => .ok stored
  | none => .error .notMessagePack

end CacheData

namespace Session

def toCacheData (session : Session) : CacheData where
  version := cacheVersion
  classToSource := session.classToSource.toList.map fun (name, source) => (name, source.text)
  graph := session.graph.serialize

def ofCacheData (stored : CacheData) : Except CacheFault Session :=
  if stored.version = cacheVersion then do
    let graph ← Graph.deserialize stored.graph
    let classToSource := Std.ExtTreeMap.ofList
      (stored.classToSource.map fun (name, source) => (name, Files.Path.mk source)) compare
    pure (ofStored classToSource graph)
  else .error (.cacheVersion stored.version cacheVersion)

def load (files : FileSystem) (cacheFile : Path) : Except BuildError Session := do
  let bytes ← (files.read cacheFile).mapError .io
  let stored ← (CacheData.decode bytes).mapError .cache
  (ofCacheData stored).mapError .cache

/-- The session stored in a cache file, or an empty one. -/
def start (cacheFile : Path) : BuildAction Session := do
  if ← BuildAction.inspect (·.pathExists cacheFile) then
    match ← BuildAction.inspect (load · cacheFile) with
    | .ok session => pure session
    | .error error =>
      BuildAction.notify (.discardedCache cacheFile error)
      BuildAction.tryChange (FileSystem.removeFile cacheFile)
      pure empty
  else pure empty

/-- Puts what is stored of a session into its cache file in one step. -/
def store (cacheFile : Path) (stored : CacheData) : SessionAction Unit :=
  SessionAction.outside (BuildAction.change do
    match cacheFile.parent? with
    | some parent => FileSystem.makeDirectories parent
    | none => pure ()
    replaceFile cacheFile stored.encode)

def persist (cacheFile : Path) : SessionAction Unit := do
  let session ← SessionAction.current
  store cacheFile session.toCacheData

def forgetAll (session : Session) : Session :=
  { session with classToSource := ∅, sourceToClass := ∅, graph := .empty }

def reset (cacheFile : Path) : SessionAction Unit := do
  SessionAction.revise forgetAll
  SessionAction.outside
    (BuildAction.change (FileSystem.ignoreMissing (FileSystem.removeFile cacheFile)))

end Session

end AbiBuild
