import AbiBuild.Files.Fault

/-!
# Why a build step fails
-/

namespace AbiBuild

open Files

/-- Why stored state cannot be used. -/
inductive CacheFault
  | notMessagePack
  | notCompressed
  | graphVersion (found : UInt32)
  | nameIndex (index : UInt32)
  | cacheVersion (found expected : UInt32)
  | other (text : String)
  deriving DecidableEq, Repr

def CacheFault.message : CacheFault → String
  | notMessagePack => "MSGPACK error"
  | notCompressed => "Zstd decompression failed"
  | graphVersion found => "unsupported graph version " ++ toString found.toNat
  | nameIndex index => "name index " ++ toString index.toNat ++ " out of bounds"
  | cacheVersion found expected =>
    "cache version " ++ toString found.toNat ++ " does not match " ++ toString expected.toNat
  | other text => text

inductive BuildError
  | io (fault : IoFault)
  | malformedUnit (path : Path) (reason : String)
  | alreadyExists (name : String)
  | unknownSource (name : String)
  | sourceParse (path : Path) (reason : String)
  | cache (fault : CacheFault)
  | backend (text : String)
  | internal (text : String)
  deriving DecidableEq, Repr

namespace BuildError

def message : BuildError → String
  | io fault => "I/O error: " ++ fault.message
  | malformedUnit path reason => "Malformed compiled unit " ++ path.text ++ ": " ++ reason
  | alreadyExists name => "Failed to add, node for " ++ name ++ " already exists"
  | unknownSource name => "Source file of " ++ name ++ " is unknown"
  | sourceParse path reason =>
    "Could not resolve declared type of " ++ path.text ++ ": " ++ reason
  | cache fault => "Incremental cache error: " ++ fault.message
  | backend text => "Compiler backend error: " ++ text
  | internal text => "Internal error: " ++ text

/-- Errors after which stored state can no longer be trusted. -/
def requiresFullRebuild : BuildError → Bool
  | unknownSource _ | cache _ => true
  | _ => false

end BuildError

end AbiBuild
