import AbiBuild.Bytes
import AbiBuild.Digest.Xxh3
import AbiBuild.Files.Path
import AbiBuild.Text.Utf8

/-!
# Where state is kept

All state lies below one directory.  What belongs to one pair of a source root and an output root
is found by a key made from their absolute paths.
-/

namespace AbiBuild

open Files

/-- The variables of the environment that are looked at, each if it is set. -/
structure Environment where
  home : Option String := none
  cacheDirectory : Option String := none
  javaHome : Option String := none
  /-- The home directory that the system knows for the user. -/
  accountHome : Option String := none

/-- A source root and an output root. -/
structure RootPair where
  source : Path
  output : Path
  deriving DecidableEq, Repr

namespace RootPair

/-- The text behind the key.  A path that has no absolute form stands for itself. -/
def keyText (pair : RootPair) (directory : Path) : String :=
  ((Path.absolute? directory pair.source).getD pair.source).text ++
    ((Path.absolute? directory pair.output).getD pair.output).text

-- Unfolding a key would run the digest on a text that may not be known.
@[irreducible] def key (pair : RootPair) (directory : Path) : String :=
  Bytes.hexText 16 (Digest.Xxh3.digest (Text.Utf8.encode (pair.keyText directory))).toNat

end RootPair

structure CacheLayout where
  root : Path
  deriving DecidableEq, Repr

namespace CacheLayout

def nonempty (value : Option String) : Option String :=
  value.filter (· ≠ "")

/-- The directory of this program below the home directory, or below the working directory when
there is none. -/
def baseDirectory (environment : Environment) : Path :=
  let home := nonempty environment.home <|> environment.accountHome
  Path.join ⟨home.getD "."⟩ ".abiscope"

def ofEnvironment (environment : Environment) : CacheLayout :=
  match nonempty environment.cacheDirectory with
  | some directory => ⟨⟨directory⟩⟩
  | none => ⟨(baseDirectory environment).join "caches"⟩

def digestRoot (layout : CacheLayout) : Path := layout.root.join "filesystem"

/-- The cache file of the session of a pair. -/
def sessionFile (layout : CacheLayout) (pair : RootPair) (directory : Path) : Path :=
  (layout.root.join "incremental").join (pair.key directory ++ ".bin")

end CacheLayout

end AbiBuild
