import AbiBuild.Files.FileSystem

/-!
# Compiled outputs

The unit of a type lies below the output directory where the type's name says, and the units of the
types nested in it lie beside it.
-/

namespace AbiBuild.Outputs

open Files

/-- Where the unit of a type belongs. -/
def unitPath (outputRoot : Path) (className extension : String) : Path :=
  let segments := Text.splitOn '/' className
  (segments.dropLast.foldl Path.join outputRoot).join
    (segments.getLast?.getD "" ++ "." ++ extension)

def isNestedUnit (simpleName extension fileName : String) : Bool :=
  (simpleName ++ "$").toList.isPrefixOf fileName.toList &&
    ("." ++ extension).toList.isSuffixOf fileName.toList

def nestedUnits (files : FileSystem) (unit : Path) (simpleName extension : String) : List Path :=
  match unit.parent? with
  | none => []
  | some directory =>
    match files.names directory with
    | .error _ => []
    | .ok names => (names.filter (isNestedUnit simpleName extension ·)).map directory.join

/-- The outputs of a type that exist, in order. -/
def existing (files : FileSystem) (outputRoot : Path) (className extension : String) : List Path :=
  let unit := unitPath outputRoot className extension
  let own := if files.isFile unit then [unit] else []
  (own ++ nestedUnits files unit (Text.lastPiece '/' className) extension).mergeSort
    fun left right => (compare left right).isLE

def delete (outputRoot : Path) (className extension : String) : FileAction Unit := do
  let found ← FileSystem.inspect (existing · outputRoot className extension)
  found.forM fun path => FileSystem.ignoreMissing (FileSystem.removeFile path)

end AbiBuild.Outputs
