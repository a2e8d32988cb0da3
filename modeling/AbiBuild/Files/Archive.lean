import AbiBuild.Files.FileSystem
import AbiBuild.MessagePack.Reader
import AbiBuild.MessagePack.Writer

/-!
# File trees as octets

A file tree is written as its working directory and a map from paths to contents; a directory is
nil.  This is how the command line program takes in the files that it works on and gives them back.
-/

namespace AbiBuild.Files.Archive

open MessagePack

def placeText (place : Place) : String := "/" ++ String.intercalate "/" place

def placeOfText (text : String) : Place :=
  (Text.splitOn '/' text).filter (· ≠ "")

def encodeEntry : Entry → Bytes
  | .file content => encodeBinary content
  | .directory => [0xC0]

def encode (files : FileSystem) : Bytes :=
  encodeArrayHead 2 ++ encodeText (placeText files.host.workingDirectory) ++
    encodePairs (fun place => encodeText (placeText place)) encodeEntry files.entries.toList

def entry : Reader Entry := do
  match ← head with
  | .nil => pure .directory
  | .binary size | .text size => .file <$> octets size
  | _ => failure

def above (place : Place) : List Place :=
  (List.range place.length).drop 1 |>.map place.take

def treeOf (workingDirectory : Place) (given : List (Place × Entry)) : FileSystem where
  entries :=
    let directories := (workingDirectory :: given.map (·.1)).flatMap above ++ [workingDirectory]
    (Std.ExtTreeMap.ofList (directories.map (·, Entry.directory)) compare).insertMany given
  host := workingDirectory

def reader : Reader FileSystem := do
  match ← head with
  | .array 2 =>
    let workingDirectory ← placeOfText <$> text
    let given ← pairs (placeOfText <$> text) entry
    pure (treeOf workingDirectory given)
  | _ => failure

def decode? (bytes : Bytes) : Option FileSystem := (reader bytes).map (·.1)

end AbiBuild.Files.Archive
