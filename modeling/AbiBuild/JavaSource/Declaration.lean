import AbiBuild.Error
import AbiBuild.Files.FileSystem
import AbiBuild.JavaSource.Outline

/-!
# The type a Java file declares

A file is expected to declare the type that it is named after; if it does not, its first type
counts.  Nested types never do.
-/

namespace AbiBuild.JavaSource

def packageNames (items : List Item) : List (List Char) :=
  items.filterMap fun item =>
    match item with
    | .package name => some name
    | _ => none

def typeNames (items : List Item) : List (List Char) :=
  items.filterMap fun item =>
    match item with
    | .type name => some name
    | _ => none

def qualifier (name : List Char) : List Char :=
  (Text.withoutBlanks name).map fun value => if value = '.' then '/' else value

def preferred (stem : List Char) (types : List (List Char)) : Option (List Char) :=
  if types.contains stem then some stem else types.head?

def declaredType? (items : List Item) (stem : List Char) : Option (List Char) :=
  (preferred stem (typeNames items)).map fun name =>
    match (packageNames items).getLast? with
    | some package => qualifier package ++ '/' :: name
    | none => name

def resolve? (text stem : String) : Option String :=
  (declaredType? (outline text) stem.toList).map String.ofList

def undeclaredMessage : String := "no top-level type declaration"

open Files in
def typeOfFile (files : FileSystem) (path : Path) : Except BuildError String := do
  let text ← (files.readText path).mapError .io
  match resolve? text (path.stem?.getD "") with
  | some name => pure name
  | none => throw (.sourceParse path undeclaredMessage)

end AbiBuild.JavaSource
