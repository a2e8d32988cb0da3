import AbiBuild.Build.Outputs
import AbiBuild.Build.Toolchain
import AbiBuild.Text.Blank

/-!
# A plain text language

A small language for trying out builds.  The first line of a source names its type, and each later
line mentions a type publicly or in private, or names a nested type.  A compiled unit is a copy of
its source.  No command offers it: builds are tested with it, and worlds in which a theorem about
every toolchain is seen at work are built with it.
-/

namespace AbiBuild.PlainText

open Files

def emptyFileMessage : String := "empty file"

def typeName? (text : String) : Option String :=
  ((Text.lines text).head?.map Text.trimmed).filter (· ≠ "")

def typeDeclaredBy (files : FileSystem) (path : Path) : Except BuildError String := do
  let text ← (files.readText path).mapError .io
  match typeName? text with
  | some name => pure name
  | none => throw (.sourceParse path emptyFileMessage)

def afterKeyword? (keyword line : String) : Option String :=
  let start := (keyword ++ " ").toList
  let line := Text.trimmedChars line.toList
  if start.isPrefixOf line then some (String.ofList (line.drop start.length)) else none

def surfaceOfText (text : String) : SourceAbi :=
  let lines := Text.lines text
  let mentions := lines.drop 1
  SourceAbi.ofTypes (Text.trimmed (lines.headD ""))
    (mentions.filterMap (afterKeyword? "public")) (mentions.filterMap (afterKeyword? "private"))

def surfaceOf (files : FileSystem) (path : Path) : Except BuildError SourceAbi := do
  let text ← (files.readText path).mapError fun fault => .malformedUnit path fault.message
  pure (surfaceOfText text)

def compileSource (outputRoot source : Path) : BuildAction Unit := do
  let text ← BuildAction.consult fun files => (files.readText source).mapError .io
  let name ← BuildAction.consult (typeDeclaredBy · source)
  let unit := Outputs.unitPath outputRoot name "class"
  BuildAction.change do
    match unit.parent? with
    | some parent => FileSystem.makeDirectories parent
    | none => pure ()
    FileSystem.write unit (Text.Utf8.encode text)
  ((Text.lines text).filterMap (afterKeyword? "nested")).forM fun nested =>
    BuildAction.change
      (FileSystem.write (Outputs.unitPath outputRoot (name ++ "$" ++ nested) "class") [])

/-- The toolchain of this language, whose compiler always succeeds. -/
def toolchain : Toolchain where
  surfaceOf := surfaceOf
  typeDeclaredBy := typeDeclaredBy
  compile request := do
    request.sources.toList.forM (compileSource request.outputRoot)
    pure 0
  sourceExtension := "java"
  outputExtension := "class"

end AbiBuild.PlainText
