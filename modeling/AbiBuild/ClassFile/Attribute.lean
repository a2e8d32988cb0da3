import AbiBuild.ClassFile.Annotation
import AbiBuild.ClassFile.Constant
import AbiBuild.ClassFile.Frame
import AbiBuild.ClassFile.Instruction

/-!
# Attributes

What a class file says beyond the declarations themselves.  Each attribute has a name and a length.
The names of the class file format are decoded by their content wherever they stand, and most of
them whatever their length says; under any other name the length is passed over.
-/

namespace AbiBuild.ClassFile

structure InnerClass where
  classIndex : Nat
  /-- Zero when the class is not a member of another one. -/
  outerIndex : Nat
  accessFlags : Nat
  deriving DecidableEq, Repr

inductive Attribute
  | signature (textIndex : Nat)
  | sourceFile (textIndex : Nat)
  | exceptions (classIndices : List Nat)
  | innerClasses (classes : List InnerClass)
  /-- Annotations that are visible when the program runs. -/
  | annotations (annotations : List Annotation)
  | code (instructions : List Instruction) (attributes : List Attribute)
  /-- Places in code that lines begin at or frames describe. -/
  | places (offsets : List Nat)
  /-- Nothing that is kept. -/
  | other

namespace Decoder

def expectLength (expected length : Nat) : Decoder Unit :=
  if length = expected then pure () else throw (.attributeLength length)

def innerClass : Decoder InnerClass := do
  let classIndex ← u2
  let outerIndex ← u2
  let _ ← u2
  let accessFlags ← u2
  pure ⟨classIndex, outerIndex, accessFlags⟩

def moduleDeclaration : Decoder Unit := do
  skip 6
  let _ ← table 2 (skip 6)
  let _ ← table 2 (skip 4 *> table 2 u2)
  let _ ← table 2 (skip 4 *> table 2 u2)
  let _ ← table 2 u2
  let _ ← table 2 (skip 2 *> table 2 u2)

def simpleAttribute (name : String) (length : Nat) : Decoder Attribute :=
  match name with
  | "Signature" => expectLength 2 length *> .signature <$> u2
  | "SourceFile" => expectLength 2 length *> .sourceFile <$> u2
  | "ConstantValue" | "ModuleMainClass" | "NestHost" =>
    expectLength 2 length *> skip 2 *> pure .other
  | "EnclosingMethod" => expectLength 4 length *> skip 4 *> pure .other
  | "Synthetic" | "Deprecated" => expectLength 0 length *> pure .other
  | "Exceptions" => .exceptions <$> table 2 u2
  | "InnerClasses" => .innerClasses <$> table 2 innerClass
  | "RuntimeVisibleAnnotations" => .annotations <$> table 2 annotation
  | "RuntimeVisibleParameterAnnotations" =>
    .annotations <$> List.flatten <$> table 1 (table 2 annotation)
  | "RuntimeVisibleTypeAnnotations" => .annotations <$> table 2 typeAnnotation
  | "RuntimeInvisibleAnnotations" => table 2 annotation *> pure .other
  | "RuntimeInvisibleParameterAnnotations" => table 1 (table 2 annotation) *> pure .other
  | "RuntimeInvisibleTypeAnnotations" => table 2 typeAnnotation *> pure .other
  | "AnnotationDefault" => elementValue *> pure .other
  | "LineNumberTable" => .places <$> table 2 (do
    let place ← u2
    skip 2
    pure place)
  | "LocalVariableTable" | "LocalVariableTypeTable" => table 2 (skip 10) *> pure .other
  | "BootstrapMethods" => table 2 (skip 2 *> table 2 u2) *> pure .other
  | "MethodParameters" => table 1 (skip 4) *> pure .other
  | "Module" => moduleDeclaration *> pure .other
  | "ModulePackages" | "NestMembers" | "PermittedSubclasses" => table 2 u2 *> pure .other
  | "StackMapTable" => expectOctets length *> .places <$> stackMap
  | "SourceDebugExtension" => modifiedUtf8 length *> pure .other
  | _ => skip length *> pure .other

def exceptionHandler (starts : List Nat) : Decoder Unit := do
  let start ← u2
  let stop ← u2
  let handler ← u2
  skip 2
  let _ ← expectStart starts start
  if starts.all (stop < ·) then throw (.instructionOffset stop)
  let _ ← expectStart starts handler

def codeAttribute (starts : List Nat) (decode : Decoder Attribute) : Decoder Attribute := do
  let found ← decode
  match found with
  | .places offsets =>
    offsets.forM fun offset => expectStart starts offset
    pure found
  | _ => pure found

def codeBody (decode : Decoder Attribute) : Decoder Attribute := do
  skip 4
  let code ← InstructionList.ofBytes (← octets (← u4))
  let _ ← table 2 (exceptionHandler code.starts)
  let attributes ← table 2 (codeAttribute code.starts decode)
  pure (.code code.instructions attributes)

/-- The count bounds how deep attributes nest. -/
def attributeWithin (pool : ConstantPool) : Nat → Decoder Attribute
  | 0 => throw .endOfInput
  | count + 1 => do
    let nameIndex ← u2
    match pool.text nameIndex with
    | .error _ => throw (.attributeNameIndex nameIndex)
    | .ok name =>
      let length ← u4
      match name with
      | "Code" => codeBody (attributeWithin pool count)
      | "Record" => table 2 (skip 4 *> table 2 (attributeWithin pool count)) *> pure .other
      | name => simpleAttribute name length

def attributes (pool : ConstantPool) : Decoder (List Attribute) := do
  table 2 (attributeWithin pool ((← remaining) + 1))

end Decoder

end AbiBuild.ClassFile
