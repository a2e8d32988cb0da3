import AbiBuild.ClassFile.Decoder
import AbiBuild.Decimal.Floating

/-!
# Constants

The parts of a class file refer to texts, classes and members by their index in a pool of
constants.  Indices start at one, and a wide number takes two of them.
-/

namespace AbiBuild.ClassFile

inductive ReferenceKind
  | getField
  | getStatic
  | putField
  | putStatic
  | invokeVirtual
  | invokeStatic
  | invokeSpecial
  | newInvokeSpecial
  | invokeInterface
  deriving DecidableEq, Repr

namespace ReferenceKind

def all : List ReferenceKind :=
  [getField, getStatic, putField, putStatic, invokeVirtual, invokeStatic, invokeSpecial,
    newInvokeSpecial, invokeInterface]

def ofNumber? (number : Nat) : Option ReferenceKind :=
  if number = 0 then none else all[number - 1]?

def text : ReferenceKind → String
  | getField => "GetField"
  | getStatic => "GetStatic"
  | putField => "PutField"
  | putStatic => "PutStatic"
  | invokeVirtual => "InvokeVirtual"
  | invokeStatic => "InvokeStatic"
  | invokeSpecial => "InvokeSpecial"
  | newInvokeSpecial => "NewInvokeSpecial"
  | invokeInterface => "InvokeInterface"

end ReferenceKind

inductive Constant
  | utf8 (text : String)
  | integer (value : Int)
  /-- A number by the bits that encode it. -/
  | float (bits : Nat)
  | long (value : Int)
  | double (bits : Nat)
  | classInfo (nameIndex : Nat)
  | stringInfo (textIndex : Nat)
  | fieldRef (classIndex nameAndTypeIndex : Nat)
  | methodRef (classIndex nameAndTypeIndex : Nat)
  | interfaceMethodRef (classIndex nameAndTypeIndex : Nat)
  | nameAndType (nameIndex descriptorIndex : Nat)
  | methodHandle (kind : ReferenceKind) (referenceIndex : Nat)
  | methodType (descriptorIndex : Nat)
  | dynamic (bootstrapIndex nameAndTypeIndex : Nat)
  | invokeDynamic (bootstrapIndex nameAndTypeIndex : Nat)
  | moduleInfo (nameIndex : Nat)
  | packageInfo (nameIndex : Nat)
  deriving DecidableEq, Repr

namespace Constant

def isWide : Constant → Bool
  | long _ | double _ => true
  | _ => false

private def recordText (label : String) (fields : List (String × String)) : String :=
  label ++ " \x7b " ++
    String.intercalate ", " (fields.map fun (name, value) => name ++ ": " ++ value) ++ " \x7d"

private def memberText (label : String) (classIndex nameAndTypeIndex : Nat) : String :=
  recordText label
    [("class_index", toString classIndex), ("name_and_type_index", toString nameAndTypeIndex)]

private def computedText (label : String) (bootstrapIndex nameAndTypeIndex : Nat) : String :=
  recordText label
    [("bootstrap_method_attr_index", toString bootstrapIndex),
      ("name_and_type_index", toString nameAndTypeIndex)]

private def wrappedText (label argument : String) : String :=
  label ++ "(" ++ argument ++ ")"

/-- The constant as diagnostics show it. -/
def text : Constant → String
  | utf8 text => wrappedText "Utf8" (Text.quoted text)
  | integer value => wrappedText "Integer" (toString value)
  | float bits => wrappedText "Float" (Decimal.single.text bits)
  | long value => wrappedText "Long" (toString value)
  | double bits => wrappedText "Double" (Decimal.double.text bits)
  | classInfo nameIndex => wrappedText "Class" (toString nameIndex)
  | stringInfo textIndex => wrappedText "String" (toString textIndex)
  | fieldRef classIndex nameAndTypeIndex => memberText "FieldRef" classIndex nameAndTypeIndex
  | methodRef classIndex nameAndTypeIndex => memberText "MethodRef" classIndex nameAndTypeIndex
  | interfaceMethodRef classIndex nameAndTypeIndex =>
    memberText "InterfaceMethodRef" classIndex nameAndTypeIndex
  | nameAndType nameIndex descriptorIndex =>
    recordText "NameAndType"
      [("name_index", toString nameIndex), ("descriptor_index", toString descriptorIndex)]
  | methodHandle kind referenceIndex =>
    recordText "MethodHandle"
      [("reference_kind", kind.text), ("reference_index", toString referenceIndex)]
  | methodType descriptorIndex => wrappedText "MethodType" (toString descriptorIndex)
  | dynamic bootstrapIndex nameAndTypeIndex => computedText "Dynamic" bootstrapIndex nameAndTypeIndex
  | invokeDynamic bootstrapIndex nameAndTypeIndex =>
    computedText "InvokeDynamic" bootstrapIndex nameAndTypeIndex
  | moduleInfo nameIndex => wrappedText "Module" (toString nameIndex)
  | packageInfo nameIndex => wrappedText "Package" (toString nameIndex)

end Constant

structure ConstantPool where
  /-- What stands under each index, from zero on. -/
  entries : Array (Option Constant)
  deriving DecidableEq, Repr

namespace ConstantPool

def constant (pool : ConstantPool) (index : Nat) : Except Fault Constant :=
  match pool.entries[index]? with
  | some (some constant) => .ok constant
  | _ => .error (.constantIndex index)

def text (pool : ConstantPool) (index : Nat) : Except Fault String := do
  match ← pool.constant index with
  | .utf8 text => pure text
  | _ => throw (.constantKind index)

/-- The name of the class under an index. -/
def className (pool : ConstantPool) (index : Nat) : Except Fault String := do
  match ← pool.constant index with
  | .classInfo nameIndex => pool.text nameIndex
  | _ => throw (.constantKind index)

end ConstantPool

namespace Decoder

def modifiedUtf8 (size : Nat) : Decoder String := do
  match Text.ModifiedUtf8.decode (← octets size) with
  | .ok text => pure text
  | .error fault => throw (.badText fault)

def constant : Decoder Constant := do
  match ← u1 with
  | 1 => .utf8 <$> (modifiedUtf8 (← u2))
  | 3 => .integer <$> signed 4
  | 4 => .float <$> u4
  | 5 => .long <$> signed 8
  | 6 => .double <$> unsigned 8
  | 7 => .classInfo <$> u2
  | 8 => .stringInfo <$> u2
  | 9 => .fieldRef <$> u2 <*> u2
  | 10 => .methodRef <$> u2 <*> u2
  | 11 => .interfaceMethodRef <$> u2 <*> u2
  | 12 => .nameAndType <$> u2 <*> u2
  | 15 =>
    let kind ← u1
    match ReferenceKind.ofNumber? kind with
    | some kind => .methodHandle kind <$> u2
    | none => throw (.referenceKind kind)
  | 16 => .methodType <$> u2
  | 17 => .dynamic <$> u2 <*> u2
  | 18 => .invokeDynamic <$> u2 <*> u2
  | 19 => .moduleInfo <$> u2
  | 20 => .packageInfo <$> u2
  | tag => throw (.constantTag tag)

def constants : (slots : Nat) → Decoder (List (Option Constant))
  | 0 => pure []
  | 1 => do
    let found ← constant
    pure [some found]
  | slots + 2 => do
    let found ← constant
    if found.isWide then
      let others ← constants slots
      pure (some found :: none :: others)
    else
      let others ← constants (slots + 1)
      pure (some found :: others)

def constantPool : Decoder ConstantPool := do
  match ← u2 with
  | 0 => throw .poolCount
  | slots + 1 =>
    let found ← constants slots
    pure ⟨(none :: found).toArray⟩

end Decoder

end AbiBuild.ClassFile
