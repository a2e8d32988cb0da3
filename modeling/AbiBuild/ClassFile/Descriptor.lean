import AbiBuild.ClassFile.Fault

/-!
# Descriptors

The types of fields and methods as class files write them.  A class file is only read here, not
verified, so text after a complete type does not count.
-/

namespace AbiBuild.ClassFile

inductive FieldType
  | primitive (code : Char)
  | object (className : String)
  | array (element : FieldType)
  deriving DecidableEq, Repr

def primitiveCodes : List Char := ['B', 'C', 'D', 'F', 'I', 'J', 'S', 'Z']

namespace FieldType

def className? : FieldType → Option String
  | primitive _ => none
  | object className => some className
  | array element => element.className?

/-- The name of a class type is as many characters long as its octets without the two around it, so
it may take in the end of a text that is not ASCII. -/
def objectOfChars (text : List Char) : Except Fault FieldType :=
  let written := String.ofList text
  if written.utf8ByteSize < 2 then .error .descriptorLength
  else
    let name := (text.drop 1).take (written.utf8ByteSize - 2)
    if name.isEmpty || text.getLast? ≠ some ';' then .error (.fieldDescriptor written)
    else .ok (.object (String.ofList name))

def ofChars : List Char → Except Fault FieldType
  | [] => .error (.fieldTypeCode (Char.ofNat 0))
  | '[' :: rest => .array <$> ofChars rest
  | 'L' :: rest => objectOfChars ('L' :: rest)
  | code :: _ =>
    if primitiveCodes.contains code then .ok (.primitive code) else .error (.fieldTypeCode code)

def ofDescriptor (text : String) : Except Fault FieldType :=
  ofChars text.toList

end FieldType

structure MethodType where
  parameters : List FieldType
  returns : Option FieldType
  deriving DecidableEq, Repr

namespace MethodType

/-- One type inside a method descriptor, and what follows it.  The name of a class ends at a
semicolon or with the text. -/
def typeOfChars (descriptor : String) : List Char → Except Fault (FieldType × List Char)
  | [] => .error (.methodDescriptor descriptor)
  | '[' :: rest => do
    let (element, rest) ← typeOfChars descriptor rest
    pure (.array element, rest)
  | 'L' :: rest =>
    .ok (.object (String.ofList (rest.takeWhile (· ≠ ';'))), (rest.dropWhile (· ≠ ';')).drop 1)
  | code :: rest =>
    if primitiveCodes.contains code then .ok (.primitive code, rest)
    else .error (.baseTypeCode code)

def parametersOfChars (descriptor : String) :
    Nat → List Char → Except Fault (List FieldType × List Char)
  | 0, text => .ok ([], text)
  | _ + 1, [] => .ok ([], [])
  | _ + 1, ')' :: rest => .ok ([], rest)
  | count + 1, text => do
    let (parameter, rest) ← typeOfChars descriptor text
    let (others, rest) ← parametersOfChars descriptor count rest
    pure (parameter :: others, rest)

def ofDescriptor (descriptor : String) : Except Fault MethodType :=
  match descriptor.toList with
  | '(' :: rest => do
    let (parameters, rest) ← parametersOfChars descriptor (rest.length + 1) rest
    match rest with
    | [] => throw (.methodDescriptor descriptor)
    | 'V' :: _ => pure ⟨parameters, none⟩
    | rest =>
      let (returns, _) ← typeOfChars descriptor rest
      pure ⟨parameters, some returns⟩
  | _ => .error (.methodDescriptor descriptor)

end MethodType

end AbiBuild.ClassFile
