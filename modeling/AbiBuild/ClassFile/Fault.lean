import AbiBuild.Text.ModifiedUtf8
import AbiBuild.Text.Quoted

/-!
# Why octets are not a class file
-/

namespace AbiBuild.ClassFile

inductive Fault
  | endOfInput
  | poolCount
  | descriptorLength
  | magicNumber (found : Nat)
  | version (major minor : Nat)
  | constantTag (tag : Nat)
  | referenceKind (kind : Nat)
  /-- There is no constant under this index. -/
  | constantIndex (index : Nat)
  /-- The constant under this index is of another kind. -/
  | constantKind (index : Nat)
  | badText (fault : Text.ModifiedUtf8.Fault)
  | fieldDescriptor (text : String)
  | fieldTypeCode (code : Char)
  | methodDescriptor (text : String)
  | baseTypeCode (code : Char)
  | attributeNameIndex (index : Nat)
  | attributeLength (length : Nat)
  | elementTag (tag : Nat)
  | targetTypeCode (code : Nat)
  | instruction (opcode : Nat)
  | arrayTypeCode (code : Nat)
  | wideInstruction (opcode : Nat)
  /-- A place in code that is negative or does not fit two octets. -/
  | codeOffset
  /-- A place in code where no instruction starts. -/
  | instructionOffset (offset : Nat)
  | frameType (tag : Nat)
  | verificationTag (tag : Nat)
  deriving DecidableEq, Repr

def textFaultMessage : Text.ModifiedUtf8.Fault → String
  | .foreignLead => "MUTF-8 does not use 4-byte sequences"
  | .truncated => "Invalid MUTF-8 byte sequence"
  | .utf8 ⟨index, some length⟩ =>
    "invalid utf-8 sequence of " ++ toString length ++ " bytes from index " ++ toString index
  | .utf8 ⟨index, none⟩ => "incomplete utf-8 byte sequence from index " ++ toString index

namespace Fault

private def labelled (label argument : String) : String :=
  label ++ "(" ++ argument ++ ")"

private def numbered (label : String) (number : Nat) : String :=
  labelled label (toString number)

def message : Fault → String
  | endOfInput => labelled "IoError" (Text.quoted "failed to fill whole buffer")
  | poolCount => labelled "IoError" (Text.quoted "Invalid constant pool count")
  | descriptorLength => labelled "IoError" (Text.quoted "Invalid descriptor length")
  | magicNumber found => numbered "InvalidMagicNumber" found
  | version major minor =>
    "InvalidVersion \x7b major: " ++ toString major ++ ", minor: " ++ toString minor ++ " \x7d"
  | constantTag tag => numbered "InvalidConstantTag" tag
  | referenceKind kind => numbered "InvalidReferenceKind" kind
  | constantIndex index => numbered "InvalidConstantPoolIndex" index
  | constantKind index => numbered "InvalidConstantPoolIndexType" index
  | badText fault => labelled "FromUtf8Error" (Text.quoted (textFaultMessage fault))
  | fieldDescriptor text => labelled "InvalidFieldTypeDescriptor" (Text.quoted text)
  | fieldTypeCode code => labelled "InvalidFieldTypeCode" (Text.quotedChar code)
  | methodDescriptor text => labelled "InvalidMethodDescriptor" (Text.quoted text)
  | baseTypeCode code => labelled "InvalidBaseTypeCode" (Text.quotedChar code)
  | attributeNameIndex index => numbered "InvalidAttributeNameIndex" index
  | attributeLength length => numbered "InvalidAttributeLength" length
  | elementTag tag => numbered "InvalidAnnotationElementTag" tag
  | targetTypeCode code => numbered "InvalidTargetTypeCode" code
  | instruction opcode => numbered "InvalidInstruction" opcode
  | arrayTypeCode code => numbered "InvalidArrayTypeCode" code
  | wideInstruction opcode => numbered "InvalidWideInstruction" opcode
  | codeOffset => "TryFromIntError"
  | instructionOffset offset => numbered "InvalidInstructionOffset" offset
  | frameType tag => numbered "InvalidStackFrameType" tag
  | verificationTag tag => numbered "InvalidVerificationTypeTag" tag

end Fault

end AbiBuild.ClassFile
