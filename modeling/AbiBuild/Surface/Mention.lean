import AbiBuild.Abi
import AbiBuild.ClassFile.Basic
import AbiBuild.Signature.Parser

/-!
# The types a compiled class mentions

A class mentions its supertypes, the types of its members and of their attributes, and the classes
that its code uses.  A mention is private when it stands in a private member or in code, since
nothing outside the class depends on it there.
-/

namespace AbiBuild.Surface

open ClassFile

structure Mention where
  name : String
  isPrivate : Bool
  deriving DecidableEq, Repr

/-- Why the types of a decoded class cannot be told. -/
inductive UnitFault
  | decoding (fault : Fault)
  | constant (index : Nat) (fault : Fault)
  | classConstant (index : Nat) (fault : Fault)
  | memberConstant (index : Nat) (fault : Fault)
  | notAMember (index : Nat) (constant : Constant)
  | methodDescriptor (text : String) (fault : Fault)
  | signature (text : String) (fault : Signature.Fault)
  deriving DecidableEq, Repr

def UnitFault.message : UnitFault → String
  | decoding fault => fault.message
  | constant index fault => "constant #" ++ toString index ++ ": " ++ fault.message
  | classConstant index fault => "class constant #" ++ toString index ++ ": " ++ fault.message
  | memberConstant index fault => "member constant #" ++ toString index ++ ": " ++ fault.message
  | notAMember index found =>
    "constant #" ++ toString index ++ " is not a member: " ++ found.text
  | methodDescriptor text fault => "method descriptor " ++ text ++ ": " ++ fault.message
  | signature text fault => fault.message text

def textAt (pool : ConstantPool) (index : Nat) : Except UnitFault String :=
  (pool.text index).mapError (.constant index)

def classAt (pool : ConstantPool) (index : Nat) : Except UnitFault String :=
  (pool.className index).mapError (.classConstant index)

def mention (isPrivate : Bool) (name : String) : List Mention :=
  if name = "" then [] else [⟨name, isPrivate⟩]

def signatureMentions (isPrivate : Bool) (text : String) : Except UnitFault (List Mention) :=
  match Signature.parse text with
  | .ok signature => .ok (signature.classTypes.flatMap (mention isPrivate))
  | .error fault => .error (.signature text fault)

def typeMentions (isPrivate : Bool) (type : FieldType) : List Mention :=
  type.className?.toList.flatMap (mention isPrivate)

def descriptorMentions (pool : ConstantPool) (isPrivate : Bool) (index : Nat) :
    Except UnitFault (List Mention) := do
  signatureMentions isPrivate (← textAt pool index)

def collect {α : Type} (mentions : α → Except UnitFault (List Mention)) (parts : List α) :
    Except UnitFault (List Mention) :=
  parts.flatMapM mentions

/-! ## Annotations -/

mutual

def annotationMentions (pool : ConstantPool) (isPrivate : Bool) :
    Annotation → Except UnitFault (List Mention)
  | .of typeIndex values => do
    let type ← descriptorMentions pool isPrivate typeIndex
    let values ← valuesMentions pool isPrivate values
    pure (type ++ values)

def valueMentions (pool : ConstantPool) (isPrivate : Bool) :
    ElementValue → Except UnitFault (List Mention)
  | .constant => pure []
  | .enumeration typeIndex => descriptorMentions pool isPrivate typeIndex
  | .classLiteral descriptorIndex => descriptorMentions pool isPrivate descriptorIndex
  | .nested annotation => annotationMentions pool isPrivate annotation
  | .list values => valuesMentions pool isPrivate values

def valuesMentions (pool : ConstantPool) (isPrivate : Bool) :
    List ElementValue → Except UnitFault (List Mention)
  | [] => pure []
  | value :: others => do
    let first ← valueMentions pool isPrivate value
    let others ← valuesMentions pool isPrivate others
    pure (first ++ others)

end

/-! ## Code -/

def classConstantMentions (name : String) : Except UnitFault (List Mention) :=
  if name.toList.head? = some '[' then signatureMentions true name else pure (mention true name)

def classOfInstruction? (pool : ConstantPool) : Instruction → Except UnitFault (Option String)
  | .namesClass index => some <$> classAt pool index
  | .usesMember index => do
    match ← (pool.constant index).mapError (UnitFault.memberConstant index) with
    | .fieldRef classIndex _ | .methodRef classIndex _ | .interfaceMethodRef classIndex _ =>
      some <$> classAt pool classIndex
    | found => throw (.notAMember index found)
  | .loadsConstant index => do
    match ← (pool.constant index).mapError (UnitFault.constant index) with
    | .classInfo _ => some <$> classAt pool index
    | _ => pure none
  | _ => pure none

def instructionMentions (pool : ConstantPool) (instruction : Instruction) :
    Except UnitFault (List Mention) := do
  match ← classOfInstruction? pool instruction with
  | some name => classConstantMentions name
  | none => pure []

/-! ## Attributes and members -/

mutual

def attributeMentions (pool : ConstantPool) (isPrivate : Bool) :
    Attribute → Except UnitFault (List Mention)
  | .signature textIndex => descriptorMentions pool isPrivate textIndex
  | .exceptions classIndices =>
    collect (fun index => mention isPrivate <$> classAt pool index) classIndices
  | .annotations annotations => collect (annotationMentions pool isPrivate) annotations
  | .code instructions attributes => do
    let used ← collect (instructionMentions pool) instructions
    let others ← attributesMentions pool true attributes
    pure (used ++ others)
  | .sourceFile _ | .innerClasses _ | .places _ | .other => pure []

def attributesMentions (pool : ConstantPool) (isPrivate : Bool) :
    List Attribute → Except UnitFault (List Mention)
  | [] => pure []
  | first :: others => do
    let first ← attributeMentions pool isPrivate first
    let others ← attributesMentions pool isPrivate others
    pure (first ++ others)

end

def fieldMentions (pool : ConstantPool) (field : Field) : Except UnitFault (List Mention) := do
  let isPrivate := ClassFile.isPrivate field.accessFlags
  let attributes ← attributesMentions pool isPrivate field.attributes
  pure (typeMentions isPrivate field.type ++ attributes)

def methodTypeOf (pool : ConstantPool) (method : Method) : Except UnitFault MethodType := do
  let descriptor ← textAt pool method.descriptorIndex
  (MethodType.ofDescriptor descriptor).mapError (.methodDescriptor descriptor)

def methodMentions (pool : ConstantPool) (method : Method) : Except UnitFault (List Mention) := do
  let isPrivate := ClassFile.isPrivate method.accessFlags
  let type ← methodTypeOf pool method
  let attributes ← attributesMentions pool isPrivate method.attributes
  pure ((type.parameters ++ type.returns.toList).flatMap (typeMentions isPrivate) ++ attributes)

/-- What a class mentions outside its table of nested classes.  The supertypes and attributes of a
class are as visible as the class itself. -/
def classMentions (unit : ClassFile) (isPrivate : Bool) : Except UnitFault (List Mention) := do
  let superclass ←
    if unit.superIndex = 0 then pure []
    else mention isPrivate <$> classAt unit.pool unit.superIndex
  let interfaces ←
    collect (fun index => mention isPrivate <$> classAt unit.pool index) unit.interfaceIndices
  let attributes ← attributesMentions unit.pool isPrivate unit.attributes
  let fields ← collect (fieldMentions unit.pool) unit.fields
  let methods ← collect (methodMentions unit.pool) unit.methods
  pure (superclass ++ interfaces ++ attributes ++ fields ++ methods)

end AbiBuild.Surface
