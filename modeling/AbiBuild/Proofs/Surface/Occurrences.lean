import AbiBuild.Proofs.ClassFile.Encoding
import AbiBuild.Proofs.Surface.Outline

/-!
# Where a class is mentioned

Every position of a class file at which another class can stand, with the visibility that it has
there, as a relation of its own.  What is gathered from a unit is what stands at one of its
positions: no position is forgotten, none is invented, and none has the visibility of another.
-/

namespace AbiBuild

namespace Signature

/-! ## Classes in a type -/

mutual

/-- The type is written with the class in it: an array by its elements, a class type by itself and
by its arguments. -/
inductive TypeSignature.Writes : TypeSignature → String → Prop
  | element {element : TypeSignature} {name : String} (inside : element.Writes name) :
      (TypeSignature.array element).Writes name
  | itself {outer : Segment} {nested : List Segment} :
      (TypeSignature.object outer nested).Writes (className outer nested)
  | argument {outer segment : Segment} {nested : List Segment} {name : String}
      (member : segment ∈ outer :: nested) (inside : segment.Writes name) :
      (TypeSignature.object outer nested).Writes name

inductive Segment.Writes : Segment → String → Prop
  | argument {text : List Char} {arguments : List Argument} {bound : Bound} {type : TypeSignature}
      {name : String} (member : .bounded bound type ∈ arguments) (inside : type.Writes name) :
      (Segment.generic text arguments).Writes name

end

theorem mem_classTypesOfNested {segments : List Segment} {name : String} :
    name ∈ classTypesOfNested segments ↔ ∃ segment ∈ segments, name ∈ segment.classTypes := by
  induction segments with
  | nil => simp [classTypesOfNested]
  | cons segment segments ih => simp [classTypesOfNested, ih]

theorem mem_classTypesOfArguments {arguments : List Argument} {name : String} :
    name ∈ classTypesOfArguments arguments ↔
      ∃ argument ∈ arguments, name ∈ argument.classTypes := by
  induction arguments with
  | nil => simp [classTypesOfArguments]
  | cons argument arguments ih => simp [classTypesOfArguments, ih]

mutual

theorem TypeSignature.mem_classTypes (type : TypeSignature) {name : String} :
    name ∈ type.classTypes ↔ type.Writes name := by
  match type with
  | .primitive kind =>
      rw [TypeSignature.classTypes]
      exact ⟨fun member => absurd member List.not_mem_nil, nofun⟩
  | .variable text =>
      rw [TypeSignature.classTypes]
      exact ⟨fun member => absurd member List.not_mem_nil, nofun⟩
  | .array element =>
      rw [TypeSignature.classTypes, element.mem_classTypes]
      exact ⟨.element, fun | .element inside => inside⟩
  | .object outer nested =>
      have first : name ∈ outer.classTypes ↔ outer.Writes name := outer.mem_classTypes
      have others : ∀ segment ∈ nested, name ∈ segment.classTypes ↔ segment.Writes name :=
        fun segment _ => segment.mem_classTypes
      rw [TypeSignature.classTypes, List.mem_append, List.mem_append, mem_classTypesOfNested,
        List.mem_singleton]
      constructor
      · rintro ((member | ⟨segment, listed, member⟩) | rfl)
        · exact .argument (.head _) (first.mp member)
        · exact .argument (.tail _ listed) ((others segment listed).mp member)
        · exact .itself
      · rintro (_ | _ | ⟨listed, inside⟩)
        · exact .inr rfl
        · rcases List.mem_cons.mp listed with rfl | listed
          · exact .inl (.inl (first.mpr inside))
          · exact .inl (.inr ⟨_, listed, (others _ listed).mpr inside⟩)

theorem Segment.mem_classTypes (segment : Segment) {name : String} :
    name ∈ segment.classTypes ↔ segment.Writes name := by
  match segment with
  | .plain text =>
      rw [Segment.classTypes]
      exact ⟨fun member => absurd member List.not_mem_nil, nofun⟩
  | .generic text arguments =>
      have each : ∀ argument ∈ arguments, name ∈ argument.classTypes ↔
          ∃ bound type, argument = .bounded bound type ∧ type.Writes name :=
        fun argument _ => argument.mem_classTypes
      rw [Segment.classTypes, mem_classTypesOfArguments]
      constructor
      · rintro ⟨argument, listed, member⟩
        obtain ⟨bound, type, rfl, inside⟩ := (each argument listed).mp member
        exact .argument listed inside
      · rintro (⟨listed, inside⟩)
        exact ⟨_, listed, (each _ listed).mpr ⟨_, _, rfl, inside⟩⟩

theorem Argument.mem_classTypes (argument : Argument) {name : String} :
    name ∈ argument.classTypes ↔
      ∃ bound type, argument = .bounded bound type ∧ type.Writes name := by
  match argument with
  | .wildcard =>
      rw [Argument.classTypes]
      exact ⟨fun member => absurd member List.not_mem_nil, nofun⟩
  | .bounded bound type =>
      have inside : name ∈ type.classTypes ↔ type.Writes name := type.mem_classTypes
      rw [Argument.classTypes, inside]
      exact ⟨fun writes => ⟨bound, type, rfl, writes⟩, fun
        | ⟨_, _, same, writes⟩ => by
          obtain ⟨rfl, rfl⟩ := Argument.bounded.inj same
          exact writes⟩

end

def Writes (signature : Signature) (name : String) : Prop :=
  ∃ type, (type ∈ (signature.parameters.getD []).flatMap (·.bounds) ∨
    type ∈ signature.items.flatMap (·.types)) ∧ type.Writes name

theorem mem_classTypes {signature : Signature} {name : String} :
    name ∈ signature.classTypes ↔ signature.Writes name := by
  simp only [Signature.classTypes, Writes, List.mem_flatMap (b := name), List.mem_append,
    TypeSignature.mem_classTypes]

end Signature

namespace ClassFile

/-! ## Classes in a descriptor -/

inductive FieldType.Writes : FieldType → String → Prop
  | itself {name : String} : (FieldType.object name).Writes name
  | element {element : FieldType} {name : String} (inside : element.Writes name) :
      (FieldType.array element).Writes name

theorem FieldType.className?_eq_some {type : FieldType} {name : String} :
    type.className? = some name ↔ type.Writes name := by
  induction type with
  | primitive code => exact ⟨nofun, nofun⟩
  | object other => exact ⟨fun | rfl => .itself, fun | .itself => rfl⟩
  | array element ih =>
      rw [FieldType.className?, ih]
      exact ⟨.element, fun | .element inside => inside⟩

/-! ## Descriptors in an annotation -/

mutual

inductive Annotation.Carries : Annotation → Nat → Prop
  | type {typeIndex : Nat} {values : List ElementValue} :
      Annotation.Carries (.of typeIndex values) typeIndex
  | value {typeIndex index : Nat} {values : List ElementValue} {value : ElementValue}
      (member : value ∈ values) (inside : value.Carries index) :
      Annotation.Carries (.of typeIndex values) index

inductive ElementValue.Carries : ElementValue → Nat → Prop
  | enumeration {typeIndex : Nat} : (ElementValue.enumeration typeIndex).Carries typeIndex
  | classLiteral {descriptorIndex : Nat} :
      (ElementValue.classLiteral descriptorIndex).Carries descriptorIndex
  | nested {marker : Annotation} {index : Nat} (inside : marker.Carries index) :
      (ElementValue.nested marker).Carries index
  | element {values : List ElementValue} {value : ElementValue} {index : Nat}
      (member : value ∈ values) (inside : value.Carries index) :
      (ElementValue.list values).Carries index

end

theorem ElementValue.mem_listDescriptors {values : List ElementValue} {index : Nat} :
    index ∈ ElementValue.listDescriptors values ↔ ∃ value ∈ values, index ∈ value.descriptors := by
  induction values with
  | nil => simp [ElementValue.listDescriptors]
  | cons value values ih => simp [ElementValue.listDescriptors, ih]

mutual

theorem Annotation.mem_descriptors (marker : Annotation) {index : Nat} :
    index ∈ marker.descriptors ↔ marker.Carries index := by
  match marker with
  | .of typeIndex values =>
      have each : ∀ value ∈ values, index ∈ value.descriptors ↔ value.Carries index :=
        fun value _ => value.mem_descriptors
      unfold Annotation.descriptors
      rw [List.mem_cons, ElementValue.mem_listDescriptors]
      constructor
      · rintro (rfl | ⟨value, listed, member⟩)
        · exact .type
        · exact .value listed ((each value listed).mp member)
      · rintro (_ | ⟨listed, inside⟩)
        · exact .inl rfl
        · exact .inr ⟨_, listed, (each _ listed).mpr inside⟩

theorem ElementValue.mem_descriptors (value : ElementValue) {index : Nat} :
    index ∈ value.descriptors ↔ value.Carries index := by
  match value with
  | .constant =>
      rw [ElementValue.descriptors]
      exact ⟨fun member => absurd member List.not_mem_nil, nofun⟩
  | .enumeration typeIndex =>
      rw [ElementValue.descriptors, List.mem_singleton]
      exact ⟨fun | rfl => .enumeration, fun | .enumeration => rfl⟩
  | .classLiteral descriptorIndex =>
      rw [ElementValue.descriptors, List.mem_singleton]
      exact ⟨fun | rfl => .classLiteral, fun | .classLiteral => rfl⟩
  | .nested marker =>
      have inside : index ∈ marker.descriptors ↔ marker.Carries index := marker.mem_descriptors
      rw [ElementValue.descriptors, inside]
      exact ⟨.nested, fun | .nested inside => inside⟩
  | .list values =>
      have each : ∀ value ∈ values, index ∈ value.descriptors ↔ value.Carries index :=
        fun value _ => value.mem_descriptors
      rw [ElementValue.descriptors, ElementValue.mem_listDescriptors]
      constructor
      · rintro ⟨value, listed, member⟩
        exact .element listed ((each value listed).mp member)
      · rintro (_ | _ | _ | ⟨listed, inside⟩)
        exact ⟨_, listed, (each _ listed).mpr inside⟩

end

end ClassFile

namespace Surface

open ClassFile

variable {pool : ConstantPool} {isPrivate : Bool}

/-! ## Positions -/

def Spells (text name : String) : Prop :=
  name ≠ "" ∧ ∃ signature, Signature.parse text = .ok signature ∧ signature.Writes name

def SpelledAt (pool : ConstantPool) (index : Nat) (name : String) : Prop :=
  ∃ text, textAt pool index = .ok text ∧ Spells text name

def ClassUnder (pool : ConstantPool) (index : Nat) (name : String) : Prop :=
  name ≠ "" ∧ classAt pool index = .ok name

/-- The class constant that an instruction refers to: the class that it names or loads, or the owner
of the member that it accesses. -/
inductive RefersTo (pool : ConstantPool) : Instruction → Nat → Prop
  | named {index : Nat} : RefersTo pool (.namesClass index) index
  | fieldOwner {index classIndex nameAndType : Nat}
      (member : pool.constant index = .ok (.fieldRef classIndex nameAndType)) :
      RefersTo pool (.usesMember index) classIndex
  | methodOwner {index classIndex nameAndType : Nat}
      (member : pool.constant index = .ok (.methodRef classIndex nameAndType)) :
      RefersTo pool (.usesMember index) classIndex
  | interfaceMethodOwner {index classIndex nameAndType : Nat}
      (member : pool.constant index = .ok (.interfaceMethodRef classIndex nameAndType)) :
      RefersTo pool (.usesMember index) classIndex
  | loaded {index nameIndex : Nat} (there : pool.constant index = .ok (.classInfo nameIndex)) :
      RefersTo pool (.loadsConstant index) index

inductive Uses (pool : ConstantPool) (instruction : Instruction) : String → Prop
  | itself {index : Nat} {name : String} (refers : RefersTo pool instruction index)
      (there : ClassUnder pool index name) (plain : name.toList.head? ≠ some '[') :
      Uses pool instruction name
  | element {index : Nat} {descriptor name : String} (refers : RefersTo pool instruction index)
      (there : classAt pool index = .ok descriptor) (isArray : descriptor.toList.head? = some '[')
      (inside : Spells descriptor name) : Uses pool instruction name

inductive Holds (pool : ConstantPool) : Bool → Attribute → Mention → Prop
  | signature {isPrivate : Bool} {textIndex : Nat} {name : String}
      (inside : SpelledAt pool textIndex name) :
      Holds pool isPrivate (.signature textIndex) ⟨name, isPrivate⟩
  | exception {isPrivate : Bool} {indices : List Nat} {index : Nat} {name : String}
      (member : index ∈ indices) (there : ClassUnder pool index name) :
      Holds pool isPrivate (.exceptions indices) ⟨name, isPrivate⟩
  | marker {isPrivate : Bool} {markers : List Annotation} {marker : Annotation} {index : Nat}
      {name : String} (member : marker ∈ markers) (carries : marker.Carries index)
      (inside : SpelledAt pool index name) :
      Holds pool isPrivate (.annotations markers) ⟨name, isPrivate⟩
  | instruction {isPrivate : Bool} {instructions : List Instruction} {parts : List Attribute}
      {instruction : Instruction} {name : String} (member : instruction ∈ instructions)
      (uses : Uses pool instruction name) :
      Holds pool isPrivate (.code instructions parts) ⟨name, true⟩
  | inCode {isPrivate : Bool} {instructions : List Instruction} {parts : List Attribute}
      {part : Attribute} {found : Mention} (member : part ∈ parts) (inside : Holds pool true part found) :
      Holds pool isPrivate (.code instructions parts) found

/-- The last of the lines on the class itself in its tables of nested classes says that it is
private. -/
def DeclaredPrivate (unit : ClassFile) : Prop :=
  ∃ before line after name,
    unit.attributes.flatMap innerClassEntries = before ++ line :: after ∧
      classAt unit.pool unit.thisIndex = .ok name ∧
      classAt unit.pool line.classIndex = .ok name ∧ ClassFile.isPrivate line.accessFlags ∧
      ∀ later ∈ after, classAt unit.pool later.classIndex ≠ .ok name

/-- What stands at some position of a class file, with the visibility of the position. -/
inductive Occurs (unit : ClassFile) : Mention → Prop
  | superclass {name : String} {isPrivate : Bool} (visibility : isPrivate ↔ DeclaredPrivate unit)
      (inherits : unit.superIndex ≠ 0) (there : ClassUnder unit.pool unit.superIndex name) :
      Occurs unit ⟨name, isPrivate⟩
  | interface {name : String} {isPrivate : Bool} {index : Nat}
      (visibility : isPrivate ↔ DeclaredPrivate unit) (member : index ∈ unit.interfaceIndices)
      (there : ClassUnder unit.pool index name) : Occurs unit ⟨name, isPrivate⟩
  | classAttribute {found : Mention} {isPrivate : Bool} {part : Attribute}
      (visibility : isPrivate ↔ DeclaredPrivate unit) (member : part ∈ unit.attributes)
      (inside : Holds unit.pool isPrivate part found) : Occurs unit found
  | fieldType {field : Field} {name : String} (member : field ∈ unit.fields)
      (writes : field.type.Writes name) (nonempty : name ≠ "") :
      Occurs unit ⟨name, ClassFile.isPrivate field.accessFlags⟩
  | fieldAttribute {field : Field} {part : Attribute} {found : Mention}
      (member : field ∈ unit.fields) (listed : part ∈ field.attributes)
      (inside : Holds unit.pool (ClassFile.isPrivate field.accessFlags) part found) :
      Occurs unit found
  | methodType {method : Method} {descriptor name : String} {type : MethodType} {part : FieldType}
      (member : method ∈ unit.methods)
      (there : textAt unit.pool method.descriptorIndex = .ok descriptor)
      (reads : MethodType.ofDescriptor descriptor = .ok type)
      (listed : part ∈ type.parameters ∨ type.returns = some part) (writes : part.Writes name)
      (nonempty : name ≠ "") : Occurs unit ⟨name, ClassFile.isPrivate method.accessFlags⟩
  | methodAttribute {method : Method} {part : Attribute} {found : Mention}
      (member : method ∈ unit.methods) (listed : part ∈ method.attributes)
      (inside : Holds unit.pool (ClassFile.isPrivate method.accessFlags) part found) :
      Occurs unit found

/-! ## What one part mentions -/

def Lists (mentions : Except UnitFault (List Mention)) (stands : Mention → Prop) : Prop :=
  ∀ found, mentions = .ok found → ∀ mention, mention ∈ found ↔ stands mention

theorem Lists.congr {mentions : Except UnitFault (List Mention)} {stands others : Mention → Prop}
    (lists : Lists mentions stands) (same : ∀ mention, stands mention ↔ others mention) :
    Lists mentions others :=
  fun found succeeds mention => (lists found succeeds mention).trans (same mention)

theorem lists_collect {α : Type} {mentions : α → Except UnitFault (List Mention)}
    {stands : α → Mention → Prop} {parts : List α}
    (each : ∀ part ∈ parts, Lists (mentions part) (stands part)) :
    Lists (collect mentions parts) fun mention => ∃ part ∈ parts, stands part mention := by
  induction parts with
  | nil =>
      intro found collected mention
      rw [collect_nil] at collected
      obtain rfl := Except.ok.inj collected
      simp
  | cons part parts ih =>
      intro found collected mention
      rw [List.forall_mem_cons] at each
      obtain ⟨first, others, here, later, rfl⟩ := collect_cons_eq_ok.mp collected
      rw [List.mem_append, each.1 first here, ih each.2 others later]
      simp only [List.mem_cons, exists_eq_or_imp]

theorem mem_mention {name : String} {found : Mention} :
    found ∈ mention isPrivate name ↔
      found.isPrivate = isPrivate ∧ found.name = name ∧ name ≠ "" := by
  obtain ⟨foundName, visibility⟩ := found
  unfold mention
  split
  next empty => simp [empty]
  next nonempty => simp [nonempty, and_comm]

theorem mem_flatMap_mention {names : List String} {found : Mention} :
    found ∈ names.flatMap (mention isPrivate) ↔
      found.isPrivate = isPrivate ∧ found.name ≠ "" ∧ found.name ∈ names := by
  simp only [List.mem_flatMap, mem_mention]
  constructor
  · rintro ⟨name, listed, visibility, rfl, nonempty⟩
    exact ⟨visibility, nonempty, listed⟩
  · rintro ⟨visibility, nonempty, listed⟩
    exact ⟨found.name, listed, visibility, rfl, nonempty⟩

theorem lists_signature (text : String) :
    Lists (signatureMentions isPrivate text) fun found =>
      found.isPrivate = isPrivate ∧ Spells text found.name := by
  intro found succeeds mention
  unfold signatureMentions at succeeds
  split at succeeds
  next signature parses =>
    obtain rfl := Except.ok.inj succeeds
    rw [mem_flatMap_mention, Signature.mem_classTypes]
    constructor
    · rintro ⟨visibility, nonempty, writes⟩
      exact ⟨visibility, nonempty, signature, parses, writes⟩
    · rintro ⟨visibility, nonempty, other, parsesOther, writes⟩
      obtain rfl := Except.ok.inj (parses.symm.trans parsesOther)
      exact ⟨visibility, nonempty, writes⟩
  next => cases succeeds

theorem lists_descriptor (index : Nat) :
    Lists (descriptorMentions pool isPrivate index) fun found =>
      found.isPrivate = isPrivate ∧ SpelledAt pool index found.name := by
  intro found succeeds mention
  obtain ⟨text, there, rest⟩ := bind_eq_ok.mp succeeds
  rw [lists_signature text found rest]
  refine and_congr_right fun _ => ⟨fun spells => ⟨text, there, spells⟩, ?_⟩
  rintro ⟨other, thereOther, spells⟩
  obtain rfl := Except.ok.inj (there.symm.trans thereOther)
  exact spells

theorem lists_class (index : Nat) :
    Lists (mention isPrivate <$> classAt pool index) fun found =>
      found.isPrivate = isPrivate ∧ ClassUnder pool index found.name := by
  intro found succeeds mention
  obtain ⟨name, there, rfl⟩ := map_eq_ok.mp succeeds
  rw [mem_mention]
  refine and_congr_right fun _ => ?_
  constructor
  · rintro ⟨rfl, nonempty⟩
    exact ⟨nonempty, there⟩
  · rintro ⟨nonempty, thereOther⟩
    obtain same := Except.ok.inj (there.symm.trans thereOther)
    exact ⟨same.symm, same ▸ nonempty⟩

theorem mem_typeMentions {type : FieldType} {found : Mention} :
    found ∈ typeMentions isPrivate type ↔
      found.isPrivate = isPrivate ∧ found.name ≠ "" ∧ type.Writes found.name := by
  rw [typeMentions, mem_flatMap_mention, Option.mem_toList, FieldType.className?_eq_some]

/-! ## Code -/

theorem classOfInstruction_eq_some {instruction : Instruction} {name : String} :
    classOfInstruction? pool instruction = .ok (some name) ↔
      ∃ index, RefersTo pool instruction index ∧ classAt pool index = .ok name := by
  constructor
  · intro looks
    cases instruction with
    | namesClass index =>
        obtain ⟨found, there, same⟩ := map_eq_ok.mp looks
        obtain rfl := Option.some.inj same
        exact ⟨index, .named, there⟩
    | usesMember index =>
        obtain ⟨constant, looksUp, rest⟩ := bind_eq_ok.mp looks
        rw [mapError_eq_ok] at looksUp
        have owner : ∀ {classIndex}, some <$> classAt pool classIndex = .ok (some name) →
            classAt pool classIndex = .ok name := by
          intro classIndex found
          obtain ⟨other, there, same⟩ := map_eq_ok.mp found
          obtain rfl := Option.some.inj same
          exact there
        split at rest
        · exact ⟨_, .fieldOwner looksUp, owner rest⟩
        · exact ⟨_, .methodOwner looksUp, owner rest⟩
        · exact ⟨_, .interfaceMethodOwner looksUp, owner rest⟩
        · cases rest
    | loadsConstant index =>
        obtain ⟨constant, looksUp, rest⟩ := bind_eq_ok.mp looks
        rw [mapError_eq_ok] at looksUp
        split at rest
        · obtain ⟨found, there, same⟩ := map_eq_ok.mp rest
          obtain rfl := Option.some.inj same
          exact ⟨index, .loaded looksUp, there⟩
        · cases rest
    | plain | branches _ | branchesFar _ => cases looks
  · rintro ⟨index, refers, there⟩
    cases refers with
    | named => exact map_eq_ok.mpr ⟨name, there, rfl⟩
    | fieldOwner member | methodOwner member | interfaceMethodOwner member =>
        exact bind_eq_ok.mpr
          ⟨_, mapError_eq_ok.mpr member, map_eq_ok.mpr ⟨name, there, rfl⟩⟩
    | loaded found =>
        exact bind_eq_ok.mpr ⟨_, mapError_eq_ok.mpr found, map_eq_ok.mpr ⟨name, there, rfl⟩⟩

theorem lists_classConstant (text : String) :
    Lists (classConstantMentions text) fun found => found.isPrivate ∧
      (if text.toList.head? = some '[' then Spells text found.name
        else found.name = text ∧ text ≠ "") := by
  intro found succeeds mention
  unfold classConstantMentions at succeeds
  split at succeeds
  next isArray =>
    simp only [isArray, if_true]
    exact lists_signature text found succeeds mention
  next plain =>
    obtain rfl := Except.ok.inj succeeds
    simp only [plain, if_false]
    exact mem_mention

theorem lists_instruction (instruction : Instruction) :
    Lists (instructionMentions pool instruction) fun found =>
      found.isPrivate ∧ Uses pool instruction found.name := by
  intro found succeeds mention
  obtain ⟨text?, looks, rest⟩ := bind_eq_ok.mp succeeds
  cases text? with
  | none =>
      obtain rfl := Except.ok.inj rest
      refine ⟨fun member => absurd member List.not_mem_nil, ?_⟩
      have never : ∀ {index text}, RefersTo pool instruction index →
          classAt pool index ≠ .ok text := by
        intro index text refers there
        have finds := classOfInstruction_eq_some.mpr ⟨index, refers, there⟩
        rw [looks] at finds
        cases finds
      rintro ⟨-, (⟨refers, there, -⟩ | ⟨refers, there, -, -⟩)⟩
      · exact absurd there.2 (never refers)
      · exact absurd there (never refers)
  | some text =>
      rw [lists_classConstant text found rest]
      refine and_congr_right fun _ => ?_
      have only : ∀ {index other}, RefersTo pool instruction index →
          classAt pool index = .ok other → other = text := by
        intro index other refers there
        have finds := classOfInstruction_eq_some.mpr ⟨index, refers, there⟩
        rw [looks] at finds
        exact (Option.some.inj (Except.ok.inj finds)).symm
      constructor
      · intro isSo
        obtain ⟨index, refers, there⟩ := classOfInstruction_eq_some.mp looks
        split at isSo
        next isArray => exact .element refers there isArray isSo
        next plain =>
          obtain ⟨rfl, nonempty⟩ := isSo
          exact .itself refers ⟨nonempty, there⟩ plain
      · rintro (⟨refers, there, plain⟩ | ⟨refers, there, isArray, inside⟩)
        · obtain rfl := only refers there.2
          rw [if_neg plain]
          exact ⟨rfl, there.1⟩
        · obtain rfl := only refers there
          rw [if_pos isArray]
          exact inside

/-! ## Attributes -/

theorem lists_attribute (part : Attribute) (isPrivate : Bool) :
    Lists (attributeMentions pool isPrivate part) (Holds pool isPrivate part) := by
  cases part with
  | signature textIndex =>
      rw [attributeMentions]
      refine (lists_descriptor textIndex).congr fun mention => ?_
      constructor
      · rintro ⟨visibility, inside⟩
        exact visibility ▸ .signature inside
      · rintro (inside | _)
        exact ⟨rfl, inside⟩
  | exceptions indices =>
      rw [attributeMentions]
      refine (lists_collect fun index _ => lists_class index).congr fun mention => ?_
      constructor
      · rintro ⟨index, member, visibility, there⟩
        exact visibility ▸ .exception member there
      · rintro (_ | ⟨member, there⟩)
        exact ⟨_, member, rfl, there⟩
  | annotations markers =>
      rw [attributeMentions, funext annotationMentions_eq, ← collect_flatMap]
      refine (lists_collect fun index _ => lists_descriptor index).congr fun mention => ?_
      simp only [List.mem_flatMap, Annotation.mem_descriptors]
      constructor
      · rintro ⟨index, ⟨marker, member, carries⟩, visibility, inside⟩
        exact visibility ▸ .marker member carries inside
      · rintro (_ | _ | ⟨member, carries, inside⟩)
        exact ⟨_, ⟨_, member, carries⟩, rfl, inside⟩
  | code instructions parts =>
      have inside : ∀ inner ∈ parts,
          Lists (attributeMentions pool true inner) (Holds pool true inner) :=
        fun inner _ => lists_attribute inner true
      intro found succeeds mention
      rw [attributeMentions, attributesMentions_eq] at succeeds
      obtain ⟨used, uses, rest⟩ := bind_eq_ok.mp succeeds
      obtain ⟨others, collected, same⟩ := bind_eq_ok.mp rest
      obtain rfl := Except.ok.inj same
      have code := lists_collect (fun instruction _ => lists_instruction instruction) used uses mention
      have nested := lists_collect inside others collected mention
      rw [List.mem_append, code, nested]
      constructor
      · rintro (⟨instruction, member, visibility, uses⟩ | ⟨inner, member, holds⟩)
        · obtain ⟨name, visible⟩ := mention
          obtain rfl : visible = true := visibility
          exact .instruction member uses
        · exact .inCode member holds
      · rintro (_ | _ | _ | ⟨member, uses⟩ | ⟨member, holds⟩)
        · exact .inl ⟨_, member, rfl, uses⟩
        · exact .inr ⟨_, member, holds⟩
  | sourceFile _ | innerClasses _ | places _ | other =>
      intro found succeeds mention
      rw [attributeMentions] at succeeds
      obtain rfl := Except.ok.inj succeeds
      constructor
      · exact fun member => absurd member List.not_mem_nil
      · intro holds
        cases holds

theorem lists_attributes (parts : List Attribute) :
    Lists (attributesMentions pool isPrivate parts) fun mention =>
      ∃ part ∈ parts, Holds pool isPrivate part mention := by
  rw [attributesMentions_eq]
  exact lists_collect fun part _ => lists_attribute part isPrivate

/-! ## Visibility -/

theorem forall₂_append_cons {α β : Type} {related : α → β → Prop} {before after : List α} {value : α}
    {others : List β} (each : List.Forall₂ related (before ++ value :: after) others) :
    ∃ otherBefore other otherAfter, others = otherBefore ++ other :: otherAfter ∧
      related value other ∧ List.Forall₂ related after otherAfter := by
  induction before generalizing others with
  | nil =>
      obtain - | ⟨here, later⟩ := each
      exact ⟨[], _, _, rfl, here, later⟩
  | cons first before ih =>
      obtain - | ⟨-, later⟩ := each
      obtain ⟨otherBefore, other, otherAfter, rfl, here, rest⟩ := ih later
      exact ⟨_ :: otherBefore, other, otherAfter, rfl, here, rest⟩

theorem marksPrivate_iff {table : List NestedClass} {name : String} :
    NestedClass.marksPrivate table name ↔ ∃ before line after, table = before ++ line :: after ∧
      line.name = name ∧ line.isPrivate ∧ ∀ later ∈ after, later.name ≠ name := by
  rw [NestedClass.marksPrivate]
  constructor
  · intro isPrivate
    split at isPrivate
    next line last =>
      obtain ⟨earlier, ends⟩ := List.getLast?_eq_some_iff.mp last
      obtain ⟨before, rest, rfl, -, only⟩ := List.filter_eq_append_iff.mp ends
      obtain ⟨between, after, rfl, -, named, none⟩ := List.filter_eq_cons_iff.mp only
      refine ⟨before ++ between, line, after, by simp, by simpa using named, isPrivate, ?_⟩
      simpa using none
    next => cases isPrivate
  · rintro ⟨before, line, after, rfl, named, isPrivate, others⟩
    have none : after.filter (·.name = name) = [] := by simpa using others
    have last : ((before ++ line :: after).filter (·.name = name)).getLast? = some line := by
      rw [List.filter_append, List.filter_cons_of_pos (by simpa using named), none]
      simp
    rw [last]
    exact isPrivate

theorem nestedClassOf_eq_ok {line : InnerClass} {nested : NestedClass}
    (reads : nestedClassOf pool line = .ok nested) :
    classAt pool line.classIndex = .ok nested.name ∧
      nested.isPrivate = ClassFile.isPrivate line.accessFlags := by
  obtain ⟨name, named, rest⟩ := bind_eq_ok.mp reads
  obtain ⟨owner, -, same⟩ := ite_bind_eq_ok.mp rest
  obtain rfl := Except.ok.inj same
  exact ⟨named, rfl⟩

theorem Reveals.marksPrivate {unit : ClassFile} {name : String} {table : List NestedClass}
    {mentions : List Mention} (reveals : Reveals unit name table mentions) :
    NestedClass.marksPrivate table name ↔ DeclaredPrivate unit := by
  have lines := mapM_eq_ok.mp reveals.lists
  rw [marksPrivate_iff]
  constructor
  · rintro ⟨before, nested, after, rfl, named, isPrivate, others⟩
    obtain ⟨lineBefore, line, lineAfter, same, reads, rest⟩ := forall₂_append_cons lines.flip
    obtain ⟨there, visibility⟩ := nestedClassOf_eq_ok reads
    refine ⟨lineBefore, line, lineAfter, name, same, reveals.isNamed, named ▸ there,
      visibility ▸ isPrivate, ?_⟩
    intro later member there
    obtain ⟨other, listed, reads⟩ := exists_of_mem_values (mapM_eq_ok.mpr rest.flip) member
    have found := (nestedClassOf_eq_ok reads).1
    exact others other listed (Except.ok.inj (found.symm.trans there))
  · rintro ⟨lineBefore, line, lineAfter, own, same, isNamed, there, isPrivate, others⟩
    obtain rfl := Except.ok.inj (reveals.isNamed.symm.trans isNamed)
    rw [same] at lines
    obtain ⟨before, nested, after, rfl, reads, rest⟩ := forall₂_append_cons lines
    obtain ⟨found, visibility⟩ := nestedClassOf_eq_ok reads
    refine ⟨before, nested, after, rfl, Except.ok.inj (found.symm.trans there),
      visibility ▸ isPrivate, ?_⟩
    intro later member named
    obtain ⟨other, listed, reads⟩ := exists_of_mem_results (mapM_eq_ok.mpr rest) member
    exact others other listed (named ▸ (nestedClassOf_eq_ok reads).1)

/-! ## Members -/

theorem lists_field (field : Field) :
    Lists (fieldMentions pool field) fun found =>
      (found.isPrivate = ClassFile.isPrivate field.accessFlags ∧ found.name ≠ "" ∧
          field.type.Writes found.name) ∨
        ∃ part ∈ field.attributes,
          Holds pool (ClassFile.isPrivate field.accessFlags) part found := by
  intro found succeeds mention
  obtain ⟨parts, collected, same⟩ := bind_eq_ok.mp succeeds
  obtain rfl := Except.ok.inj same
  rw [List.mem_append, mem_typeMentions, lists_attributes field.attributes parts collected]

theorem methodTypeOf_eq_ok {method : Method} {type : MethodType} :
    methodTypeOf pool method = .ok type ↔ ∃ descriptor,
      textAt pool method.descriptorIndex = .ok descriptor ∧
        MethodType.ofDescriptor descriptor = .ok type := by
  rw [methodTypeOf, bind_eq_ok]
  simp only [mapError_eq_ok]

theorem lists_method (method : Method) :
    Lists (methodMentions pool method) fun found =>
      (found.isPrivate = ClassFile.isPrivate method.accessFlags ∧ found.name ≠ "" ∧
          ∃ type part, methodTypeOf pool method = .ok type ∧
            (part ∈ type.parameters ∨ type.returns = some part) ∧ part.Writes found.name) ∨
        ∃ part ∈ method.attributes,
          Holds pool (ClassFile.isPrivate method.accessFlags) part found := by
  intro found succeeds mention
  obtain ⟨type, typed, rest⟩ := bind_eq_ok.mp succeeds
  obtain ⟨parts, collected, same⟩ := bind_eq_ok.mp rest
  obtain rfl := Except.ok.inj same
  rw [List.mem_append, lists_attributes method.attributes parts collected]
  refine or_congr_left ?_
  simp only [List.mem_flatMap, mem_typeMentions, List.mem_append, Option.mem_toList]
  constructor
  · rintro ⟨part, listed, visibility, nonempty, writes⟩
    exact ⟨visibility, nonempty, type, part, typed, listed, writes⟩
  · rintro ⟨visibility, nonempty, other, part, typedOther, listed, writes⟩
    obtain rfl := Except.ok.inj (typed.symm.trans typedOther)
    exact ⟨part, listed, visibility, nonempty, writes⟩

theorem lists_superclass (unit : ClassFile) :
    Lists (if unit.superIndex = 0 then pure []
        else mention isPrivate <$> classAt unit.pool unit.superIndex) fun found =>
      unit.superIndex ≠ 0 ∧ found.isPrivate = isPrivate ∧
        ClassUnder unit.pool unit.superIndex found.name := by
  intro found succeeds mention
  split at succeeds
  next none =>
    obtain rfl := Except.ok.inj succeeds
    exact ⟨fun member => absurd member List.not_mem_nil, fun stands => absurd none stands.1⟩
  next inherits =>
    rw [lists_class unit.superIndex found succeeds]
    exact ⟨fun stands => ⟨inherits, stands⟩, And.right⟩

theorem Reveals.mem_mentions {unit : ClassFile} {name : String} {table : List NestedClass}
    {mentions : List Mention} (reveals : Reveals unit name table mentions) {found : Mention} :
    found ∈ mentions ↔ Occurs unit found := by
  obtain ⟨superclass, interfaces, parts, fields, methods, inherits, implements, described, stores,
    calls, rfl⟩ := exists_of_classMentions reveals.mentions
  have own := reveals.marksPrivate
  have other : ∀ {isPrivate : Bool}, (isPrivate ↔ DeclaredPrivate unit) →
      NestedClass.marksPrivate table name = isPrivate := by
    intro isPrivate visibility
    rw [Bool.eq_iff_iff, own, visibility]
  simp only [List.mem_append, lists_superclass unit superclass inherits,
    lists_collect (fun index _ => lists_class index) interfaces implements,
    lists_attributes unit.attributes parts described,
    lists_collect (fun field _ => lists_field field) fields stores,
    lists_collect (fun method _ => lists_method method) methods calls]
  obtain ⟨mentioned, visible⟩ := found
  constructor
  · rintro ((((stands | stands) | stands) | stands) | stands)
    · obtain ⟨inherits, visibility, there⟩ := stands
      obtain rfl : visible = _ := visibility
      exact .superclass own inherits there
    · obtain ⟨index, member, visibility, there⟩ := stands
      obtain rfl : visible = _ := visibility
      exact .interface own member there
    · obtain ⟨part, member, inside⟩ := stands
      exact .classAttribute own member inside
    · obtain ⟨field, member, ⟨visibility, nonempty, writes⟩ | ⟨part, listed, inside⟩⟩ := stands
      · obtain rfl : visible = _ := visibility
        exact .fieldType member writes nonempty
      · exact .fieldAttribute member listed inside
    · obtain ⟨method, member, stands | ⟨part, listed, inside⟩⟩ := stands
      · obtain ⟨visibility, nonempty, type, part, typed, listed, writes⟩ := stands
        obtain ⟨descriptor, there, reads⟩ := methodTypeOf_eq_ok.mp typed
        obtain rfl : visible = _ := visibility
        exact .methodType member there reads listed writes nonempty
      · exact .methodAttribute member listed inside
  · intro occurs
    cases occurs with
    | superclass visibility inherits there =>
        exact .inl (.inl (.inl (.inl ⟨inherits, (other visibility).symm, there⟩)))
    | interface visibility member there =>
        exact .inl (.inl (.inl (.inr ⟨_, member, (other visibility).symm, there⟩)))
    | classAttribute visibility member inside =>
        obtain rfl := other visibility
        exact .inl (.inl (.inr ⟨_, member, inside⟩))
    | fieldType member writes nonempty =>
        exact .inl (.inr ⟨_, member, .inl ⟨rfl, nonempty, writes⟩⟩)
    | fieldAttribute member listed inside =>
        exact .inl (.inr ⟨_, member, .inr ⟨_, listed, inside⟩⟩)
    | methodType member there reads listed writes nonempty =>
        have typed := methodTypeOf_eq_ok.mpr ⟨_, there, reads⟩
        exact .inr ⟨_, member, .inl ⟨rfl, nonempty, _, _, typed, listed, writes⟩⟩
    | methodAttribute member listed inside => exact .inr ⟨_, member, .inr ⟨_, listed, inside⟩⟩

/-- A unit that can be read adds exactly what stands at its positions, each with the visibility of
its position, and is private itself if the last line on it says so.  Which opcodes refer to classes,
members and constants, and which attributes describe types, is told by how they are encoded. -/
theorem unit_mentions_its_occurrences {unit : ClassFile} {name : String} {table : List NestedClass}
    {mentions : List Mention} (reveals : Reveals unit name table mentions) :
    (NestedClass.marksPrivate table name ↔ DeclaredPrivate unit) ∧
      (∀ found, found ∈ mentions ↔ Occurs unit found) ∧
      (∀ files directory root path gathered waiting next,
        gather files directory root ⟨path, unit⟩ gathered = .ok (waiting, next) →
          ∀ found, found ∈ next.mentions ↔ found ∈ gathered.mentions ∨ Occurs unit found) ∧
      (∀ cursor instruction next, Decoder.instruction cursor = .ok (instruction, next) →
        ∃ opcode operands, cursor.rest = opcode :: operands ∧
          instruction.Encoded opcode.toNat operands) ∧
      ∀ pool count cursor part next, Decoder.attributeWithin pool count cursor = .ok (part, next) →
        ∃ title, pool.text (Bytes.toNatBE (cursor.rest.take 2)) = .ok title ∧ part.Named title := by
  refine ⟨reveals.marksPrivate, fun found => reveals.mem_mentions, ?_,
    fun _ _ _ => Decoder.encoded_of_instruction, fun _ _ _ _ _ => Decoder.named_of_attribute⟩
  intro files directory root path gathered waiting next advances found
  obtain ⟨_, _, _, _, revealsAgain, -, -, rfl⟩ := gather_eq_ok.mp advances
  rw [List.mem_append, revealsAgain.mem_mentions]

section Keepers

/-- A private nested class that extends `Top` and holds an array of `Held`.  Its method returns a
`Shown`, is marked by annotations inside annotations, and makes an array of arrays of `Part`. -/
def keeper : ClassFile where
  pool := ⟨#[none, some (.utf8 "A$N"), some (.classInfo 1), some (.utf8 "A"), some (.classInfo 3),
    some (.utf8 "Top"), some (.classInfo 5), some (.utf8 "LMark;"), some (.utf8 "LKind;"),
    some (.utf8 "[[LPart;"), some (.classInfo 9), some (.utf8 "([I)LShown;"),
    some (.methodRef 4 0)]⟩
  thisIndex := 2
  superIndex := 6
  interfaceIndices := []
  fields := [⟨0, .array (.object "Held"), []⟩]
  methods := [⟨1, 11, [.annotations [.of 7 [.list [.nested (.of 7 [.enumeration 8])]]],
    .code [.namesClass 10, .usesMember 12] [.annotations [.of 8 []]]]⟩]
  attributes := [.innerClasses [⟨2, 4, 0⟩, ⟨2, 4, 2⟩]]

def keeperMentions : List Mention :=
  [⟨"Top", true⟩, ⟨"Held", false⟩, ⟨"Shown", false⟩, ⟨"Mark", false⟩, ⟨"Mark", false⟩,
    ⟨"Kind", false⟩, ⟨"Part", true⟩, ⟨"A", true⟩, ⟨"Kind", true⟩]

private theorem keeper_reveals :
    Reveals keeper "A$N" [⟨"A$N", some "A", false⟩, ⟨"A$N", some "A", true⟩] keeperMentions :=
  ⟨by decide +kernel, by decide +kernel, by decide +kernel⟩

/-- The enumeration in the annotations is public outside the code and private in it. -/
theorem unit_mentions_its_occurrences_of_keeper :
    Reveals keeper "A$N" [⟨"A$N", some "A", false⟩, ⟨"A$N", some "A", true⟩] keeperMentions ∧
      DeclaredPrivate keeper ∧ (∀ found, found ∈ keeperMentions ↔ Occurs keeper found) ∧
      Occurs keeper ⟨"Kind", false⟩ ∧ Occurs keeper ⟨"Kind", true⟩ ∧
      ¬Occurs keeper ⟨"Top", false⟩ := by
  obtain ⟨isPrivate, mentions, -⟩ := unit_mentions_its_occurrences keeper_reveals
  refine ⟨keeper_reveals, isPrivate.mp (by decide +kernel), mentions, ?_, ?_, ?_⟩
  · rw [← mentions]
    decide
  · rw [← mentions]
    decide
  · rw [← mentions]
    decide

end Keepers

end Surface

end AbiBuild
