import AbiBuild.Proofs.Collections
import AbiBuild.Proofs.Surface.Gathering

/-!
# Outlines

The outline of a class is what is left of it without code and without private members, with every
constant looked up.  What a class mentions publicly is what its outline mentions publicly.
-/

namespace AbiBuild

namespace ClassFile

mutual

def Annotation.descriptors : Annotation → List Nat
  | .of typeIndex values => typeIndex :: ElementValue.listDescriptors values

def ElementValue.descriptors : ElementValue → List Nat
  | .constant => []
  | .enumeration typeIndex => [typeIndex]
  | .classLiteral descriptorIndex => [descriptorIndex]
  | .nested marker => marker.descriptors
  | .list values => ElementValue.listDescriptors values

def ElementValue.listDescriptors : List ElementValue → List Nat
  | [] => []
  | value :: others => value.descriptors ++ ElementValue.listDescriptors others

end

end ClassFile

namespace Surface

open ClassFile

variable {pool : ConstantPool} {isPrivate : Bool}

/-! ## Collecting -/

section Collecting

variable {α : Type} {mentions : α → Except UnitFault (List Mention)}

theorem collect_nil : collect mentions [] = .ok [] := by
  rw [collect, List.flatMapM_nil]
  rfl

theorem collect_cons (part : α) (parts : List α) :
    collect mentions (part :: parts) = (do
      let first ← mentions part
      let others ← collect mentions parts
      pure (first ++ others)) := by
  rw [collect, List.flatMapM_cons]
  rfl

theorem collect_cons_eq_ok {part : α} {parts : List α} {found : List Mention} :
    collect mentions (part :: parts) = .ok found ↔ ∃ first others,
      mentions part = .ok first ∧ collect mentions parts = .ok others ∧ found = first ++ others := by
  rw [collect_cons]
  simp only [bind_eq_ok]
  constructor
  · rintro ⟨first, here, others, later, same⟩
    exact ⟨first, others, here, later, (Except.ok.inj same).symm⟩
  · rintro ⟨first, others, here, later, rfl⟩
    exact ⟨first, here, others, later, rfl⟩

theorem collect_append (parts others : List α) :
    collect mentions (parts ++ others) = (do
      let first ← collect mentions parts
      let second ← collect mentions others
      pure (first ++ second)) := by
  induction parts with
  | nil =>
      rw [List.nil_append, collect_nil]
      cases collect mentions others <;> rfl
  | cons part parts ih =>
      rw [List.cons_append, collect_cons, collect_cons, ih]
      cases mentions part <;> cases collect mentions parts <;> cases collect mentions others <;>
        simp [bind, Except.bind, pure, Except.pure]

theorem forall_mem_collect {parts : List α} {found : List Mention} {holds : Mention → Prop}
    (each : ∀ part ∈ parts, ∀ first, mentions part = .ok first → ∀ mention ∈ first, holds mention)
    (collected : collect mentions parts = .ok found) : ∀ mention ∈ found, holds mention := by
  induction parts generalizing found with
  | nil =>
      rw [collect_nil] at collected
      obtain rfl := Except.ok.inj collected
      simp
  | cons part parts ih =>
      obtain ⟨first, others, here, later, rfl⟩ := collect_cons_eq_ok.mp collected
      rw [List.forall_mem_cons] at each
      rw [List.forall_mem_append]
      exact ⟨each.1 first here, ih each.2 later⟩

theorem collect_flatMap {β : Type} (inner : β → List α) (parts : List β) :
    collect mentions (parts.flatMap inner) = collect (fun part => collect mentions (inner part)) parts := by
  induction parts with
  | nil => rw [List.flatMap_nil, collect_nil, collect_nil]
  | cons part parts ih => rw [List.flatMap_cons, collect_append, collect_cons, ih]

theorem collect_pure (names : List α) (list : α → List Mention) :
    collect (fun name => pure (list name)) names = .ok (names.flatMap list) := by
  induction names with
  | nil => exact collect_nil
  | cons name names ih =>
      rw [collect_cons, ih]
      rfl

end Collecting

theorem attributesMentions_eq (parts : List Attribute) :
    attributesMentions pool isPrivate parts = collect (attributeMentions pool isPrivate) parts := by
  induction parts with
  | nil => rw [attributesMentions, collect_nil]; rfl
  | cons part parts ih => rw [attributesMentions, collect_cons, ih]

mutual

theorem annotationMentions_eq (marker : Annotation) :
    annotationMentions pool isPrivate marker =
      collect (descriptorMentions pool isPrivate) marker.descriptors := by
  cases marker with
  | of typeIndex values =>
      rw [annotationMentions, Annotation.descriptors, collect_cons, valuesMentions_eq values]

theorem valueMentions_eq (value : ElementValue) :
    valueMentions pool isPrivate value =
      collect (descriptorMentions pool isPrivate) value.descriptors := by
  have single : ∀ index, descriptorMentions pool isPrivate index =
      collect (descriptorMentions pool isPrivate) [index] := by
    intro index
    rw [collect_cons, collect_nil]
    cases descriptorMentions pool isPrivate index <;> simp [bind, Except.bind, pure, Except.pure]
  cases value with
  | constant => rw [valueMentions, ElementValue.descriptors, collect_nil]; rfl
  | enumeration typeIndex => rw [valueMentions, ElementValue.descriptors, ← single]
  | classLiteral descriptorIndex => rw [valueMentions, ElementValue.descriptors, ← single]
  | nested marker =>
      rw [valueMentions, ElementValue.descriptors, annotationMentions_eq marker]
  | list values => rw [valueMentions, ElementValue.descriptors, valuesMentions_eq values]

theorem valuesMentions_eq (values : List ElementValue) :
    valuesMentions pool isPrivate values =
      collect (descriptorMentions pool isPrivate) (ElementValue.listDescriptors values) := by
  cases values with
  | nil => rw [valuesMentions, ElementValue.listDescriptors, collect_nil]; rfl
  | cons value values =>
      rw [valuesMentions, ElementValue.listDescriptors, collect_append, valueMentions_eq value,
        valuesMentions_eq values]

end

/-! ## What stays outside -/

abbrev exposed (mentions : List Mention) : List Mention :=
  mentions.filter (·.isPrivate = false)

theorem exposed_eq_nil {mentions : List Mention}
    (hidden : ∀ mention ∈ mentions, mention.isPrivate) : exposed mentions = [] :=
  List.filter_eq_nil_iff.mpr fun mention member => by simp [hidden mention member]

theorem isPrivate_of_mem_mention {name : String} {found : Mention}
    (member : found ∈ mention isPrivate name) : found.isPrivate = isPrivate := by
  unfold mention at member
  split at member
  · simp at member
  · rw [List.mem_singleton.mp member]

theorem isPrivate_of_mem_flatMap {names : List String} {found : Mention}
    (member : found ∈ names.flatMap (mention isPrivate)) : found.isPrivate = isPrivate := by
  obtain ⟨name, -, member⟩ := List.mem_flatMap.mp member
  exact isPrivate_of_mem_mention member

theorem isPrivate_of_signatureMentions {text : String} {mentions : List Mention}
    (found : signatureMentions isPrivate text = .ok mentions) :
    ∀ mention ∈ mentions, mention.isPrivate = isPrivate := by
  unfold signatureMentions at found
  split at found
  next => 
    obtain rfl := Except.ok.inj found
    exact fun mention member => isPrivate_of_mem_flatMap member
  next => cases found

theorem isPrivate_of_descriptorMentions {index : Nat} {mentions : List Mention}
    (found : descriptorMentions pool isPrivate index = .ok mentions) :
    ∀ mention ∈ mentions, mention.isPrivate = isPrivate := by
  obtain ⟨text, -, rest⟩ := bind_eq_ok.mp found
  exact isPrivate_of_signatureMentions rest

theorem isPrivate_of_typeMentions {type : FieldType} {found : Mention}
    (member : found ∈ typeMentions isPrivate type) : found.isPrivate = isPrivate :=
  isPrivate_of_mem_flatMap member

theorem isPrivate_of_instructionMentions {instruction : Instruction} {mentions : List Mention}
    (found : instructionMentions pool instruction = .ok mentions) :
    ∀ mention ∈ mentions, mention.isPrivate := by
  obtain ⟨name?, -, rest⟩ := bind_eq_ok.mp found
  cases name? with
  | none =>
      obtain rfl := Except.ok.inj rest
      simp
  | some name =>
      simp only [classConstantMentions] at rest
      split at rest
      · exact isPrivate_of_signatureMentions rest
      · obtain rfl := Except.ok.inj rest
        exact fun mention member => isPrivate_of_mem_mention member

theorem isPrivate_of_attributeMentions (part : Attribute) {mentions : List Mention}
    (found : attributeMentions pool true part = .ok mentions) :
    ∀ mention ∈ mentions, mention.isPrivate := by
  match part with
  | .signature textIndex =>
      rw [attributeMentions] at found
      exact isPrivate_of_descriptorMentions found
  | .exceptions classIndices =>
      rw [attributeMentions] at found
      refine forall_mem_collect ?_ found
      intro index _ first named
      obtain ⟨name, -, rfl⟩ := map_eq_ok.mp named
      exact fun mention member => isPrivate_of_mem_mention member
  | .annotations annotations =>
      rw [attributeMentions] at found
      refine forall_mem_collect ?_ found
      intro marker _ first here
      rw [annotationMentions_eq] at here
      exact forall_mem_collect (fun _ _ _ found => isPrivate_of_descriptorMentions found) here
  | .code instructions parts =>
      rw [attributeMentions] at found
      obtain ⟨used, uses, rest⟩ := bind_eq_ok.mp found
      obtain ⟨others, collected, rest⟩ := bind_eq_ok.mp rest
      obtain rfl := Except.ok.inj rest
      rw [List.forall_mem_append]
      refine ⟨forall_mem_collect (fun _ _ _ found => isPrivate_of_instructionMentions found) uses, ?_⟩
      rw [attributesMentions_eq] at collected
      exact forall_mem_collect (fun part _ _ found => isPrivate_of_attributeMentions part found) collected
  | .sourceFile _ | .innerClasses _ | .places _ | .other =>
      rw [attributeMentions] at found
      obtain rfl := Except.ok.inj found
      simp

theorem isPrivate_of_attributesMentions {parts : List Attribute} {mentions : List Mention}
    (found : attributesMentions pool true parts = .ok mentions) :
    ∀ mention ∈ mentions, mention.isPrivate := by
  rw [attributesMentions_eq] at found
  exact forall_mem_collect (fun part _ _ => isPrivate_of_attributeMentions part) found

/-! ## Remarks -/

inductive Remark
  | silent
  | signature (text : String)
  | exceptions (classNames : List String)
  | annotations (descriptors : List String)
  deriving DecidableEq, Repr

def remarkOf (pool : ConstantPool) : Attribute → Except UnitFault Remark
  | .signature textIndex => .signature <$> textAt pool textIndex
  | .exceptions classIndices => .exceptions <$> classIndices.mapM (classAt pool)
  | .annotations annotations =>
    .annotations <$> (annotations.flatMap Annotation.descriptors).mapM (textAt pool)
  | .sourceFile _ | .innerClasses _ | .code _ _ | .places _ | .other => pure .silent

def Remark.mentions (isPrivate : Bool) : Remark → Except UnitFault (List Mention)
  | .silent => pure []
  | .signature text => signatureMentions isPrivate text
  | .exceptions classNames => pure (classNames.flatMap (mention isPrivate))
  | .annotations descriptors => collect (signatureMentions isPrivate) descriptors

/-- Where something is read, its outline can be read as well and mentions the same publicly. -/
def Shows {α : Type} (mentions : Except UnitFault (List Mention)) (look : Except UnitFault α)
    (shown : α → Except UnitFault (List Mention)) : Prop :=
  ∀ found, mentions = .ok found → ∃ part seen, look = .ok part ∧ shown part = .ok seen ∧
    exposed seen = exposed found

theorem shows_collect {α β : Type} {mentions : α → Except UnitFault (List Mention)}
    {look : α → Except UnitFault β} {shown : β → Except UnitFault (List Mention)} {keeps : α → Bool}
    {parts : List α}
    (kept : ∀ part ∈ parts, keeps part → Shows (mentions part) (look part) shown)
    (dropped : ∀ part ∈ parts, keeps part = false → ∀ found, mentions part = .ok found →
      exposed found = []) :
    Shows (collect mentions parts) ((parts.filter keeps).mapM look) (collect shown) := by
  induction parts with
  | nil =>
      intro found collected
      exact ⟨[], [], rfl, collect_nil, by rw [collect_nil] at collected; cases collected; rfl⟩
  | cons part parts ih =>
      intro found collected
      rw [List.forall_mem_cons] at kept dropped
      obtain ⟨first, others, here, later, rfl⟩ := collect_cons_eq_ok.mp collected
      obtain ⟨shownLater, seenLater, looks, sees, same⟩ := ih kept.2 dropped.2 others later
      rw [exposed, List.filter_append, ← exposed, ← exposed, ← same]
      by_cases keep : keeps part
      · obtain ⟨shownHere, seenHere, looksHere, seesHere, sameHere⟩ := kept.1 keep first here
        refine ⟨shownHere :: shownLater, seenHere ++ seenLater, ?_,
          collect_cons_eq_ok.mpr ⟨_, _, seesHere, sees, rfl⟩, ?_⟩
        · rw [List.filter_cons_of_pos keep, List.mapM_cons, looksHere, looks]
          rfl
        · rw [exposed, List.filter_append, ← exposed, ← exposed, sameHere]
      · rw [Bool.not_eq_true] at keep
        rw [dropped.1 keep first here, List.nil_append]
        refine ⟨shownLater, seenLater, ?_, sees, rfl⟩
        rw [List.filter_cons_of_neg (by simp [keep]), looks]

theorem shows_collect_all {α β : Type} {mentions : α → Except UnitFault (List Mention)}
    {look : α → Except UnitFault β} {shown : β → Except UnitFault (List Mention)} {parts : List α}
    (each : ∀ part ∈ parts, Shows (mentions part) (look part) shown) :
    Shows (collect mentions parts) (parts.mapM look) (collect shown) := by
  have kept : Shows (collect mentions parts) ((parts.filter fun _ => true).mapM look)
      (collect shown) :=
    shows_collect (fun part member _ => each part member) fun _ _ never => absurd never (by simp)
  rwa [List.filter_true] at kept

theorem shows_bind {α : Type} (look : Except UnitFault α)
    (shown : α → Except UnitFault (List Mention)) : Shows (look >>= shown) look shown := by
  intro found succeeds
  obtain ⟨part, looks, sees⟩ := bind_eq_ok.mp succeeds
  exact ⟨part, found, looks, sees, rfl⟩

theorem Shows.map {α β : Type} {mentions : Except UnitFault (List Mention)} {look : Except UnitFault α}
    {shown : β → Except UnitFault (List Mention)} {change : α → β}
    (shows' : Shows mentions look fun part => shown (change part)) :
    Shows mentions (change <$> look) shown := by
  intro found succeeds
  obtain ⟨part, seen, looks, sees, same⟩ := shows' found succeeds
  exact ⟨change part, seen, map_eq_ok.mpr ⟨part, looks, rfl⟩, sees, same⟩

theorem shows_classes (indices : List Nat) :
    Shows (collect (fun index => mention isPrivate <$> classAt pool index) indices)
      (indices.mapM (classAt pool)) fun names => pure (names.flatMap (mention isPrivate)) := by
  have each : Shows (collect (fun index => mention isPrivate <$> classAt pool index) indices)
      (indices.mapM (classAt pool)) (collect fun name => pure (mention isPrivate name)) :=
    shows_collect_all fun index _ => by
      rw [map_eq_pure_bind]
      exact shows_bind _ _
  have joined : (collect fun name => pure (mention isPrivate name)) =
      fun names => pure (names.flatMap (mention isPrivate)) :=
    funext fun names => collect_pure names (mention isPrivate)
  rwa [joined] at each

theorem shows_attribute (part : Attribute) :
    Shows (attributeMentions pool isPrivate part) (remarkOf pool part)
      (Remark.mentions isPrivate) := by
  cases part with
  | signature textIndex =>
      rw [attributeMentions]
      have shown : Shows (descriptorMentions pool isPrivate textIndex) (textAt pool textIndex)
          fun text => (Remark.signature text).mentions isPrivate := shows_bind _ _
      exact shown.map
  | exceptions classIndices =>
      rw [attributeMentions]
      have shown : Shows (collect (fun index => mention isPrivate <$> classAt pool index) classIndices)
          (classIndices.mapM (classAt pool)) fun names => (Remark.exceptions names).mentions isPrivate :=
        shows_classes classIndices
      exact shown.map
  | annotations annotations =>
      have shown : Shows
          (collect (descriptorMentions pool isPrivate) (annotations.flatMap Annotation.descriptors))
          ((annotations.flatMap Annotation.descriptors).mapM (textAt pool))
          fun descriptors => (Remark.annotations descriptors).mentions isPrivate :=
        shows_collect_all fun index _ => shows_bind _ _
      rw [attributeMentions, funext annotationMentions_eq, ← collect_flatMap]
      exact shown.map
  | code instructions parts =>
      intro found succeeds
      refine ⟨.silent, [], rfl, rfl, ?_⟩
      rw [attributeMentions] at succeeds
      have hidden := isPrivate_of_attributeMentions (.code instructions parts)
        (by rw [attributeMentions]; exact succeeds)
      rw [exposed_eq_nil hidden, exposed, List.filter_nil]
  | sourceFile | innerClasses | places | other =>
      intro found succeeds
      rw [attributeMentions] at succeeds
      obtain rfl := Except.ok.inj succeeds
      exact ⟨.silent, [], rfl, rfl, rfl⟩

theorem shows_attributes (parts : List Attribute) :
    Shows (attributesMentions pool isPrivate parts) (parts.mapM (remarkOf pool))
      (collect (Remark.mentions isPrivate)) := by
  rw [attributesMentions_eq]
  exact shows_collect_all fun part _ => shows_attribute part

/-! ## Outlines -/

structure Outline where
  name : String
  nested : List NestedClass
  superclass : Option String
  interfaces : List String
  remarks : List Remark
  fields : List (FieldType × List Remark)
  /-- Methods by their descriptors. -/
  methods : List (String × List Remark)
  deriving DecidableEq

def fieldOutline (pool : ConstantPool) (field : Field) :
    Except UnitFault (FieldType × List Remark) := do
  pure (field.type, ← field.attributes.mapM (remarkOf pool))

def methodOutline (pool : ConstantPool) (method : Method) :
    Except UnitFault (String × List Remark) := do
  pure (← textAt pool method.descriptorIndex, ← method.attributes.mapM (remarkOf pool))

def superclassOf (unit : ClassFile) : Except UnitFault (Option String) :=
  if unit.superIndex = 0 then pure none else some <$> classAt unit.pool unit.superIndex

def outlineOf (unit : ClassFile) : Except UnitFault Outline := do
  let name ← classAt unit.pool unit.thisIndex
  let nested ← nestedClasses unit
  let superclass ← superclassOf unit
  let interfaces ← unit.interfaceIndices.mapM (classAt unit.pool)
  let remarks ← unit.attributes.mapM (remarkOf unit.pool)
  let fields ← (unit.fields.filter fun field => !ClassFile.isPrivate field.accessFlags).mapM
    (fieldOutline unit.pool)
  let methods ← (unit.methods.filter fun method => !ClassFile.isPrivate method.accessFlags).mapM
    (methodOutline unit.pool)
  pure ⟨name, nested, superclass, interfaces, remarks, fields, methods⟩

namespace Outline

def fieldMentions (field : FieldType × List Remark) : Except UnitFault (List Mention) := do
  pure (typeMentions false field.1 ++ (← collect (Remark.mentions false) field.2))

def methodMentions (method : String × List Remark) : Except UnitFault (List Mention) := do
  let type ← (MethodType.ofDescriptor method.1).mapError (.methodDescriptor method.1)
  let remarks ← collect (Remark.mentions false) method.2
  pure ((type.parameters ++ type.returns.toList).flatMap (typeMentions false) ++ remarks)

/-- What an outline mentions; its supertypes and remarks are as visible as the class itself. -/
def mentions (outline : Outline) : Except UnitFault (List Mention) := do
  let isPrivate := NestedClass.marksPrivate outline.nested outline.name
  let remarks ← collect (Remark.mentions isPrivate) outline.remarks
  let fields ← collect fieldMentions outline.fields
  let methods ← collect methodMentions outline.methods
  pure (outline.superclass.toList.flatMap (mention isPrivate) ++
    outline.interfaces.flatMap (mention isPrivate) ++ remarks ++ fields ++ methods)

end Outline

theorem shows_superclass (unit : ClassFile) :
    Shows (if unit.superIndex = 0 then pure []
        else mention isPrivate <$> classAt unit.pool unit.superIndex)
      (superclassOf unit) fun superclass => pure (superclass.toList.flatMap (mention isPrivate)) := by
  unfold superclassOf
  split
  · rintro found ⟨⟩
    exact ⟨none, [], rfl, rfl, rfl⟩
  · refine Shows.map ?_
    rw [map_eq_pure_bind]
    simpa using shows_bind (classAt unit.pool unit.superIndex) fun name =>
      pure (mention isPrivate name)

theorem shows_field {field : Field} (isPublic : ClassFile.isPrivate field.accessFlags = false) :
    Shows (fieldMentions pool field) (fieldOutline pool field) Outline.fieldMentions := by
  intro found succeeds
  obtain ⟨parts, collected, same⟩ := bind_eq_ok.mp succeeds
  obtain rfl := Except.ok.inj same
  rw [isPublic] at collected ⊢
  obtain ⟨remarks, seen, looks, sees, same⟩ := shows_attributes field.attributes parts collected
  refine ⟨(field.type, remarks), typeMentions false field.type ++ seen, ?_, ?_, ?_⟩
  · rw [fieldOutline, looks]
    rfl
  · rw [Outline.fieldMentions, sees]
    rfl
  · rw [exposed, List.filter_append, ← exposed, ← exposed, same, exposed, ← List.filter_append]

theorem exposed_field {field : Field} (isPrivate : ClassFile.isPrivate field.accessFlags)
    {found : List Mention} (succeeds : fieldMentions pool field = .ok found) :
    exposed found = [] := by
  obtain ⟨parts, collected, same⟩ := bind_eq_ok.mp succeeds
  obtain rfl := Except.ok.inj same
  rw [isPrivate] at collected ⊢
  exact exposed_eq_nil (List.forall_mem_append.mpr
    ⟨fun mention => isPrivate_of_typeMentions, isPrivate_of_attributesMentions collected⟩)

theorem shows_fields (fields : List Field) :
    Shows (collect (fieldMentions pool) fields)
      ((fields.filter fun field => !ClassFile.isPrivate field.accessFlags).mapM (fieldOutline pool))
      (collect Outline.fieldMentions) :=
  shows_collect (fun _ _ isPublic => shows_field (by simpa using isPublic))
    fun _ _ isPrivate _ => exposed_field (by simpa using isPrivate)

theorem shows_method {method : Method} (isPublic : ClassFile.isPrivate method.accessFlags = false) :
    Shows (methodMentions pool method) (methodOutline pool method) Outline.methodMentions := by
  intro found succeeds
  obtain ⟨type, typed, rest⟩ := bind_eq_ok.mp succeeds
  obtain ⟨parts, collected, same⟩ := bind_eq_ok.mp rest
  obtain rfl := Except.ok.inj same
  obtain ⟨descriptor, named, parses⟩ := bind_eq_ok.mp typed
  rw [isPublic] at collected ⊢
  obtain ⟨remarks, seen, looks, sees, same⟩ := shows_attributes method.attributes parts collected
  refine ⟨(descriptor, remarks),
    (type.parameters ++ type.returns.toList).flatMap (typeMentions false) ++ seen, ?_, ?_, ?_⟩
  · rw [methodOutline, named, looks]
    rfl
  · rw [Outline.methodMentions, parses, sees]
    rfl
  · rw [exposed, List.filter_append, ← exposed, ← exposed, same, exposed, ← List.filter_append]

theorem exposed_method {method : Method} (isPrivate : ClassFile.isPrivate method.accessFlags)
    {found : List Mention} (succeeds : methodMentions pool method = .ok found) :
    exposed found = [] := by
  obtain ⟨type, typed, rest⟩ := bind_eq_ok.mp succeeds
  obtain ⟨parts, collected, same⟩ := bind_eq_ok.mp rest
  obtain rfl := Except.ok.inj same
  rw [isPrivate] at collected ⊢
  refine exposed_eq_nil (List.forall_mem_append.mpr ⟨?_, isPrivate_of_attributesMentions collected⟩)
  intro mention member
  obtain ⟨type, -, member⟩ := List.mem_flatMap.mp member
  exact isPrivate_of_typeMentions member

theorem shows_methods (methods : List Method) :
    Shows (collect (methodMentions pool) methods)
      ((methods.filter fun method => !ClassFile.isPrivate method.accessFlags).mapM
        (methodOutline pool))
      (collect Outline.methodMentions) :=
  shows_collect (fun _ _ isPublic => shows_method (by simpa using isPublic))
    fun _ _ isPrivate _ => exposed_method (by simpa using isPrivate)

theorem Reveals.exists_outline {unit : ClassFile} {name : String} {table : List NestedClass}
    {mentions : List Mention} (reveals : Reveals unit name table mentions) :
    ∃ outline seen, outlineOf unit = .ok outline ∧ outline.name = name ∧
      outline.nested = table ∧ outline.mentions = .ok seen ∧ exposed seen = exposed mentions := by
  obtain ⟨superclass, interfaces, parts, fields, methods, inherits, implements, described, stores,
    calls, rfl⟩ := exists_of_classMentions reveals.mentions
  obtain ⟨superclassShown, superclassSeen, looksSuper, seesSuper, sameSuper⟩ :=
    shows_superclass unit superclass inherits
  obtain ⟨interfacesShown, interfacesSeen, looksInterfaces, seesInterfaces, sameInterfaces⟩ :=
    shows_classes unit.interfaceIndices interfaces implements
  obtain ⟨remarks, remarksSeen, looksRemarks, seesRemarks, sameRemarks⟩ :=
    shows_attributes unit.attributes parts described
  obtain ⟨fieldsShown, fieldsSeen, looksFields, seesFields, sameFields⟩ :=
    shows_fields unit.fields fields stores
  obtain ⟨methodsShown, methodsSeen, looksMethods, seesMethods, sameMethods⟩ :=
    shows_methods unit.methods methods calls
  refine ⟨⟨name, table, superclassShown, interfacesShown, remarks, fieldsShown, methodsShown⟩,
    superclassSeen ++ interfacesSeen ++ remarksSeen ++ fieldsSeen ++ methodsSeen,
    ?_, rfl, rfl, ?_, ?_⟩
  · simp only [outlineOf, reveals.isNamed, reveals.lists, looksInterfaces, looksRemarks,
      looksFields, looksMethods, looksSuper, bind, Except.bind]
    rfl
  · simp only [Outline.mentions, seesRemarks, seesFields, seesMethods, bind, Except.bind]
    rw [← Except.ok.inj seesSuper, ← Except.ok.inj seesInterfaces]
    rfl
  · simp only [exposed, List.filter_append] at *
    rw [sameSuper, sameInterfaces, sameRemarks, sameFields, sameMethods]

theorem isNamed_of_outline {unit : ClassFile} {outline : Outline}
    (outlined : outlineOf unit = .ok outline) :
    classAt unit.pool unit.thisIndex = .ok outline.name := by
  obtain ⟨name, named, rest⟩ := bind_eq_ok.mp outlined
  obtain ⟨nested, -, rest⟩ := bind_eq_ok.mp rest
  obtain ⟨superclass, -, rest⟩ := bind_eq_ok.mp rest
  obtain ⟨interfaces, -, rest⟩ := bind_eq_ok.mp rest
  obtain ⟨remarks, -, rest⟩ := bind_eq_ok.mp rest
  obtain ⟨fields, -, rest⟩ := bind_eq_ok.mp rest
  obtain ⟨methods, -, same⟩ := bind_eq_ok.mp rest
  obtain rfl := Except.ok.inj same
  exact named

end Surface

end AbiBuild
