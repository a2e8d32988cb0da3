import AbiBuild.Proofs.ClassFile.Tables

/-!
# How references are encoded

The opcodes under which an instruction refers to a class, a member or a constant, and the names
under which an attribute says something of other classes.
-/

namespace AbiBuild.ClassFile

def classOpcodes : List Nat := [187, 189, 192, 193, 197]

/-- Fields, static or not, that are read or written, and methods that are called; a call that is
bound when it runs is not among them. -/
def memberOpcodes : List Nat := [178, 179, 180, 181, 182, 183, 184, 185]

def loadOpcodes : List Nat := [18, 19]

/-- What an instruction keeps of its operands. -/
structure Instruction.Encoded (opcode : Nat) (operands : Bytes) (found : Instruction) : Prop where
  namesClass : ∀ index, found = .namesClass index ↔
    opcode ∈ classOpcodes ∧ index = Bytes.toNatBE (operands.take 2)
  usesMember : ∀ index, found = .usesMember index ↔
    opcode ∈ memberOpcodes ∧ index = Bytes.toNatBE (operands.take 2)
  loadsConstant : ∀ index, found = .loadsConstant index ↔
    opcode ∈ loadOpcodes ∧ index = Bytes.toNatBE (operands.take (opcode - 17))

/-- What the name of an attribute says of its content. -/
structure Attribute.Named (name : String) (found : Attribute) : Prop where
  signature : (∃ index, found = .signature index) ↔ name = "Signature"
  exceptions : (∃ indices, found = .exceptions indices) ↔ name = "Exceptions"
  annotations : (∃ markers, found = .annotations markers) ↔
    name ∈ ["RuntimeVisibleAnnotations", "RuntimeVisibleParameterAnnotations",
      "RuntimeVisibleTypeAnnotations"]
  innerClasses : (∃ classes, found = .innerClasses classes) ↔ name = "InnerClasses"
  code : (∃ instructions parts, found = .code instructions parts) ↔ name = "Code"

namespace Decoder

open Instruction

theorem unsigned_eq_ok {width value : Nat} {cursor next : Cursor}
    (decodes : unsigned width cursor = .ok (value, next)) : ∃ taken,
      cursor.rest = taken ++ next.rest ∧ taken.length = width ∧ value = taken.toNatBE := by
  obtain ⟨⟨taken, after⟩, takes, same⟩ := map_eq_ok.mp decodes
  obtain ⟨rfl, rfl⟩ := Prod.mk.inj same
  unfold octets at takes
  split at takes
  next splits =>
    obtain ⟨rfl, rfl⟩ := Prod.mk.inj (Except.ok.inj takes)
    exact ⟨_, Bytes.split?_append splits, Bytes.split?_length splits, rfl⟩
  next => cases takes

theorem toNatBE_of_unsigned {width value : Nat} {cursor next : Cursor}
    (decodes : unsigned width cursor = .ok (value, next)) :
    value = Bytes.toNatBE (cursor.rest.take width) := by
  obtain ⟨taken, whole, long, rfl⟩ := unsigned_eq_ok decodes
  rw [whole, ← long, List.take_left]

/-! ## Instructions -/

private abbrev Unreferring (found : Instruction) : Prop :=
  ∀ index, found ≠ .namesClass index ∧ found ≠ .usesMember index ∧ found ≠ .loadsConstant index

/-- What is kept of the operands after an opcode of the form. -/
private def Keeps : Form → Bytes → Instruction → Prop
  | .loads width, operands, found => found = .loadsConstant (Bytes.toNatBE (operands.take width))
  | .classIndex _, operands, found => found = .namesClass (Bytes.toNatBE (operands.take 2))
  | .memberIndex, operands, found | .interfaceCall, operands, found =>
    found = .usesMember (Bytes.toNatBE (operands.take 2))
  | _, _, found => Unreferring found

/-- Whether an opcode of the form names a class, whether it uses a member, and in how many octets
it gives the index of a constant to load. -/
private def reference : Form → Bool × Bool × Option Nat
  | .classIndex _ => (true, false, none)
  | .memberIndex | .interfaceCall => (false, true, none)
  | .loads width => (false, false, some width)
  | _ => (false, false, none)

private theorem reference_form : ∀ opcode : Fin 256, reference (form opcode) =
    (decide (opcode.val ∈ classOpcodes), decide (opcode.val ∈ memberOpcodes),
      if opcode.val ∈ loadOpcodes then some (opcode.val - 17) else none) := by
  decide +kernel

private theorem encoded_of_keeps {opcode : Nat} {operands : Bytes} {found : Instruction}
    (small : opcode < 256) (keeps : Keeps (form opcode) operands found) :
    Encoded opcode operands found := by
  have kind := reference_form ⟨opcode, small⟩
  dsimp only at kind
  generalize form opcode = form at kind keeps
  obtain ⟨classes, members, loads⟩ := by simpa only [Prod.ext_iff] using kind
  cases form
  case loads width =>
    split at loads
    next loadsConstant =>
      obtain rfl := Option.some.inj loads
      obtain rfl : found = _ := keeps
      simp only [reference, false_eq_decide_iff] at classes members
      exact ⟨by simp [classes], by simp [members], by simp [loadsConstant, eq_comm]⟩
    next => cases loads
  all_goals
    have none : opcode ∉ loadOpcodes := fun member => by simp [reference, member] at loads
    simp only [reference, false_eq_decide_iff, true_eq_decide_iff] at classes members
  case classIndex trailing =>
    obtain rfl : found = _ := keeps
    exact ⟨by simp [classes, eq_comm], by simp [members], by simp [none]⟩
  case memberIndex | interfaceCall =>
    obtain rfl : found = _ := keeps
    exact ⟨by simp [classes], by simp [members, eq_comm], by simp [none]⟩
  all_goals
    have unreferring : Unreferring found := keeps
    exact ⟨fun index => by simp [classes, unreferring index],
      fun index => by simp [members, unreferring index],
      fun index => by simp [none, unreferring index]⟩

private theorem yields_plain {α : Type} {decode : Decoder α} :
    (decode *> pure Instruction.plain).Yields Unreferring :=
  yields_seqRight (yields_pure (by simp [Unreferring]))

private theorem keeps_of_instruction {cursor next : Cursor} {found : Instruction}
    (decodes : instruction cursor = .ok (found, next)) : ∃ opcode after,
      unsigned 1 cursor = .ok (opcode, after) ∧ Keeps (form opcode) after.rest found := by
  obtain ⟨⟨opcode, after⟩, reads, rest⟩ := bind_eq_ok.mp decodes
  refine ⟨opcode, after, reads, ?_⟩
  have plain : Unreferring .plain := by simp [Unreferring]
  have near : ∀ target, Unreferring (.branches target) := by simp [Unreferring]
  have far : ∀ targets, Unreferring (.branchesFar targets) := by simp [Unreferring]
  dsimp only at rest
  generalize form opcode = form at rest
  cases form with
  | fixed size => exact yields_plain _ _ _ rest
  | loads width =>
      obtain ⟨⟨index, _⟩, reads, same⟩ := map_eq_ok.mp rest
      obtain ⟨rfl, -⟩ := Prod.mk.inj same
      exact congrArg _ (toNatBE_of_unsigned reads)
  | classIndex trailing =>
      obtain ⟨⟨index, middle⟩, reads, rest⟩ := bind_eq_ok.mp rest
      have names : Yields (do skip trailing; pure (namesClass index)) (· = namesClass index) :=
        yields_bind fun _ => yields_pure rfl
      exact (names _ _ _ rest).trans (congrArg _ (toNatBE_of_unsigned reads))
  | memberIndex =>
      obtain ⟨⟨index, _⟩, reads, same⟩ := map_eq_ok.mp rest
      obtain ⟨rfl, -⟩ := Prod.mk.inj same
      exact congrArg _ (toNatBE_of_unsigned reads)
  | interfaceCall =>
      obtain ⟨⟨index, middle⟩, reads, rest⟩ := bind_eq_ok.mp rest
      have uses : Yields (do
          skip 1
          if (← u1) ≠ 0 then throw (.instruction opcode)
          pure (usesMember index)) (· = usesMember index) :=
        yields_bind fun _ => yields_bind fun _ => yields_check (yields_pure rfl)
      exact (uses _ _ _ rest).trans (congrArg _ (toNatBE_of_unsigned reads))
  | dynamicCall =>
      have keeps : Yields (do
          skip 2
          if (← u2) ≠ 0 then throw (.instruction opcode)
          pure .plain) Unreferring :=
        yields_bind fun _ => yields_bind fun _ => yields_check (yields_pure plain)
      exact keeps _ _ _ rest
  | newArray =>
      have keeps : Yields (do
          let code ← u1
          if code < 4 || 11 < code then throw (.arrayTypeCode code)
          pure .plain) Unreferring :=
        yields_bind fun _ => yields_check (yields_pure plain)
      exact keeps _ _ _ rest
  | near =>
      have keeps : Yields (do
          let target ← offsetWithin (cursor.position + (← signed 2))
          pure (branches target)) Unreferring :=
        yields_bind fun _ => yields_bind fun _ => yields_pure (near _)
      exact keeps _ _ _ rest
  | far =>
      have keeps : Yields (do
          let offset ← signed 4
          pure (branchesFar [cursor.position + offset])) Unreferring :=
        yields_bind fun _ => yields_pure (far _)
      exact keeps _ _ _ rest
  | tableSwitch | lookupSwitch =>
      have keeps : ∀ form, Yields (branchesFar <$> switchTargets cursor.position form)
          Unreferring := fun _ => Yields.map fun _ _ _ _ => far _
      exact keeps _ _ _ _ rest
  | wide =>
      refine (?keeps : Yields _ Unreferring) _ _ _ rest
      refine yields_bind fun widened => ?_
      split
      · exact yields_plain
      · exact yields_throw _
  | invalid => cases rest

theorem encoded_of_instruction {cursor next : Cursor} {found : Instruction}
    (decodes : instruction cursor = .ok (found, next)) : ∃ opcode operands,
      cursor.rest = opcode :: operands ∧ Encoded opcode.toNat operands found := by
  obtain ⟨opcode, after, reads, keeps⟩ := keeps_of_instruction decodes
  obtain ⟨taken, whole, long, rfl⟩ := unsigned_eq_ok reads
  obtain ⟨octet, rfl⟩ := List.length_eq_one_iff.mp long
  have value : Bytes.toNatBE [octet] = octet.toNat := by simp [Bytes.toNatBE]
  rw [value] at keeps
  exact ⟨octet, after.rest, whole, encoded_of_keeps octet.toNat_lt keeps⟩

/-! ## Attributes -/

private theorem yields_simple_named {name : String} (length : Nat) (noCode : name ≠ "Code") :
    (simpleAttribute name length).Yields (Attribute.Named name) := by
  unfold simpleAttribute
  split
  all_goals first
    | exact yields_seqRight (yields_pure (by constructor <;> simp_all))
    | exact yields_seqRight (Yields.map fun _ _ _ _ => by constructor <;> simp_all)
    | exact Yields.map fun _ _ _ _ => by constructor <;> simp_all

theorem named_of_attribute {pool : ConstantPool} {count : Nat} {cursor next : Cursor}
    {found : Attribute} (decodes : attributeWithin pool count cursor = .ok (found, next)) :
    ∃ name, pool.text (Bytes.toNatBE (cursor.rest.take 2)) = .ok name ∧ found.Named name := by
  cases count with
  | zero => cases decodes
  | succ count =>
      obtain ⟨⟨nameIndex, after⟩, reads, rest⟩ := bind_eq_ok.mp decodes
      rw [← toNatBE_of_unsigned reads]
      dsimp only at rest
      cases there : pool.text nameIndex with
      | error fault =>
          rw [there] at rest
          cases rest
      | ok name =>
          rw [there] at rest
          refine ⟨name, rfl, (?titled : Yields _ (Attribute.Named name)) _ _ _ rest⟩
          refine yields_bind fun length => ?_
          split
          next =>
            exact yields_bind fun _ => yields_bind fun _ => yields_bind fun _ =>
              yields_bind fun _ => yields_bind fun _ => yields_bind fun _ =>
                yields_pure (by constructor <;> simp)
          next => exact yields_seqRight (yields_pure (by constructor <;> simp))
          next noCode _ => exact yields_simple_named length noCode

end Decoder

end AbiBuild.ClassFile
