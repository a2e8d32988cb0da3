import AbiBuild.Proofs.Collections
import AbiBuild.Surface.Reader

/-!
# How long the tables of a class file are

Tables are counted in two octets.  So a decoded class file has fewer attributes, and each of its
tables of nested classes fewer lines, than two octets can count.
-/

namespace AbiBuild

theorem Bytes.toNatBE_lt (bytes : Bytes) : bytes.toNatBE < 256 ^ bytes.length := by
  have folded : ∀ start, bytes.foldl (fun value octet => value * 256 + octet.toNat) start <
      (start + 1) * 256 ^ bytes.length := by
    induction bytes with
    | nil => simp
    | cons octet rest ih =>
        intro start
        have small := octet.toNat_lt
        calc
          _ < (start * 256 + octet.toNat + 1) * 256 ^ rest.length := ih _
          _ ≤ (start + 1) * 256 * 256 ^ rest.length := Nat.mul_le_mul_right _ (by omega)
          _ = (start + 1) * 256 ^ (octet :: rest).length := by
            rw [List.length_cons, Nat.pow_succ', Nat.mul_assoc]
  simpa [toNatBE] using folded 0

namespace ClassFile

open Surface

/-! ## What every decoded value is like -/

def Decoder.Yields {α : Type} (decode : Decoder α) (holds : α → Prop) : Prop :=
  ∀ cursor value next, decode cursor = .ok (value, next) → holds value

namespace Decoder

variable {α β : Type} {holds : α → Prop} {result : β → Prop} {decode : Decoder α}

theorem yields_pure {value : α} (isSo : holds value) : Yields (pure value) holds := by
  intro cursor found next decodes
  obtain ⟨rfl, -⟩ := Prod.mk.inj (Except.ok.inj decodes)
  exact isSo

theorem yields_throw (fault : Fault) : Yields (throw fault) holds := by
  rintro cursor value next ⟨⟩

theorem Yields.bind {next : α → Decoder β} (first : decode.Yields holds)
    (second : ∀ value, holds value → (next value).Yields result) :
    (decode >>= next).Yields result := by
  intro cursor value last decodes
  obtain ⟨⟨found, middle⟩, decodesFirst, rest⟩ := bind_eq_ok.mp decodes
  exact second found (first _ _ _ decodesFirst) _ _ _ rest

theorem yields_bind {next : α → Decoder β} (second : ∀ value, (next value).Yields result) :
    (decode >>= next).Yields result :=
  have anything : decode.Yields fun _ => True := fun _ _ _ _ => trivial
  anything.bind fun value _ => second value

theorem yields_check {condition : Prop} [Decidable condition] {fault : Fault}
    {next : PUnit → Decoder β} (isSo : (next ⟨⟩).Yields result) :
    (if condition then throw fault >>= next else next ⟨⟩).Yields result := by
  split
  · rintro cursor value last ⟨⟩
  · exact isSo

theorem Yields.imp {weaker : α → Prop} (first : decode.Yields holds)
    (implies : ∀ value, holds value → weaker value) : decode.Yields weaker :=
  fun cursor value next decodes => implies value (first cursor value next decodes)

theorem Yields.map {change : α → β} (first : decode.Yields fun value => result (change value)) :
    (change <$> decode).Yields result := by
  rw [map_eq_pure_bind]
  exact first.bind fun _ isSo => yields_pure isSo

theorem yields_seqRight {second : Decoder β} (isSo : second.Yields result) :
    (decode *> second).Yields result := by
  rw [seqRight_eq_bind]
  exact yields_bind fun _ => isSo

/-! ## Tables -/

theorem yields_unsigned (width : Nat) : (unsigned width).Yields (· < 256 ^ width) := by
  refine Yields.map ?_
  intro cursor bytes next decodes
  unfold octets at decodes
  split at decodes
  next taken rest splits =>
    obtain ⟨rfl, -⟩ := Prod.mk.inj (Except.ok.inj decodes)
    rw [← Bytes.split?_length splits]
    exact taken.toNatBE_lt
  next => cases decodes

theorem Yields.times (each : decode.Yields holds) (count : Nat) :
    (times decode count).Yields fun values =>
      values.length = count ∧ ∀ value ∈ values, holds value := by
  induction count with
  | zero => exact yields_pure (by simp)
  | succ count ih =>
      refine each.bind fun value isSo => ih.bind fun values ⟨long, all⟩ => yields_pure ?_
      exact ⟨by simp [long], List.forall_mem_cons.mpr ⟨isSo, all⟩⟩

theorem Yields.table (each : decode.Yields holds) (width : Nat) :
    (table width decode).Yields fun values =>
      values.length < 256 ^ width ∧ ∀ value ∈ values, holds value :=
  (yields_unsigned width).bind fun count small => by
    intro cursor values next decodes
    obtain ⟨rfl, all⟩ := each.times count cursor values next decodes
    exact ⟨small, all⟩

private abbrev Short (part : Attribute) : Prop := (innerClassEntries part).length < tableLimit

private theorem yields_other {decode : Decoder α} : (decode *> pure Attribute.other).Yields Short :=
  yields_seqRight (yields_pure (by decide))

private theorem yields_map_short {change : α → Attribute} {decode : Decoder α}
    (empty : ∀ value, innerClassEntries (change value) = []) : (change <$> decode).Yields Short :=
  Yields.map fun _ value _ _ => by simp [Short, empty, tableLimit]

private theorem yields_simpleAttribute (name : String) (length : Nat) :
    (simpleAttribute name length).Yields Short := by
  have line : innerClass.Yields fun _ => True := fun _ _ _ _ => trivial
  have classes : (Attribute.innerClasses <$> table 2 innerClass).Yields Short :=
    Yields.map ((line.table 2).imp fun _ small => small.1)
  unfold simpleAttribute
  split
  all_goals first
    | exact yields_other
    | exact classes
    | exact yields_seqRight (yields_map_short fun _ => rfl)
    | exact yields_map_short fun _ => rfl

private theorem yields_codeBody (decode : Decoder Attribute) : (codeBody decode).Yields Short := by
  refine yields_bind fun _ => yields_bind fun _ => yields_bind fun _ => yields_bind fun _ => ?_
  exact yields_bind fun _ => yields_bind fun _ => yields_pure (by decide : 0 < tableLimit)

theorem yields_attributeWithin (pool : ConstantPool) (count : Nat) :
    (attributeWithin pool count).Yields Short := by
  cases count with
  | zero => exact yields_throw _
  | succ count =>
      refine yields_bind fun nameIndex => ?_
      split
      next => exact yields_throw _
      next name _ =>
        refine yields_bind fun length => ?_
        split
        next => exact yields_codeBody _
        next => exact yields_other
        next => exact yields_simpleAttribute _ _

theorem yields_classFile : classFile.Yields fun unit =>
    (unit.attributes.flatMap innerClassEntries).length ≤ tableLimit * tableLimit := by
  have tables : ∀ pool, (attributes pool).Yields fun found =>
      (found.flatMap innerClassEntries).length ≤ tableLimit * tableLimit := by
    intro pool
    refine yields_bind fun count => ((yields_attributeWithin pool _).table 2).imp ?_
    rintro found ⟨few, short⟩
    have all := length_flatMap_le innerClassEntries fun part member =>
      Nat.le_of_lt (short part member)
    exact Nat.le_trans all (Nat.mul_le_mul_right _ (Nat.le_of_lt few))
  refine yields_bind fun magic => yields_check ?_
  refine yields_bind fun minor => yields_bind fun major => yields_check ?_
  refine yields_bind fun pool => yields_bind fun _ => yields_bind fun _ => yields_bind fun _ =>
    yields_bind fun _ => yields_bind fun _ => yields_bind fun _ => ?_
  exact (tables pool).bind fun found small => yields_pure small

end Decoder

theorem length_nestedEntries {bytes : Bytes} {unit : ClassFile} (decodes : ofBytes bytes = .ok unit) :
    (unit.attributes.flatMap innerClassEntries).length ≤ tableLimit * tableLimit := by
  obtain ⟨⟨found, cursor⟩, takes, same⟩ := bind_eq_ok.mp decodes
  obtain rfl := Except.ok.inj same
  exact Decoder.yields_classFile _ _ _ takes

end ClassFile

end AbiBuild
