import AbiBuild.ClassFile.Decoder

/-!
# Annotations

An annotation names its type and gives a value to each of its elements.  Values may be annotations
or lists of values in turn.  Names of elements and values of plain constants are not kept.
-/

namespace AbiBuild.ClassFile

mutual

inductive Annotation
  | of (typeIndex : Nat) (values : List ElementValue)

inductive ElementValue
  | constant
  /-- A constant of the enumeration whose descriptor stands under the index. -/
  | enumeration (typeIndex : Nat)
  /-- The class whose descriptor stands under the index. -/
  | classLiteral (descriptorIndex : Nat)
  | nested (value : Annotation)
  | list (values : List ElementValue)

end

namespace Decoder

def constantTags : List Char := ['B', 'C', 'D', 'F', 'I', 'J', 'S', 'Z', 's']

mutual

def annotationWithin : Nat → Decoder Annotation
  | 0 => throw .endOfInput
  | count + 1 => do
    let typeIndex ← u2
    let values ← table 2 (u2 *> elementValueWithin count)
    pure (.of typeIndex values)

def elementValueWithin : Nat → Decoder ElementValue
  | 0 => throw .endOfInput
  | count + 1 => do
    let tag ← u1
    match Char.ofNat tag with
    | 'e' => do
      let typeIndex ← u2
      let _ ← u2
      pure (.enumeration typeIndex)
    | 'c' => .classLiteral <$> u2
    | '@' => .nested <$> annotationWithin count
    | '[' => .list <$> table 2 (elementValueWithin count)
    | code =>
      if constantTags.contains code then u2 *> pure .constant else throw (.elementTag tag)

end

def annotation : Decoder Annotation := do
  annotationWithin ((← remaining) + 1)

def elementValue : Decoder ElementValue := do
  elementValueWithin ((← remaining) + 1)

def annotationTarget (code : Nat) : Decoder Unit :=
  if code ≤ 0x01 then skip 1
  else if code = 0x10 then skip 2
  else if code = 0x11 || code = 0x12 then skip 2
  else if 0x13 ≤ code && code ≤ 0x15 then pure ()
  else if code = 0x16 then skip 1
  else if code = 0x17 then skip 2
  else if code = 0x40 || code = 0x41 then discard (table 2 (skip 6))
  else if 0x42 ≤ code && code ≤ 0x46 then skip 2
  else if 0x47 ≤ code && code ≤ 0x4B then skip 3
  else throw (.targetTypeCode code)

def typeAnnotation : Decoder Annotation := do
  annotationTarget (← u1)
  let _ ← table 1 (skip 2)
  annotation

end Decoder

end AbiBuild.ClassFile
