import AbiBuild.ClassFile.Fault

/-!
# Decoding from the front

A decoder takes what it needs off the front of the octets and knows how far it has come, since
instructions are padded and branch relative to where they stand.
-/

namespace AbiBuild.ClassFile

structure Cursor where
  position : Nat
  rest : Bytes
  deriving DecidableEq, Repr

abbrev Decoder := StateT Cursor (Except Fault)

namespace Decoder

def octets (count : Nat) : Decoder Bytes := fun cursor =>
  match Bytes.split? count cursor.rest with
  | some (taken, rest) => .ok (taken, ⟨cursor.position + count, rest⟩)
  | none => .error .endOfInput

def expectOctets (count : Nat) : Decoder Unit := fun cursor =>
  match Bytes.split? count cursor.rest with
  | some _ => .ok ((), cursor)
  | none => .error .endOfInput

def position : Decoder Nat := fun cursor => .ok (cursor.position, cursor)

def remaining : Decoder Nat := fun cursor => .ok (cursor.rest.length, cursor)

def unsigned (width : Nat) : Decoder Nat := Bytes.toNatBE <$> octets width

def signed (width : Nat) : Decoder Int := do
  let value ← unsigned width
  pure (if value < 2 ^ (8 * width - 1) then (value : Int) else value - 2 ^ (8 * width))

def u1 : Decoder Nat := unsigned 1

def u2 : Decoder Nat := unsigned 2

def u4 : Decoder Nat := unsigned 4

def times {α : Type} (decode : Decoder α) : Nat → Decoder (List α)
  | 0 => pure []
  | count + 1 => do
    let value ← decode
    let values ← times decode count
    pure (value :: values)

/-- A table: the number of its entries in `width` octets, and the entries. -/
def table {α : Type} (width : Nat) (decode : Decoder α) : Decoder (List α) := do
  times decode (← unsigned width)

def skip (count : Nat) : Decoder Unit := discard (octets count)

/-- Decodes octets from their beginning; what is left of them does not count. -/
def run {α : Type} (decode : Decoder α) (bytes : Bytes) : Except Fault α := do
  let (value, _) ← decode ⟨0, bytes⟩
  pure value

end Decoder

end AbiBuild.ClassFile
