import AbiBuild.Bytes

/-!
# UTF-8

Text is stored as UTF-8.  Decoding names the place of the first fault: how many octets before it
are well formed, and how many octets belong to the ill formed sequence.  A sequence that is cut off
by the end of the octets has no such count.
-/

namespace AbiBuild.Text.Utf8

/-- The first place at which octets stop being UTF-8. -/
structure Fault where
  validUpTo : Nat
  /-- `none` when the octets end inside a sequence that is good so far. -/
  length : Option Nat
  deriving DecidableEq, Repr

def encodeChars (chars : List Char) : Bytes :=
  chars.flatMap String.utf8EncodeChar

def encode (text : String) : Bytes :=
  encodeChars text.toList

/-- A sequence whose lead octet has been read: the octets read and owed, the bits so far, and the
bounds of the next octet. -/
structure Pending where
  taken : Nat
  owed : Nat
  value : Nat
  low : UInt8
  high : UInt8
  deriving DecidableEq, Repr

/-- What the first octet of a sequence says. -/
inductive Lead
  | char (value : Char)
  | opens (pending : Pending)
  | invalid
  deriving DecidableEq, Repr

/-- The bounds on the second octet exclude overlong forms, surrogates, and code points above the
last one. -/
def lead (octet : UInt8) : Lead :=
  if octet < 0x80 then .char (Char.ofNat octet.toNat)
  else if octet < 0xC2 then .invalid
  else if octet < 0xE0 then .opens ⟨1, 1, octet.toNat % 32, 0x80, 0xBF⟩
  else if octet = 0xE0 then .opens ⟨1, 2, octet.toNat % 16, 0xA0, 0xBF⟩
  else if octet = 0xED then .opens ⟨1, 2, octet.toNat % 16, 0x80, 0x9F⟩
  else if octet < 0xF0 then .opens ⟨1, 2, octet.toNat % 16, 0x80, 0xBF⟩
  else if octet = 0xF0 then .opens ⟨1, 3, octet.toNat % 8, 0x90, 0xBF⟩
  else if octet < 0xF4 then .opens ⟨1, 3, octet.toNat % 8, 0x80, 0xBF⟩
  else if octet = 0xF4 then .opens ⟨1, 3, octet.toNat % 8, 0x80, 0x8F⟩
  else .invalid

/-- Decodes on from the sequence that starts at `index`, after the characters in `decoded`, last
first. -/
def decodeFrom (decoded : List Char) (index : Nat) :
    Option Pending → Bytes → Except Fault (List Char)
  | none, [] => .ok decoded.reverse
  | some _, [] => .error ⟨index, none⟩
  | none, octet :: rest =>
    match lead octet with
    | .char value => decodeFrom (value :: decoded) (index + 1) none rest
    | .opens pending => decodeFrom decoded index (some pending) rest
    | .invalid => .error ⟨index, some 1⟩
  | some pending, octet :: rest =>
    if pending.low ≤ octet && octet ≤ pending.high then
      let value := pending.value * 64 + octet.toNat % 64
      if pending.owed = 1 then
        decodeFrom (Char.ofNat value :: decoded) (index + pending.taken + 1) none rest
      else
        decodeFrom decoded index
          (some ⟨pending.taken + 1, pending.owed - 1, value, 0x80, 0xBF⟩) rest
    else .error ⟨index, some pending.taken⟩

def decode (bytes : Bytes) : Except Fault String :=
  (decodeFrom [] 0 none bytes).map String.ofList

def decode? (bytes : Bytes) : Option String :=
  match decode bytes with
  | .ok text => some text
  | .error _ => none

end AbiBuild.Text.Utf8
