import AbiBuild.Text.Utf8

/-!
# Writing MessagePack

Numbers, lengths and texts take the shortest form that holds them.
-/

namespace AbiBuild.MessagePack

def encodeUnsigned (value : Nat) : Bytes :=
  if value < 0x80 then [UInt8.ofNat value]
  else if value < 2 ^ 8 then 0xCC :: Bytes.ofNatBE 1 value
  else if value < 2 ^ 16 then 0xCD :: Bytes.ofNatBE 2 value
  else if value < 2 ^ 32 then 0xCE :: Bytes.ofNatBE 4 value
  else 0xCF :: Bytes.ofNatBE 8 value

def encodeBool (value : Bool) : Bytes :=
  [if value then 0xC3 else 0xC2]

def encodeText (text : String) : Bytes :=
  let octets := Text.Utf8.encode text
  let size := octets.length
  let head :=
    if size < 32 then [UInt8.ofNat (0xA0 + size)]
    else if size < 2 ^ 8 then 0xD9 :: Bytes.ofNatBE 1 size
    else if size < 2 ^ 16 then 0xDA :: Bytes.ofNatBE 2 size
    else 0xDB :: Bytes.ofNatBE 4 size
  head ++ octets

def encodeBinary (octets : Bytes) : Bytes :=
  let size := octets.length
  let head :=
    if size < 2 ^ 8 then 0xC4 :: Bytes.ofNatBE 1 size
    else if size < 2 ^ 16 then 0xC5 :: Bytes.ofNatBE 2 size
    else 0xC6 :: Bytes.ofNatBE 4 size
  head ++ octets

def encodeArrayHead (size : Nat) : Bytes :=
  if size < 16 then [UInt8.ofNat (0x90 + size)]
  else if size < 2 ^ 16 then 0xDC :: Bytes.ofNatBE 2 size
  else 0xDD :: Bytes.ofNatBE 4 size

def encodeMapHead (size : Nat) : Bytes :=
  if size < 16 then [UInt8.ofNat (0x80 + size)]
  else if size < 2 ^ 16 then 0xDE :: Bytes.ofNatBE 2 size
  else 0xDF :: Bytes.ofNatBE 4 size

def encodeList {α : Type} (encode : α → Bytes) (values : List α) : Bytes :=
  encodeArrayHead values.length ++ values.flatMap encode

def encodePairs {α β : Type} (encodeKey : α → Bytes) (encodeValue : β → Bytes)
    (pairs : List (α × β)) : Bytes :=
  encodeMapHead pairs.length ++ pairs.flatMap fun (key, value) => encodeKey key ++ encodeValue value

end AbiBuild.MessagePack
