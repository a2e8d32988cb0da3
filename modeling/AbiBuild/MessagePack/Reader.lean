import AbiBuild.Text.Utf8
import Std.Data.ExtTreeMap

/-!
# Reading MessagePack

A reader takes one value off the front of the octets.  It accepts every spelling of a value: any
width of number, text as text or as octets, a record as an array of its fields or as a map from
their names.
-/

namespace AbiBuild.MessagePack

abbrev Reader := StateT Bytes Option

/-- What the first octets of a value say about it. -/
inductive Head
  | nil
  | bool (value : Bool)
  | unsigned (value : Nat)
  | signed (value : Int)
  | float
  | text (size : Nat)
  | binary (size : Nat)
  | array (size : Nat)
  | map (size : Nat)
  | extension (size : Nat)
  deriving DecidableEq, Repr

def octets (count : Nat) : Reader Bytes := fun bytes => Bytes.split? count bytes

def number (width : Nat) : Reader Nat := Bytes.toNatBE <$> octets width

def signedNumber (width : Nat) : Reader Int := do
  let value ← number width
  pure (if value < 2 ^ (8 * width - 1) then (value : Int) else value - 2 ^ (8 * width))

def smallHead (octet : Nat) : Head :=
  if octet < 0x80 then .unsigned octet
  else if octet < 0x90 then .map (octet - 0x80)
  else if octet < 0xA0 then .array (octet - 0x90)
  else if octet < 0xC0 then .text (octet - 0xA0)
  else .signed ((octet : Int) - 0x100)

def head : Reader Head := do
  match ← number 1 with
  | 0xC0 => pure .nil
  | 0xC1 => failure
  | 0xC2 => pure (.bool false)
  | 0xC3 => pure (.bool true)
  | 0xC4 => .binary <$> number 1
  | 0xC5 => .binary <$> number 2
  | 0xC6 => .binary <$> number 4
  | 0xC7 => .extension <$> number 1
  | 0xC8 => .extension <$> number 2
  | 0xC9 => .extension <$> number 4
  | 0xCA => octets 4 *> pure .float
  | 0xCB => octets 8 *> pure .float
  | 0xCC => .unsigned <$> number 1
  | 0xCD => .unsigned <$> number 2
  | 0xCE => .unsigned <$> number 4
  | 0xCF => .unsigned <$> number 8
  | 0xD0 => .signed <$> signedNumber 1
  | 0xD1 => .signed <$> signedNumber 2
  | 0xD2 => .signed <$> signedNumber 4
  | 0xD3 => .signed <$> signedNumber 8
  | 0xD4 => pure (.extension 1)
  | 0xD5 => pure (.extension 2)
  | 0xD6 => pure (.extension 4)
  | 0xD7 => pure (.extension 8)
  | 0xD8 => pure (.extension 16)
  | 0xD9 => .text <$> number 1
  | 0xDA => .text <$> number 2
  | 0xDB => .text <$> number 4
  | 0xDC => .array <$> number 2
  | 0xDD => .array <$> number 4
  | 0xDE => .map <$> number 2
  | 0xDF => .map <$> number 4
  | octet => pure (smallHead octet)

def unsigned (bits : Nat) : Reader Nat := do
  let value ← match ← head with
    | .unsigned value => pure value
    | .signed value => if value < 0 then failure else pure value.toNat
    | _ => failure
  if value < 2 ^ bits then pure value else failure

def bool : Reader Bool := do
  match ← head with
  | .bool value => pure value
  | _ => failure

def text : Reader String := do
  match ← head with
  | .text size | .binary size =>
    match Text.Utf8.decode? (← octets size) with
    | some text => pure text
    | none => failure
  | _ => failure

def times {α : Type} (read : Reader α) : Nat → Reader (List α)
  | 0 => pure []
  | count + 1 => do
    let value ← read
    let values ← times read count
    pure (value :: values)

def binary : Reader Bytes := do
  match ← head with
  | .text size | .binary size => octets size
  | .array size => times (UInt8.ofNat <$> unsigned 8) size
  | _ => failure

def list {α : Type} (read : Reader α) : Reader (List α) := do
  match ← head with
  | .array size => times read size
  | .binary 0 => pure []
  | _ => failure

def pairs {α β : Type} (readKey : Reader α) (readValue : Reader β) : Reader (List (α × β)) := do
  match ← head with
  | .map size => times (do pure (← readKey, ← readValue)) size
  | _ => failure

def skip : (depth : Nat) → Reader Unit
  | 0 => do
    match ← head with
    | .text size | .binary size => discard (octets size)
    | .extension size => discard (octets (size + 1))
    | .array _ | .map _ => failure
    | _ => pure ()
  | depth + 1 => do
    match ← head with
    | .text size | .binary size => discard (octets size)
    | .extension size => discard (octets (size + 1))
    | .array size => discard (times (skip depth) size)
    | .map size => discard (times (skip depth *> skip depth) size)
    | _ => pure ()

/-- The position that a name has in `names`: spelled out, as octets, or as the number itself.  A
name that is none of them has no position. -/
def position (names : List String) : Reader (Option Nat) := do
  match ← head with
  | .text size | .binary size =>
    let found ← octets size
    pure (names.findIdx? fun name => Text.Utf8.encode name = found)
  | .unsigned value => pure (if value < names.length then some value else none)
  | _ => failure

/-- One of `names` that carries nothing else: by itself, or as the key of one entry that holds
nil. -/
def choice (names : List String) : Reader Nat := fun bytes => do
  let (found, rest) ← head bytes
  let chosen : Reader Nat := do
    match ← position names with
    | some index => pure index
    | none => failure
  match found with
  | .array 1 | .map 1 =>
    let (index, rest) ← chosen rest
    match rest with
    | 0xC0 :: rest => some (index, rest)
    | _ => none
  | .array _ | .map _ => none
  | _ => chosen bytes

def entries {α : Type} (readEntry : α → Reader α) : Nat → α → Reader α
  | 0, record => pure record
  | count + 1, record => do
    let record ← readEntry record
    entries readEntry count record

/-- A record written field by field or as a map.  `readField` reads the field at a position into
the record; unknown names are passed over. -/
def recordOf {α : Type} (depth : Nat) (names : List String) (start : α)
    (readField : Nat → α → Reader α) : Reader α := do
  match ← head with
  | .array size =>
    if size = names.length then
      (List.range names.length).foldlM (fun record index => readField index record) start
    else failure
  | .map size =>
    entries (fun record => do
      match ← position names with
      | some index => readField index record
      | none => skip depth *> pure record) size start
  | _ => failure

end AbiBuild.MessagePack
