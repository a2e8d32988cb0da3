import AbiBuild.Text.Utf8

/-!
# Modified UTF-8

Class files write text in modified UTF-8: a zero character takes two octets, and a supplementary
character is written as its two surrogates of three octets each.  The form is first turned into
ordinary UTF-8, which is then decoded.  Lone surrogates become the replacement character.
-/

namespace AbiBuild.Text.ModifiedUtf8

/-- Why octets are not modified UTF-8. -/
inductive Fault
  /-- A lead octet of a four-octet sequence, or a stray continuation. -/
  | foreignLead
  /-- The octets end inside a sequence. -/
  | truncated
  /-- The sequences themselves are not UTF-8. -/
  | utf8 (fault : Utf8.Fault)
  deriving DecidableEq, Repr

/-- A sequence as its lead octet sizes it; the octets after the lead are not looked at. -/
inductive Sequence
  | one (first : UInt8)
  | two (first second : UInt8)
  | three (first second third : UInt8)
  deriving DecidableEq, Repr

def sequences : Bytes → Except Fault (List Sequence)
  | [] => .ok []
  | first :: rest =>
    if first < 0x80 then (.one first :: ·) <$> sequences rest
    else if first < 0xC0 then .error .foreignLead
    else if first < 0xE0 then
      match rest with
      | second :: rest => (.two first second :: ·) <$> sequences rest
      | [] => .error .truncated
    else if first < 0xF0 then
      match rest with
      | second :: third :: rest => (.three first second third :: ·) <$> sequences rest
      | _ => .error .truncated
    else .error .foreignLead

namespace Sequence

def octets : Sequence → Bytes
  | one first => [first]
  | two first second => if first = 0xC0 && second = 0x80 then [0] else [first, second]
  | three first second third => [first, second, third]

def unit? : Sequence → Option Nat
  | three first second third =>
    some ((first.toNat % 16 * 64 + second.toNat % 64) * 64 + third.toNat % 64)
  | _ => none

def highSurrogate? (sequence : Sequence) : Option Nat :=
  sequence.unit?.filter fun value => 0xD800 ≤ value && value ≤ 0xDBFF

def lowSurrogate? (sequence : Sequence) : Option Nat :=
  sequence.unit?.filter fun value => 0xDC00 ≤ value && value ≤ 0xDFFF

end Sequence

def replacement : Bytes := String.utf8EncodeChar (Char.ofNat 0xFFFD)

def combine (high low : Nat) : Char :=
  Char.ofNat (0x10000 + (high - 0xD800) * 0x400 + (low - 0xDC00))

/-- The sequences as ordinary UTF-8, which may still be ill formed.  A high surrogate waits
for the sequence after it. -/
def toUtf8 : Option Nat → List Sequence → Bytes
  | none, [] => []
  | some _, [] => replacement
  | waiting, sequence :: rest =>
    match waiting, sequence.lowSurrogate? with
    | some high, some low => String.utf8EncodeChar (combine high low) ++ toUtf8 none rest
    | _, low? =>
      (if waiting.isSome then replacement else []) ++
        match sequence.highSurrogate? with
        | some high => toUtf8 (some high) rest
        | none => (if low?.isSome then replacement else sequence.octets) ++ toUtf8 none rest

def decode (bytes : Bytes) : Except Fault String := do
  let found ← sequences bytes
  match Utf8.decode (toUtf8 none found) with
  | .ok text => .ok text
  | .error fault => .error (.utf8 fault)

end AbiBuild.Text.ModifiedUtf8
