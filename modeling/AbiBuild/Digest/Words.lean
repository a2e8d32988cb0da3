import AbiBuild.Bytes

/-!
# Words of the digests

Both digests read their input as words, least significant octet first, and stir 64-bit lanes by
multiplication and rotation.  Arithmetic is modulo the word size throughout.
-/

namespace AbiBuild.Digest

def octetAt (data : Array UInt8) (offset : Nat) : Nat :=
  (data[offset]?.getD 0).toNat

def word32 (data : Array UInt8) (offset : Nat) : UInt64 :=
  UInt64.ofNat (octetAt data offset + octetAt data (offset + 1) * 2 ^ 8 +
    octetAt data (offset + 2) * 2 ^ 16 + octetAt data (offset + 3) * 2 ^ 24)

def word64 (data : Array UInt8) (offset : Nat) : UInt64 :=
  word32 data offset + (word32 data (offset + 4) <<< 32)

def rotateLeft (value : UInt64) (count : UInt64) : UInt64 :=
  (value <<< count) ||| (value >>> (64 - count))

def swapOctets (value : UInt64) : UInt64 :=
  UInt64.ofNat (Bytes.toNatBE (Bytes.ofNatLE 8 value.toNat))

def foldProduct (left right : UInt64) : UInt64 :=
  let product := left.toNat * right.toNat
  UInt64.ofNat product ^^^ UInt64.ofNat (product / 2 ^ 64)

def prime32A : UInt64 := 0x9E3779B1
def prime32B : UInt64 := 0x85EBCA77
def prime32C : UInt64 := 0xC2B2AE3D

def prime64A : UInt64 := 0x9E3779B185EBCA87
def prime64B : UInt64 := 0xC2B2AE3D27D4EB4F
def prime64C : UInt64 := 0x165667B19E3779F9
def prime64D : UInt64 := 0x85EBCA77C2B2AE63
def prime64E : UInt64 := 0x27D4EB2F165667C5

def avalanche (value : UInt64) : UInt64 :=
  let value := (value ^^^ (value >>> 33)) * prime64B
  let value := (value ^^^ (value >>> 29)) * prime64C
  value ^^^ (value >>> 32)

end AbiBuild.Digest
