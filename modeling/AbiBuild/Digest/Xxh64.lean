import AbiBuild.Digest.Words

/-!
# The 64-bit digest XXH64, without a seed

Its low half closes a compressed frame that carries a checksum.
-/

namespace AbiBuild.Digest.Xxh64

def round (lane input : UInt64) : UInt64 :=
  rotateLeft (lane + input * prime64B) 31 * prime64A

def merge (digest lane : UInt64) : UInt64 :=
  (digest ^^^ round 0 lane) * prime64A + prime64D

structure Lanes where
  first : UInt64
  second : UInt64
  third : UInt64
  fourth : UInt64

def Lanes.start : Lanes :=
  ⟨prime64A + prime64B, prime64B, 0, 0 - prime64A⟩

def Lanes.absorb (data : Array UInt8) (lanes : Lanes) (stripe : Nat) : Lanes :=
  let offset := 32 * stripe
  ⟨round lanes.first (word64 data offset), round lanes.second (word64 data (offset + 8)),
    round lanes.third (word64 data (offset + 16)), round lanes.fourth (word64 data (offset + 24))⟩

def Lanes.join (lanes : Lanes) : UInt64 :=
  let digest := rotateLeft lanes.first 1 + rotateLeft lanes.second 7 +
    rotateLeft lanes.third 12 + rotateLeft lanes.fourth 18
  merge (merge (merge (merge digest lanes.first) lanes.second) lanes.third) lanes.fourth

def absorbWord (data : Array UInt8) (start : Nat) (digest : UInt64) (index : Nat) : UInt64 :=
  rotateLeft (digest ^^^ round 0 (word64 data (start + 8 * index))) 27 * prime64A + prime64D

def absorbHalf (data : Array UInt8) (start : Nat) (digest : UInt64) : UInt64 :=
  rotateLeft (digest ^^^ (word32 data start * prime64A)) 23 * prime64B + prime64C

def absorbOctet (data : Array UInt8) (start : Nat) (digest : UInt64) (index : Nat) : UInt64 :=
  rotateLeft (digest ^^^ (UInt64.ofNat (octetAt data (start + index)) * prime64E)) 11 * prime64A

def digest (bytes : Bytes) : UInt64 :=
  let data := bytes.toArray
  let size := data.size
  let stripes := size / 32
  let opening :=
    if stripes = 0 then prime64E
    else ((List.range stripes).foldl (Lanes.absorb data) Lanes.start).join
  let tail := 32 * stripes
  let words := (size - tail) / 8
  let afterWords := (List.range words).foldl (absorbWord data tail) (opening + UInt64.ofNat size)
  let tail := tail + 8 * words
  let halves := (size - tail) / 4
  let afterHalf := if halves = 0 then afterWords else absorbHalf data tail afterWords
  let tail := tail + 4 * halves
  avalanche ((List.range (size - tail)).foldl (absorbOctet data tail) afterHalf)

end AbiBuild.Digest.Xxh64
