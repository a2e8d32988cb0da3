import AbiBuild.Digest.Words

/-!
# The 64-bit digest XXH3, without a seed

Sources, class path and project pairs are told apart by this digest.  It treats inputs of up to
16, 128 and 240 octets each in its own way, and longer ones in stripes of 64 octets, sixteen
stripes to a block.
-/

namespace AbiBuild.Digest.Xxh3

def secret : Array UInt8 := #[
  0xb8, 0xfe, 0x6c, 0x39, 0x23, 0xa4, 0x4b, 0xbe, 0x7c, 0x01, 0x81, 0x2c, 0xf7, 0x21, 0xad, 0x1c,
  0xde, 0xd4, 0x6d, 0xe9, 0x83, 0x90, 0x97, 0xdb, 0x72, 0x40, 0xa4, 0xa4, 0xb7, 0xb3, 0x67, 0x1f,
  0xcb, 0x79, 0xe6, 0x4e, 0xcc, 0xc0, 0xe5, 0x78, 0x82, 0x5a, 0xd0, 0x7d, 0xcc, 0xff, 0x72, 0x21,
  0xb8, 0x08, 0x46, 0x74, 0xf7, 0x43, 0x24, 0x8e, 0xe0, 0x35, 0x90, 0xe6, 0x81, 0x3a, 0x26, 0x4c,
  0x3c, 0x28, 0x52, 0xbb, 0x91, 0xc3, 0x00, 0xcb, 0x88, 0xd0, 0x65, 0x8b, 0x1b, 0x53, 0x2e, 0xa3,
  0x71, 0x64, 0x48, 0x97, 0xa2, 0x0d, 0xf9, 0x4e, 0x38, 0x19, 0xef, 0x46, 0xa9, 0xde, 0xac, 0xd8,
  0xa8, 0xfa, 0x76, 0x3f, 0xe3, 0x9c, 0x34, 0x3f, 0xf9, 0xdc, 0xbb, 0xc7, 0xc7, 0x0b, 0x4f, 0x1d,
  0x8a, 0x51, 0xe0, 0x4b, 0xcd, 0xb4, 0x59, 0x31, 0xc8, 0x9f, 0x7e, 0xc9, 0xd9, 0x78, 0x73, 0x64,
  0xea, 0xc5, 0xac, 0x83, 0x34, 0xd3, 0xeb, 0xc3, 0xc5, 0x81, 0xa0, 0xff, 0xfa, 0x13, 0x63, 0xeb,
  0x17, 0x0d, 0xdd, 0x51, 0xb7, 0xf0, 0xda, 0x49, 0xd3, 0x16, 0x55, 0x26, 0x29, 0xd4, 0x68, 0x9e,
  0x2b, 0x16, 0xbe, 0x58, 0x7d, 0x47, 0xa1, 0xfc, 0x8f, 0xf8, 0xb8, 0xd1, 0x7a, 0xd0, 0x31, 0xce,
  0x45, 0xcb, 0x3a, 0x8f, 0x95, 0x16, 0x04, 0x28, 0xaf, 0xd7, 0xfb, 0xca, 0xbb, 0x4b, 0x40, 0x7e]

def shortAvalanche (value : UInt64) : UInt64 :=
  let value := (value ^^^ (value >>> 37)) * 0x165667919E3779F9
  value ^^^ (value >>> 32)

def strongAvalanche (value : UInt64) (size : Nat) : UInt64 :=
  let value := value ^^^ rotateLeft value 49 ^^^ rotateLeft value 24
  let value := value * 0x9FB21C651E98DF25
  let value := value ^^^ ((value >>> 35) + UInt64.ofNat size)
  let value := value * 0x9FB21C651E98DF25
  value ^^^ (value >>> 28)

def digestEmpty : UInt64 :=
  avalanche (word64 secret 56 ^^^ word64 secret 64)

def digestUpTo3 (data : Array UInt8) : UInt64 :=
  let size := data.size
  let combined := octetAt data 0 * 2 ^ 16 + octetAt data (size / 2) * 2 ^ 24 +
    octetAt data (size - 1) + size * 2 ^ 8
  avalanche (UInt64.ofNat combined ^^^ (word32 secret 0 ^^^ word32 secret 4))

def digestUpTo8 (data : Array UInt8) : UInt64 :=
  let input := word32 data (data.size - 4) + (word32 data 0 <<< 32)
  strongAvalanche (input ^^^ (word64 secret 8 ^^^ word64 secret 16)) data.size

def digestUpTo16 (data : Array UInt8) : UInt64 :=
  let low := word64 data 0 ^^^ (word64 secret 24 ^^^ word64 secret 32)
  let high := word64 data (data.size - 8) ^^^ (word64 secret 40 ^^^ word64 secret 48)
  shortAvalanche (UInt64.ofNat data.size + swapOctets low + high + foldProduct low high)

def mix16 (data : Array UInt8) (offset secretOffset : Nat) : UInt64 :=
  foldProduct (word64 data offset ^^^ word64 secret secretOffset)
    (word64 data (offset + 8) ^^^ word64 secret (secretOffset + 8))

def digestUpTo128 (data : Array UInt8) : UInt64 :=
  let size := data.size
  let pairs := (size - 1) / 32 + 1
  let mixed := (List.range pairs).foldl (fun total index =>
    total + mix16 data (16 * index) (32 * index) +
      mix16 data (size - 16 * (index + 1)) (32 * index + 16)) (UInt64.ofNat size * prime64A)
  shortAvalanche mixed

def digestUpTo240 (data : Array UInt8) : UInt64 :=
  let size := data.size
  let opening := (List.range 8).foldl (fun total index =>
    total + mix16 data (16 * index) (16 * index)) (UInt64.ofNat size * prime64A)
  let middle := (List.range (size / 16 - 8)).foldl (fun total index =>
    total + mix16 data (16 * (index + 8)) (16 * index + 3)) (shortAvalanche opening)
  shortAvalanche (middle + mix16 data (size - 16) 119)

abbrev Lanes := Vector UInt64 8

def Lanes.start : Lanes :=
  #v[prime32C, prime64A, prime64B, prime64C, prime64D, prime32B, prime64E, prime32A]

def Lanes.absorb (data : Array UInt8) (offset secretOffset : Nat) (lanes : Lanes) : Lanes :=
  Vector.ofFn fun lane =>
    let neighbour := lane.val + 1 - 2 * (lane.val % 2)
    let keyed := word64 data (offset + 8 * lane.val) ^^^ word64 secret (secretOffset + 8 * lane.val)
    lanes[lane] + word64 data (offset + 8 * neighbour) +
      (keyed &&& (0xFFFFFFFF : UInt64)) * (keyed >>> (32 : UInt64))

def Lanes.scramble (lanes : Lanes) : Lanes :=
  Vector.ofFn fun lane =>
    let value := lanes[lane]
    (value ^^^ (value >>> 47) ^^^ word64 secret (128 + 8 * lane.val)) * prime32A

def Lanes.absorbStripes (data : Array UInt8) (start count : Nat) (lanes : Lanes) : Lanes :=
  (List.range count).foldl (fun lanes stripe =>
    lanes.absorb data (start + 64 * stripe) (8 * stripe)) lanes

def Lanes.join (lanes : Lanes) (size : Nat) : UInt64 :=
  let pair (left right : UInt64) (offset : Nat) : UInt64 :=
    foldProduct (left ^^^ word64 secret offset) (right ^^^ word64 secret (offset + 8))
  shortAvalanche (UInt64.ofNat size * prime64A +
    pair lanes[0] lanes[1] 11 + pair lanes[2] lanes[3] 27 +
    pair lanes[4] lanes[5] 43 + pair lanes[6] lanes[7] 59)

/-- Whole blocks are scrambled after their sixteen stripes; the last 64 octets always count once
more, as a stripe of their own. -/
def digestLong (data : Array UInt8) : UInt64 :=
  let size := data.size
  let blocks := (size - 1) / 1024
  let lanes := (List.range blocks).foldl (fun lanes block =>
    (lanes.absorbStripes data (1024 * block) 16).scramble) Lanes.start
  let stripes := (size - 1 - 1024 * blocks) / 64
  let lanes := lanes.absorbStripes data (1024 * blocks) stripes
  (lanes.absorb data (size - 64) 121).join size

def digest (bytes : Bytes) : UInt64 :=
  let data := bytes.toArray
  if data.size = 0 then digestEmpty
  else if data.size ≤ 3 then digestUpTo3 data
  else if data.size ≤ 8 then digestUpTo8 data
  else if data.size ≤ 16 then digestUpTo16 data
  else if data.size ≤ 128 then digestUpTo128 data
  else if data.size ≤ 240 then digestUpTo240 data
  else digestLong data

end AbiBuild.Digest.Xxh3
