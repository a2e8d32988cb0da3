import AbiBuild.Digest.Xxh64
import AbiBuild.Zstandard.Block

/-!
# Zstandard frames

Compressed content is a sequence of frames, each a header and blocks.  Content is written in raw
blocks.  Reading takes every kind of block, skippable frames and checksums; a frame that names a
dictionary is refused.
-/

namespace AbiBuild.Zstandard

def frameMagic : Bytes := [0x28, 0xB5, 0x2F, 0xFD]

def blockLimit : Nat := 131072

def windowLimit : Nat := 134217729

def blockHead (last : Bool) (size : Nat) : Bytes :=
  Bytes.ofNatLE 3 (8 * size + last.toNat)

def rawBlocks : Nat → Bytes → Bytes
  | 0, content => blockHead true content.length ++ content
  | count + 1, content =>
    if content.length ≤ blockLimit then blockHead true content.length ++ content
    else
      blockHead false blockLimit ++ content.take blockLimit ++
        rawBlocks count (content.drop blockLimit)

def compress (content : Bytes) : Bytes :=
  frameMagic ++ [0x00, 0x38] ++ rawBlocks (content.length / blockLimit) content

structure Header where
  window : Nat
  contentSize : Option Nat
  hasChecksum : Bool
  deriving Repr

def windowOf (descriptor : Nat) : Nat :=
  let base := 2 ^ (10 + descriptor / 8)
  base + base / 8 * (descriptor % 8)

def header : Reader Header := do
  let flags ← number 1
  let singleSegment := flags / 32 % 2 = 1
  if flags / 8 % 2 = 1 then failure
  let window? ← if singleSegment then pure none else some <$> windowOf <$> number 1
  let dictionary ← number ([0, 1, 2, 4].getD (flags % 4) 0)
  if dictionary ≠ 0 then failure
  let contentSize ← match flags / 64 with
    | 0 => if singleSegment then some <$> number 1 else pure none
    | 1 => (fun size => some (size + 256)) <$> number 2
    | 2 => some <$> number 4
    | _ => some <$> number 8
  let window := window?.getD (contentSize.getD 0)
  if window > windowLimit then failure
  pure ⟨window, contentSize, flags / 4 % 2 = 1⟩

def blocks (longest : Nat) : Nat → Memory → Reader Bytes
  | 0, _ => failure
  | count + 1, memory => do
    let head ← number 3
    let size := head / 8
    if size > longest then failure
    let memory ← match head / 2 % 4 with
      | 0 => memory.write <$> octets size
      | 1 => (fun octets => memory.write (List.replicate size (octets.headD 0))) <$> octets 1
      | 2 => (do memory.afterPacked? longest (← octets size) : Reader Memory)
      | _ => failure
    if head % 2 = 1 then pure memory.written.reverse else blocks longest count memory

def frame (count : Nat) : Reader Bytes := do
  let magic ← number 4
  if magic / 16 = 0x184D2A5 then
    let size ← number 4
    let _ ← octets size
    pure []
  else if magic = Bytes.toNatLE frameMagic then
    let header ← header
    let content ← blocks (min header.window blockLimit) count .start
    if header.contentSize.any (· ≠ content.length) then failure
    if header.hasChecksum then
      let checksum ← number 4
      if checksum ≠ (Digest.Xxh64.digest content).toNat % 2 ^ 32 then failure
    pure content
  else failure

def frames : Nat → Bytes → Option Bytes
  | 0, _ => none
  | count + 1, bytes => do
    let (content, rest) ← frame bytes.length bytes
    if rest.isEmpty then pure content else (content ++ ·) <$> frames count rest

def decompress? (bytes : Bytes) : Option Bytes :=
  frames (bytes.length + 1) bytes

end AbiBuild.Zstandard
