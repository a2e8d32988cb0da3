import AbiBuild.Zstandard.Entropy

/-!
# Packed blocks

A packed block holds literal octets and sequences.  A sequence writes some of the literals, and then
repeats octets that were written before.  Later blocks of a frame may use the codes of earlier ones.
-/

namespace AbiBuild.Zstandard

abbrev Reader := StateT Bytes Option

def octets (count : Nat) : Reader Bytes := fun bytes => Bytes.split? count bytes

def number (width : Nat) : Reader Nat := Bytes.toNatLE <$> octets width

/-! ## Literals -/

def prefixCode : Reader PrefixCode := do
  let head ← number 1
  let weights ← if head < 128 then
      (do PrefixCode.packedWeights? (← octets head) : Reader (List Nat))
    else
      let bytes ← octets ((head - 126) / 2)
      pure ((PrefixCode.plainWeights bytes).take (head - 127))
  PrefixCode.ofWeights? weights

/-- Four streams hold a quarter of the octets each.  The sizes of the first three are given. -/
def fourStreams (code : PrefixCode) (size : Nat) : Reader Bytes := do
  let first ← number 2
  let second ← number 2
  let third ← number 2
  let quarter := (size + 3) / 4
  if size < 3 * quarter then failure
  let streams ← [first, second, third].mapM fun long => do
    code.unpack? quarter (← Bits.backward? (← octets long))
  let last ← code.unpack? (size - 3 * quarter) (← Bits.backward? (← get))
  set ([] : Bytes)
  return streams.flatten ++ last

structure Literals where
  content : Bytes
  /-- What later blocks may use. -/
  code : Option PrefixCode

def packedLiterals (kept : Option PrefixCode) (head : Nat) (longest : Nat) : Reader Literals := do
  let format := head / 4 % 4
  let sizes ← (fun rest => head / 16 + 16 * rest) <$> number (max 2 (format + 1))
  let width := max 10 (4 * format + 6)
  let size := sizes % 2 ^ width
  if size > longest then failure
  let content ← octets (sizes / 2 ^ width)
  let (code, content) ← if head % 4 = 2 then prefixCode content else (·, content) <$> kept
  let (literals, _) ← if format = 0 then
      (do return (← code.unpack? size (← Bits.backward? content), []) : Option (Bytes × Bytes))
    else fourStreams code size content
  return ⟨literals, some code⟩

def literals (kept : Option PrefixCode) (longest : Nat) : Reader Literals := do
  let head ← number 1
  if head % 4 ≥ 2 then packedLiterals kept head longest
  else
    let size ← match head / 4 % 4 with
      | 1 => (fun rest => head / 16 + 16 * rest) <$> number 1
      | 3 => (fun rest => head / 16 + 16 * rest) <$> number 2
      | _ => pure (head / 8)
    if size > longest then failure
    let content ← if head % 4 = 0 then octets size
      else (fun octets => List.replicate size (octets.headD 0)) <$> octets 1
    return ⟨content, kept⟩

/-! ## Sequences -/

/-- The numbers that one symbol covers.  So many bits say which of them is meant. -/
structure Range where
  base : Nat
  width : Nat

/-- One of the three numbers of a sequence: what its symbols cover, how fine a described table may be,
and the table that is used where none is described. -/
structure Field where
  ranges : List Range
  accuracy : Nat
  usual : Table

namespace Field

def rangesFrom : (base : Nat) → List Nat → List Range
  | _, [] => []
  | base, width :: widths => ⟨base, width⟩ :: rangesFrom (base + 2 ^ width) widths

def literalLength : Field where
  ranges := rangesFrom 0 (List.replicate 16 0 ++ [1, 1, 1, 1, 2, 2, 3, 3, 4] ++
    (List.range 11).map (· + 6))
  accuracy := 9
  usual := Table.ofCounts 6 ([4, 3] ++ List.replicate 11 2 ++ [1, 1, 1] ++ List.replicate 9 2 ++
    [3, 2, 1, 1, 1, 1, 1, -1, -1, -1, -1])

def matchLength : Field where
  ranges := rangesFrom 3 (List.replicate 32 0 ++ [1, 1, 1, 1, 2, 2, 3, 3, 4, 4, 5] ++
    (List.range 10).map (· + 7))
  accuracy := 9
  usual := Table.ofCounts 6 ([1, 4, 3] ++ List.replicate 6 2 ++ List.replicate 37 1 ++
    List.replicate 7 (-1))

def offset : Field where
  ranges := (List.range 32).map fun width => ⟨2 ^ width, width⟩
  accuracy := 8
  usual := Table.ofCounts 5 (List.replicate 6 1 ++ [2, 2, 2] ++ List.replicate 15 1 ++
    List.replicate 5 (-1))

def table (field : Field) (mode : Nat) (kept : Option Table) : Reader Table :=
  match mode with
  | 0 => pure field.usual
  | 1 => do
    let symbol ← number 1
    if symbol ≥ field.ranges.length then failure
    return Table.single symbol
  | 2 => fun bytes => table? field.accuracy field.ranges.length bytes
  | _ => fun bytes => kept.map (·, bytes)

def value (field : Field) (table : Table) (state : Nat) : BitReader Nat := do
  let cell ← table.cell state
  let some range := field.ranges[cell.symbol]? | failure
  (range.base + ·) <$> backward range.width

end Field

structure Tables where
  literalLength : Table
  offset : Table
  matchLength : Table

/-- So many literals, and then so many octets from before.  The offset says from where, in the way
that `Memory.goBack` takes it. -/
structure Sequence where
  literals : Nat
  offset : Nat
  length : Nat
  deriving Repr

namespace Tables

def sequences (tables : Tables) : (count literals offset length : Nat) → BitReader (List Sequence)
  | 0, _, _, _ => pure []
  | count + 1, literals, offset, length => do
    let distance ← Field.offset.value tables.offset offset
    let long ← Field.matchLength.value tables.matchLength length
    let plain ← Field.literalLength.value tables.literalLength literals
    if count = 0 then return [⟨plain, distance, long⟩]
    let literals ← tables.literalLength.next literals
    let length ← tables.matchLength.next length
    let offset ← tables.offset.next offset
    (⟨plain, distance, long⟩ :: ·) <$> tables.sequences count literals offset length

def sequences? (tables : Tables) (count : Nat) (bytes : Bytes) : Option (List Sequence) := do
  let bits ← Bits.backward? bytes
  let (found, rest) ← (do
    let literals ← tables.literalLength.start
    let offset ← tables.offset.start
    let length ← tables.matchLength.start
    tables.sequences count literals offset length : BitReader (List Sequence)) bits
  if rest.isEmpty then some found else none

end Tables

def sequenceCount : Reader Nat := do
  let head ← number 1
  if head < 128 then pure head
  else if head < 255 then (256 * (head - 128) + ·) <$> number 1
  else (0x7F00 + ·) <$> number 2

/-! ## What was written -/

/-- What later blocks of a frame go back to. -/
structure Memory where
  code : Option PrefixCode
  tables : Option Tables
  /-- The last three offsets, the latest first. -/
  recent : Nat × Nat × Nat
  /-- What was written, the latest octet first. -/
  written : Bytes

namespace Memory

def start : Memory := ⟨none, none, (1, 4, 8), []⟩

def write (memory : Memory) (content : Bytes) : Memory :=
  { memory with written := content.reverse ++ memory.written }

/-- How far back a sequence goes.  Its first numbers stand for recent offsets. -/
def goBack (memory : Memory) (sequence : Sequence) : Nat × Memory :=
  let (first, second, third) := memory.recent
  let take (offset : Nat) (recent : Nat × Nat × Nat) := (offset, { memory with recent })
  if sequence.offset > 3 then take (sequence.offset - 3) (sequence.offset - 3, first, second)
  else match sequence.offset + if sequence.literals = 0 then 1 else 0 with
    | 2 => take second (second, first, third)
    | 3 => take third (third, first, second)
    | 4 => take (first - 1) (first - 1, first, second)
    | _ => take first memory.recent

def again (offset : Nat) : (count : Nat) → Bytes → Option Bytes
  | 0, written => some written
  | count + 1, written => do again offset count ((← written[offset - 1]?) :: written)

def follow (memory : Memory) : List Sequence → (literals : Bytes) → Option Memory
  | [], literals => some (memory.write literals)
  | sequence :: sequences, literals => do
    let (plain, literals) ← Bytes.split? sequence.literals literals
    let (offset, memory) := memory.goBack sequence
    if offset = 0 then none
    let written ← again offset sequence.length (memory.write plain).written
    { memory with written }.follow sequences literals

def unpack (memory : Memory) (longest : Nat) : Reader Memory := do
  let literals ← literals memory.code longest
  let memory := { memory with code := literals.code }
  let count ← sequenceCount
  if count = 0 then return memory.write literals.content
  let modes ← number 1
  if modes % 4 ≠ 0 then failure
  let kept := memory.tables
  let tables : Tables :=
    { literalLength := ← Field.literalLength.table (modes / 64) (kept.map (·.literalLength))
      offset := ← Field.offset.table (modes / 16 % 4) (kept.map (·.offset))
      matchLength := ← Field.matchLength.table (modes / 4 % 4) (kept.map (·.matchLength)) }
  let sequences ← tables.sequences? count (← get)
  set ([] : Bytes)
  { memory with tables := some tables }.follow sequences literals.content

def afterPacked? (memory : Memory) (longest : Nat) (bytes : Bytes) : Option Memory := do
  let (next, rest) ← memory.unpack longest bytes
  let size := next.written.length - memory.written.length
  if rest.isEmpty ∧ size ≤ longest then some next else none

end Memory

end AbiBuild.Zstandard
