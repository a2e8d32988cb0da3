import AbiBuild.Bytes

/-!
# Entropy coding

What a packed block holds is written in bits.  Tables are described from the first bit on; what is
packed with them is read backwards, from its last bit.
-/

namespace AbiBuild.Zstandard

/-! ## Bits -/

abbrev Bits := List Bool

namespace Bits

def toNat (bits : Bits) : Nat := bits.foldl (fun value bit => 2 * value + bit.toNat) 0

def ofBytes (bytes : Bytes) : Bits :=
  bytes.flatMap fun octet => (List.range 8).map octet.toNat.testBit

/-- The bits from the last one on.  The highest bit that is set in the last octet only marks where
they begin. -/
def backward? (bytes : Bytes) : Option Bits :=
  if bytes.getLastD 0 = 0 then none else some (((ofBytes bytes).reverse.dropWhile (!·)).drop 1)

end Bits

abbrev BitReader := StateT Bits Option

def bits (count : Nat) : BitReader Bits := fun bits =>
  let taken := bits.take count
  if taken.length < count then none else some (taken, bits.drop count)

/-- The least significant bit comes first. -/
def forward (width : Nat) : BitReader Nat := (Bits.toNat ·.reverse) <$> bits width

/-- The most significant bit comes first. -/
def backward (width : Nat) : BitReader Nat := Bits.toNat <$> bits width

/-! ## Tables of states -/

/-- The symbol that a state stands for, and how many bits say which state of those from a base on is
next. -/
structure Cell where
  symbol : Nat
  width : Nat
  base : Nat
  deriving Repr

structure Table where
  accuracy : Nat
  cells : Array Cell
  deriving Repr

namespace Table

def single (symbol : Nat) : Table := ⟨0, #[⟨symbol, 0, 0⟩]⟩

/-- The symbols of the states.  A symbol that is rarer than one state has its state at the end; the
states of the others are strewn over the rest. -/
def strewn (size : Nat) (counts : List Int) : Array Nat :=
  let symbols := List.range counts.length
  let rare := symbols.filter (counts.getD · 0 = -1)
  let common := symbols.flatMap fun symbol => List.replicate (counts.getD symbol 0).toNat symbol
  let visited := (List.range size).map fun turn => turn * (size / 2 + size / 8 + 3) % size
  let places := visited.filter (· < size - rare.length)
  let last := rare.mapIdx fun index symbol => (size - 1 - index, symbol)
  (places.zip common ++ last).foldl (fun cells cell => cells.setIfInBounds cell.1 cell.2)
    (Array.replicate size 0)

def ofCounts (accuracy : Nat) (counts : List Int) : Table :=
  let symbols := strewn (2 ^ accuracy) counts
  let cells := symbols.mapIdx fun index symbol =>
    let turn := (counts.getD symbol 0).natAbs + (symbols.toList.take index).count symbol
    let width := accuracy - turn.log2
    ⟨symbol, width, turn * 2 ^ width - 2 ^ accuracy⟩
  ⟨accuracy, cells⟩

def start (table : Table) : BitReader Nat := backward table.accuracy

def cell (table : Table) (state : Nat) : BitReader Cell := fun bits =>
  table.cells[state]?.map (·, bits)

def next (table : Table) (state : Nat) : BitReader Nat := do
  let cell ← table.cell state
  (cell.base + ·) <$> backward cell.width

end Table

/-! ## Described tables -/

/-- How many more symbols in a row have no state. -/
def absent : Nat → BitReader Nat
  | 0 => failure
  | limit + 1 => do
    let run ← forward 2
    if run = 3 then (3 + ·) <$> absent limit else pure run

/-- The number of states of one symbol, −1 where it is rarer than one state.  What may still be left
bounds how wide it is written. -/
def stateCount (left : Nat) : BitReader Int := do
  let width := (left + 1).log2
  let low ← forward width
  let short := 2 ^ (width + 1) - 1 - (left + 1)
  if low < short then return low - 1
  let high ← forward 1
  return if high = 1 then (low + 2 ^ width - short : Nat) - 1 else low - 1

/-- The numbers of states of at most so many symbols, until no states are left.  The first symbols
may be known to have none. -/
def stateCounts : (symbols absentNow left : Nat) → BitReader (List Int)
  | _, _, 0 => pure []
  | 0, _, _ => failure
  | symbols + 1, absentNow + 1, left => (0 :: ·) <$> stateCounts symbols absentNow left
  | symbols + 1, 0, left => do
    let count ← stateCount left
    let run ← if count = 0 then absent (symbols + 1) else pure 0
    (count :: ·) <$> stateCounts symbols run (left - count.natAbs)

/-- The table that is described at the beginning of the octets, and the octets behind it. -/
def table? (accuracy symbols : Nat) (bytes : Bytes) : Option (Table × Bytes) := do
  let (table, rest) ← (do
    let own ← (5 + ·) <$> forward 4
    if own > accuracy then failure
    Table.ofCounts own <$> stateCounts symbols 0 (2 ^ own) : BitReader Table) (Bits.ofBytes bytes)
  some (table, bytes.drop (bytes.length - rest.length / 8))

/-! ## Prefix codes -/

/-- For each row of the longest width of a code, which symbol has a code that begins it, and the
width of that code. -/
structure PrefixCode where
  longest : Nat
  rows : Array (Nat × Nat)
  deriving Repr

namespace PrefixCode

def widthLimit : Nat := 12

/-- A symbol of a higher weight has a shorter code, of weight 0 none.  The weight of the last symbol
is what fills up the rows. -/
def ofWeights? (weights : List Nat) : Option PrefixCode := do
  let taken := weights.foldl (fun taken weight => taken + 2 ^ weight / 2) 0
  let longest := taken.log2 + 1
  let left := 2 ^ longest - taken
  let weights := weights ++ [left.log2 + 1]
  let lowest := weights.count 1
  if taken = 0 ∨ longest > widthLimit ∨ left ≠ 2 ^ left.log2 then none
  if lowest < 2 ∨ lowest % 2 = 1 then none
  let rows := (List.range longest).flatMap fun weight =>
    ((List.range weights.length).filter (weights.getD · 0 = weight + 1)).flatMap fun symbol =>
      List.replicate (2 ^ weight) (symbol, longest - weight)
  some ⟨longest, rows.toArray⟩

/-- Symbols that two states read in turn, until there are no bits for the next state. -/
def interleaved (table : Table) : (limit state other : Nat) → Bits → Option (List Nat)
  | 0, _, _, _ => none
  | limit + 1, state, other, bits => do
    let cell ← table.cells[state]?
    let after ← table.cells[other]?
    let taken := bits.take cell.width
    if taken.length < cell.width then some [cell.symbol, after.symbol]
    else (cell.symbol :: ·) <$>
      interleaved table limit other (cell.base + Bits.toNat taken) (bits.drop cell.width)

def packedWeights? (bytes : Bytes) : Option (List Nat) := do
  let (table, rest) ← table? 6 256 bytes
  let bits ← Bits.backward? rest
  let ((state, other), bits) ← (do return (← table.start, ← table.start) :
    BitReader (Nat × Nat)) bits
  interleaved table 254 state other bits

def plainWeights (bytes : Bytes) : List Nat :=
  bytes.flatMap fun octet => [octet.toNat / 16, octet.toNat % 16]

def unpack? (code : PrefixCode) : (count : Nat) → Bits → Option Bytes
  | 0, bits => if bits.isEmpty then some [] else none
  | count + 1, bits => do
    let ahead := bits.take code.longest
    let (symbol, width) ← code.rows[Bits.toNat ahead * 2 ^ (code.longest - ahead.length)]?
    if ahead.length < width then none
    (UInt8.ofNat symbol :: ·) <$> code.unpack? count (bits.drop width)

end PrefixCode

end AbiBuild.Zstandard
