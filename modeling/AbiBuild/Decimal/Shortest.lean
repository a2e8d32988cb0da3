/-!
# Shortest decimals

A binary number is shown with the fewest decimal digits that read back as it.  Any decimal between
the midpoints to its two neighbours reads back; the midpoints themselves do when the mantissa is
even.  On the grid of decimals with a given number of digits only the two points around the number
have to be tried.
-/

namespace AbiBuild.Decimal

/-- The number `mantissa * 2 ^ exponent`, and whether its lower neighbour is only half as far away
as its upper one. -/
structure Binary where
  mantissa : Nat
  exponent : Int
  lowerIsNear : Bool
  deriving DecidableEq, Repr

/-- The number `digits * 10 ^ exponent`. -/
structure Decimal where
  digits : Nat
  exponent : Int
  deriving DecidableEq, Repr

namespace Binary

def quotient (value : Binary) (quarters : Nat) : Nat × Nat :=
  (quarters * 2 ^ (value.exponent - 2).toNat, 2 ^ (2 - value.exponent).toNat)

def magnitude (value : Binary) : Int :=
  let (above, below) := value.quotient (4 * value.mantissa)
  if below ≤ above then (Nat.toDigits 10 (above / below)).length - 1
  else
    match (List.range 400).find? fun power => below ≤ above * 10 ^ power with
    | some power => -power
    | none => -400

/-- Multiples of `10 ^ scale` that read back as the number, the nearest one first; the upper one
counts as nearer when both are equally far. -/
def onGrid (value : Binary) (scale : Int) : List Nat :=
  let scaled (quarters : Nat) : Nat := (value.quotient quarters).1 * 10 ^ (-scale).toNat
  let unit := (value.quotient 0).2 * 10 ^ scale.toNat
  let exact := scaled (4 * value.mantissa)
  let low := scaled (4 * value.mantissa - if value.lowerIsNear then 1 else 2)
  let high := scaled (4 * value.mantissa + 2)
  let even := value.mantissa % 2 = 0
  let readsBack (multiple : Nat) : Bool :=
    let point := multiple * unit
    (low < point || (even && low = point)) && (point < high || (even && point = high))
  let floor := exact / unit
  let candidates :=
    if 2 * (exact - floor * unit) < unit then [floor, floor + 1] else [floor + 1, floor]
  candidates.filter readsBack

def shortest (value : Binary) : Decimal :=
  let onGridOf (count : Nat) : Option Decimal :=
    let scale := value.magnitude - (count : Int)
    (value.onGrid scale).head?.map (⟨·, scale⟩)
  ((List.range 17).findSome? onGridOf).getD ⟨value.mantissa, 0⟩

end Binary

def Decimal.scientific (value : Decimal) : List Char × Int :=
  let digits := Nat.toDigits 10 value.digits
  ((digits.reverse.dropWhile (· = '0')).reverse, value.exponent + digits.length - 1)

end AbiBuild.Decimal
