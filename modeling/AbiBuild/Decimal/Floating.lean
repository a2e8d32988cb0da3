import AbiBuild.Decimal.Shortest

/-!
# Floating-point numbers as text

Numbers from `0.0001` on and below `10 ^ 16` are written positionally, with at least one digit on
either side of the point; all others with an exponent.
-/

namespace AbiBuild.Decimal

/-- How many bits of a word hold the fraction and the exponent. -/
structure FloatingFormat where
  fractionBits : Nat
  exponentBits : Nat
  deriving DecidableEq, Repr

def single : FloatingFormat := ⟨23, 8⟩

def double : FloatingFormat := ⟨52, 11⟩

def firstPositional : Int := -4

def endPositional : Int := 16

def positional (digits : List Char) (power : Int) : String :=
  if power < 0 then
    String.ofList ("0.".toList ++ List.replicate (-power - 1).toNat '0' ++ digits)
  else
    let whole := power.toNat + 1
    let padded := digits ++ List.replicate (whole - digits.length) '0'
    let fraction := padded.drop whole
    String.ofList (padded.take whole ++ '.' :: (if fraction.isEmpty then ['0'] else fraction))

def exponential (digits : List Char) (power : Int) : String :=
  let fraction := digits.drop 1
  String.ofList (digits.take 1 ++ if fraction.isEmpty then [] else '.' :: fraction) ++ "e" ++
    toString power

def Decimal.text (value : Decimal) : String :=
  let (digits, power) := value.scientific
  if firstPositional ≤ power && power < endPositional then positional digits power
  else exponential digits power

namespace FloatingFormat

/-- The text of the number that the bits of a word mean. -/
def text (format : FloatingFormat) (bits : Nat) : String :=
  let fraction := bits % 2 ^ format.fractionBits
  let exponent := bits / 2 ^ format.fractionBits % 2 ^ format.exponentBits
  let negative := bits / 2 ^ (format.fractionBits + format.exponentBits) % 2 = 1
  let sign := if negative then "-" else ""
  let lowest : Int := 2 - 2 ^ (format.exponentBits - 1) - format.fractionBits
  if exponent = 2 ^ format.exponentBits - 1 then
    if fraction = 0 then sign ++ "inf" else "NaN"
  else if exponent = 0 then
    if fraction = 0 then sign ++ "0.0"
    else sign ++ (Binary.shortest ⟨fraction, lowest, false⟩).text
  else
    let mantissa := 2 ^ format.fractionBits + fraction
    sign ++ (Binary.shortest
      ⟨mantissa, lowest + exponent - 1, fraction = 0 && 1 < exponent⟩).text

end FloatingFormat

end AbiBuild.Decimal
