import AbiBuild.Text.Split

/-!
# Blanks and lines

The characters with the property White_Space, and the lines of a text, which end at a line feed or
at a carriage return followed by one.
-/

namespace AbiBuild.Text

def blankRanges : List (Nat × Nat) :=
  [(0x09, 0x0D), (0x20, 0x20), (0x85, 0x85), (0xA0, 0xA0), (0x1680, 0x1680), (0x2000, 0x200A),
    (0x2028, 0x2029), (0x202F, 0x202F), (0x205F, 0x205F), (0x3000, 0x3000)]

def isBlank (value : Char) : Bool :=
  blankRanges.any fun (first, last) => first ≤ value.toNat && value.toNat ≤ last

def withoutBlanks (text : List Char) : List Char :=
  text.filter fun value => !isBlank value

def trimmedChars (text : List Char) : List Char :=
  ((text.dropWhile isBlank).reverse.dropWhile isBlank).reverse

def trimmed (text : String) : String :=
  String.ofList (trimmedChars text.toList)

def withoutReturn (line : List Char) : List Char :=
  if line.getLast? = some '\r' then line.dropLast else line

def lines (text : String) : List String :=
  match (pieces '\n' text.toList).reverse with
  | [] => []
  | last :: ended =>
    (ended.reverse.map fun line => String.ofList (withoutReturn line)) ++
      if last.isEmpty then [] else [String.ofList last]

end AbiBuild.Text
