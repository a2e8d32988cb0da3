import AbiBuild.Text.Printable

/-!
# Quoted text

Text inside a diagnostic stands between quotes.  The quote, the backslash and characters without a
visible form are escaped, so the quoted form is readable on one line.
-/

namespace AbiBuild.Text

private def hexDigits : (fuel : Nat) → Nat → List Char
  | 0, _ => []
  | fuel + 1, value =>
    let digit := Nat.digitChar (value % 16)
    if value < 16 then [digit] else hexDigits fuel (value / 16) ++ [digit]

def escapeCode (value : Char) : List Char :=
  ['\\', 'u', '\x7b'] ++ hexDigits 8 value.toNat ++ ['\x7d']

def escapeChar (quote value : Char) : List Char :=
  if value = Char.ofNat 0 then ['\\', '0']
  else if value = '\t' then ['\\', 't']
  else if value = '\r' then ['\\', 'r']
  else if value = '\n' then ['\\', 'n']
  else if value = '\\' || value = quote then ['\\', value]
  else if isPrintable value then [value]
  else escapeCode value

def quoted (text : String) : String :=
  String.ofList ('"' :: text.toList.flatMap (escapeChar '"') ++ ['"'])

def quotedChar (value : Char) : String :=
  String.ofList ('\'' :: escapeChar '\'' value ++ ['\''])

end AbiBuild.Text
