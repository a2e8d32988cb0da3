import AbiBuild.Bytes

/-!
# JSON

Values are written with two spaces for each level, one member or item on a line.
-/

namespace AbiBuild.Text

inductive Json
  | null
  | text (value : String)
  | list (items : List Json)
  | record (members : List (String × Json))

namespace Json

def escapedChar (value : Char) : List Char :=
  match value with
  | '"' => ['\\', '"']
  | '\\' => ['\\', '\\']
  | '\n' => ['\\', 'n']
  | '\r' => ['\\', 'r']
  | '\t' => ['\\', 't']
  | '\x08' => ['\\', 'b']
  | '\x0c' => ['\\', 'f']
  | value =>
    if value.toNat < 0x20 then ['\\', 'u'] ++ (Bytes.hexText 4 value.toNat).toList else [value]

def quotedText (text : String) : String :=
  String.ofList ('"' :: text.toList.flatMap escapedChar ++ ['"'])

def newLine (level : Nat) : String :=
  String.ofList ('\n' :: List.replicate (2 * level) ' ')

def bracketed (opening closing : String) (level : Nat) (entries : List String) : String :=
  if entries.isEmpty then opening ++ closing
  else
    opening ++ String.intercalate "," (entries.map (newLine (level + 1) ++ ·)) ++ newLine level ++
      closing

mutual

def render (level : Nat) : Json → String
  | null => "null"
  | text value => quotedText value
  | list items => bracketed "[" "]" level (renderItems (level + 1) items)
  | record members => bracketed "\x7b" "\x7d" level (renderMembers (level + 1) members)

def renderItems (level : Nat) : List Json → List String
  | [] => []
  | item :: others => item.render level :: renderItems level others

def renderMembers (level : Nat) : List (String × Json) → List String
  | [] => []
  | (name, value) :: others =>
    (quotedText name ++ ": " ++ value.render level) :: renderMembers level others

end

def pretty (value : Json) : String := value.render 0

end Json

end AbiBuild.Text
