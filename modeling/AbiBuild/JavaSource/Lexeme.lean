/-!
# Lexemes of Java text

The text is cut into lexemes, each with the white space and comments before it.  Literals are taken
whole, so that brackets and quotes inside them do not count; a text may hold expressions, which may
hold literals and comments in turn.  Numbers and names are words, and every other character is a
lexeme of its own.
-/

namespace AbiBuild.JavaSource

inductive Token
  | word (text : List Char)
  | mark (value : Char)
  | literal (text : List Char)
  deriving DecidableEq, Repr

def Token.text : Token → List Char
  | word text => text
  | mark value => [value]
  | literal text => text

structure Lexeme where
  /-- White space and comments before the token. -/
  before : List Char
  token : Token
  deriving DecidableEq, Repr

def isSpace (value : Char) : Bool :=
  value = ' ' || value = '\t' || value = '\r' || value = '\n' || value = '\x0b' || value = '\x0c'

def isWordChar (value : Char) : Bool :=
  value.isAlphanum || value = '_' || value = '$' || 0x80 ≤ value.toNat

def taking (taken : List Char) (result : List Char × List Char) : List Char × List Char :=
  (taken ++ result.1, result.2)

/-- Where skipped text stands. -/
inductive Gap
  | between
  | lineComment
  | blockComment
  deriving DecidableEq, Repr

def skipped : Gap → List Char → List Char × List Char
  | _, [] => ([], [])
  | .between, '/' :: '/' :: rest => taking ['/', '/'] (skipped .lineComment rest)
  | .between, '/' :: '*' :: rest => taking ['/', '*'] (skipped .blockComment rest)
  | .between, value :: rest =>
    if isSpace value then taking [value] (skipped .between rest) else ([], value :: rest)
  | .lineComment, value :: rest =>
    taking [value] (skipped (if value = '\n' then .between else .lineComment) rest)
  | .blockComment, '*' :: '/' :: rest => taking ['*', '/'] (skipped .between rest)
  | .blockComment, value :: rest => taking [value] (skipped .blockComment rest)

/-- What encloses a character of a literal. -/
inductive Enclosure
  | quotes
  | textBlock
  | character
  /-- Braces around an expression, or inside one. -/
  | braces
  | lineComment
  | blockComment
  deriving DecidableEq, Repr

def literalEnd : List Enclosure → List Char → List Char × List Char
  | [], rest => ([], rest)
  | _, [] => ([], [])
  | .quotes :: outer, '\\' :: value :: rest =>
    taking ['\\', value]
      (literalEnd (if value = '\x7b' then .braces :: .quotes :: outer else .quotes :: outer) rest)
  | .quotes :: outer, value :: rest =>
    taking [value] (literalEnd (if value = '"' then outer else .quotes :: outer) rest)
  | .textBlock :: outer, '\\' :: value :: rest =>
    taking ['\\', value]
      (literalEnd (if value = '\x7b' then .braces :: .textBlock :: outer else .textBlock :: outer)
        rest)
  | .textBlock :: outer, '"' :: '"' :: '"' :: rest =>
    taking ['"', '"', '"'] (literalEnd outer rest)
  | .textBlock :: outer, value :: rest => taking [value] (literalEnd (.textBlock :: outer) rest)
  | .character :: outer, '\\' :: value :: rest =>
    taking ['\\', value] (literalEnd (.character :: outer) rest)
  | .character :: outer, value :: rest =>
    taking [value] (literalEnd (if value = '\'' then outer else .character :: outer) rest)
  | .braces :: outer, '"' :: '"' :: '"' :: rest =>
    taking ['"', '"', '"'] (literalEnd (.textBlock :: .braces :: outer) rest)
  | .braces :: outer, '/' :: '/' :: rest =>
    taking ['/', '/'] (literalEnd (.lineComment :: .braces :: outer) rest)
  | .braces :: outer, '/' :: '*' :: rest =>
    taking ['/', '*'] (literalEnd (.blockComment :: .braces :: outer) rest)
  | .braces :: outer, value :: rest =>
    let open? :=
      if value = '"' then .quotes :: .braces :: outer
      else if value = '\'' then .character :: .braces :: outer
      else if value = '\x7b' then .braces :: .braces :: outer
      else if value = '\x7d' then outer
      else .braces :: outer
    taking [value] (literalEnd open? rest)
  | .lineComment :: outer, value :: rest =>
    taking [value] (literalEnd (if value = '\n' then outer else .lineComment :: outer) rest)
  | .blockComment :: outer, '*' :: '/' :: rest => taking ['*', '/'] (literalEnd outer rest)
  | .blockComment :: outer, value :: rest =>
    taking [value] (literalEnd (.blockComment :: outer) rest)

/-- The token at the beginning of a text and what follows it. -/
def token : Char → List Char → Token × List Char
  | '"', '"' :: '"' :: rest =>
    let (taken, rest) := taking ['"', '"', '"'] (literalEnd [.textBlock] rest)
    (.literal taken, rest)
  | first, rest =>
    if first = '"' then
      let (taken, rest) := taking [first] (literalEnd [.quotes] rest)
      (.literal taken, rest)
    else if first = '\'' then
      let (taken, rest) := taking [first] (literalEnd [.character] rest)
      (.literal taken, rest)
    else if isWordChar first then
      (.word (first :: rest.takeWhile isWordChar), rest.dropWhile isWordChar)
    else (.mark first, rest)

def lexemesWithin : Nat → List Char → List Lexeme
  | 0, _ => []
  | count + 1, text =>
    match skipped .between text with
    | (_, []) => []
    | (before, first :: rest) =>
      let (found, rest) := token first rest
      ⟨before, found⟩ :: lexemesWithin count rest

/-- A mark at the beginning that only says how the text is encoded. -/
def withoutOrderMark (text : List Char) : List Char :=
  if text.head? = some '\uFEFF' then text.drop 1 else text

def lexemes (text : List Char) : List Lexeme :=
  lexemesWithin text.length (withoutOrderMark text)

end AbiBuild.JavaSource
