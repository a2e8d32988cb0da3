import AbiBuild.JavaSource.Lexeme
import AbiBuild.Text.Blank

/-!
# The outline of Java text

Brackets are matched first, so that what stands between them is one tree and nothing in it counts
as top level.  The trees are then cut into items: package declarations, type declarations, and
anything else that may stand there, statements and methods included.
-/

namespace AbiBuild.JavaSource

inductive Bracket
  | round
  | square
  | curly
  deriving DecidableEq, Repr

inductive TokenTree
  | leaf (lexeme : Lexeme)
  | group (bracket : Bracket) (inner : List TokenTree)

def opening? : Token → Option Bracket
  | .mark '(' => some .round
  | .mark '[' => some .square
  | .mark '\x7b' => some .curly
  | _ => none

def isClosing : Token → Bool
  | .mark ')' | .mark ']' | .mark '\x7d' => true
  | _ => false

/-- A bracket that is still open, and the trees before it, last first. -/
structure OpenGroup where
  bracket : Bracket
  before : List TokenTree

def closeGroup (inside : List TokenTree) (group : OpenGroup) : List TokenTree :=
  .group group.bracket inside.reverse :: group.before

def treesFrom (found : List TokenTree) : List OpenGroup → List Lexeme → List TokenTree
  | outer, [] => (outer.foldl closeGroup found).reverse
  | outer, lexeme :: rest =>
    match opening? lexeme.token with
    | some bracket => treesFrom [] (⟨bracket, found⟩ :: outer) rest
    | none =>
      match isClosing lexeme.token, outer with
      | true, group :: outer => treesFrom (closeGroup found group) outer rest
      | _, outer => treesFrom (.leaf lexeme :: found) outer rest

def trees (lexemes : List Lexeme) : List TokenTree := treesFrom [] [] lexemes

namespace TokenTree

def isWord (text : String) : TokenTree → Bool
  | leaf lexeme => lexeme.token = .word text.toList
  | _ => false

def word? : TokenTree → Option (List Char)
  | leaf ⟨_, .word text⟩ => some text
  | _ => none

def isMark (value : Char) : TokenTree → Bool
  | leaf lexeme => lexeme.token = .mark value
  | _ => false

def isGroup (bracket : Bracket) : TokenTree → Bool
  | group found _ => found = bracket
  | _ => false

def spelled : TokenTree → List Char
  | leaf lexeme => lexeme.before ++ lexeme.token.text
  | group _ _ => []

def tokenText : TokenTree → List Char
  | leaf lexeme => lexeme.token.text
  | group _ _ => []

end TokenTree

open TokenTree

/-! ## Modifiers -/

def modifierWords : List String :=
  ["public", "protected", "private", "abstract", "static", "final", "strictfp", "default",
    "synchronized", "native", "transient", "volatile", "sealed"]

def isModifier (tree : TokenTree) : Bool :=
  modifierWords.any fun word => tree.isWord word

def afterAnnotationName : List TokenTree → List TokenTree
  | dot :: name :: rest =>
    if dot.isMark '.' && name.word?.isSome then afterAnnotationName rest
    else if dot.isGroup .round then name :: rest
    else dot :: name :: rest
  | [last] => if last.isGroup .round then [] else [last]
  | [] => []

/-- Annotations and modifiers at the beginning do not tell items apart.  The count bounds their
number. -/
def afterModifiersWithin : Nat → List TokenTree → List TokenTree
  | 0, rest => rest
  | count + 1, trees =>
    match trees with
    | at? :: name :: rest =>
      if at?.isMark '@' && name.word?.isSome && !name.isWord "interface" then
        afterModifiersWithin count (afterAnnotationName rest)
      else if at?.isWord "synchronized" && name.isGroup .round then trees
      else if at?.isWord "non" && name.isMark '-' then afterModifiersWithin count rest
      else if isModifier at? then afterModifiersWithin count (name :: rest)
      else trees
    | _ => trees

def afterModifiers (trees : List TokenTree) : List TokenTree :=
  afterModifiersWithin trees.length trees

/-! ## Where statements end -/

def expressionWords : List String := ["new", "switch"]

/-- What follows a declaration, a method or an expression.  It ends at a semicolon, or at braces
unless they belong to an expression. -/
def afterSimple : (inExpression : Bool) → List TokenTree → List TokenTree
  | _, [] => []
  | inExpression, tree :: rest =>
    if tree.isMark ';' then rest
    else if tree.isGroup .curly && !inExpression then rest
    else
      let arrow := tree.isMark '-' && rest.head?.any (·.isMark '>')
      let opens := tree.isMark '=' || arrow || expressionWords.any fun word => tree.isWord word
      afterSimple (inExpression || opens) rest

def afterBraces (trees : List TokenTree) : List TokenTree :=
  (trees.dropWhile fun tree => !tree.isGroup .curly).drop 1

def afterSemicolon (trees : List TokenTree) : List TokenTree :=
  (trees.dropWhile fun tree => !tree.isMark ';').drop 1

def afterHandlers : List TokenTree → List TokenTree
  | word :: head :: body :: rest =>
    if word.isWord "catch" && head.isGroup .round then afterHandlers rest
    else if word.isWord "finally" then body :: rest
    else word :: head :: body :: rest
  | [word, body] => if word.isWord "finally" then [] else [word, body]
  | rest => rest

def isLabel (name colon : TokenTree) (rest : List TokenTree) : Bool :=
  name.word?.isSome && colon.isMark ':' && !rest.head?.any (·.isMark ':')

def afterStatement : Nat → List TokenTree → List TokenTree
  | 0, rest => rest
  | count + 1, trees =>
    match afterModifiers trees with
    | [] => []
    | first :: rest =>
      if first.isGroup .curly then rest
      else if first.isWord "if" then
        match afterStatement count (rest.drop 1) with
        | next :: others =>
          if next.isWord "else" then afterStatement count others else next :: others
        | [] => []
      else if first.isWord "while" || first.isWord "for" then afterStatement count (rest.drop 1)
      else if first.isWord "do" then afterSemicolon (afterStatement count rest)
      else if first.isWord "try" then afterHandlers (afterBraces rest)
      else if first.isWord "switch" || first.isWord "synchronized" then afterBraces rest
      else
        match rest with
        | colon :: body =>
          if isLabel first colon body then afterStatement count body
          else afterSimple false (first :: rest)
        | [] => []

/-! ## Items -/

inductive Item
  /-- A package by its name as it is written. -/
  | package (name : List Char)
  | type (name : List Char)
  | other
  deriving DecidableEq, Repr

def packageText (trees : List TokenTree) : List Char :=
  match trees.takeWhile fun tree => !tree.isMark ';' with
  | [] => []
  | first :: rest => first.tokenText ++ rest.flatMap spelled

def typeWords : List String := ["class", "interface", "enum"]

def typeName? : List TokenTree → Option (List Char)
  | first :: second :: third :: _ =>
    if typeWords.any fun word => first.isWord word then second.word?
    else if first.isMark '@' && second.isWord "interface" then third.word?
    else if first.isWord "record" && (third.isGroup .round || third.isMark '<') then second.word?
    else none
  | _ => none

def hasBody (trees : List TokenTree) : Bool :=
  (trees.find? fun tree => tree.isGroup .curly || tree.isMark ';').any (·.isGroup .curly)

def item (trees : List TokenTree) : Item × List TokenTree :=
  let declared := afterModifiers trees
  match declared with
  | [] => (.other, [])
  | first :: rest =>
    if first.isWord "package" then (.package (packageText rest), afterSemicolon rest)
    else if first.isWord "import" then (.other, afterSemicolon rest)
    else
      match typeName? declared, hasBody declared with
      | some name, true => (.type name, afterBraces declared)
      | _, _ => (.other, afterStatement trees.length trees)

def itemsWithin : Nat → List TokenTree → List Item
  | 0, _ => []
  | _, [] => []
  | count + 1, trees =>
    let (found, rest) := item trees
    found :: itemsWithin count rest

def outline (text : String) : List Item :=
  let found := trees (lexemes text.toList)
  itemsWithin found.length found

end AbiBuild.JavaSource
