import AbiBuild.JavaSource.Declaration
import AbiBuild.Proofs.JavaSource.Layout
import AbiBuild.Proofs.JavaSource.Statements

/-!
# Compilation units

A compilation unit is a row of package declarations, imports, type declarations, and statements and
methods.  The shapes of these are told here as far as the top level goes: first words, semicolons
and braces.  What stands in brackets is left open, so bodies, arguments and conditions may hold
anything.
-/

namespace AbiBuild.JavaSource

open TokenTree

variable {trees rest core whole after : List TokenTree}

/-- What may stand at the top level: a package by the parts of its name, a type by its name, or
something else. -/
inductive Part
  | package (components : List (List Char))
  | type (name : List Char)
  | other

namespace Part

def package? : Part → Option (List (List Char))
  | package components => some components
  | _ => none

def type? : Part → Option (List Char)
  | type name => some name
  | _ => none

def item : Part → Item
  | package components => .package (Text.joinPieces '.' components)
  | type name => .type name
  | other => .other

end Part

/-! ## Grammar -/

def IsIdentifier (text : List Char) : Prop :=
  ∀ value ∈ text, isWordChar value ∧ Text.isBlank value = false

inductive DottedRest : List (List Char) → List TokenTree → Prop
  | nil : DottedRest [] []
  | next {text : List Char} {components : List (List Char)} {rest : List TokenTree}
      (identifier : IsIdentifier text) (more : DottedRest components rest) :
      DottedRest (text :: components) (.leaf ⟨[], .mark '.'⟩ :: .leaf ⟨[], .word text⟩ :: rest)

inductive Dotted : List (List Char) → List TokenTree → Prop
  | name {before text : List Char} {components : List (List Char)} {rest : List TokenTree}
      (identifier : IsIdentifier text) (more : DottedRest components rest) :
      Dotted (text :: components) (.leaf ⟨before, .word text⟩ :: rest)

inductive Declares : List Char → List TokenTree → Prop
  | word {name : List Char} {word : String} {keyword identifier : TokenTree} {rest : List TokenTree}
      (listed : word ∈ typeWords) (isWord : keyword.isWord word)
      (named : identifier.word? = some name) : Declares name (keyword :: identifier :: rest)
  | annotationType {name : List Char} {sign keyword identifier : TokenTree} {rest : List TokenTree}
      (isSign : sign.isMark '@') (isInterface : keyword.isWord "interface")
      (named : identifier.word? = some name) : Declares name (sign :: keyword :: identifier :: rest)
  | record {name : List Char} {keyword identifier next : TokenTree} {rest : List TokenTree}
      (isRecord : keyword.isWord "record") (named : identifier.word? = some name)
      (parameters : next.isGroup .round ∨ next.isMark '<') :
      Declares name (keyword :: identifier :: next :: rest)

def IsBodiless (trees : List TokenTree) : Prop :=
  ∃ front semicolon behind, trees = front ++ semicolon :: behind ∧ semicolon.isMark ';' ∧
    ∀ tree ∈ front, tree.isGroup .curly = false

/-- The trees of a compilation unit, by its parts.  What looks like a record may be a method without
a body. -/
inductive CompilationUnit : List Part → List TokenTree → Prop
  | nil : CompilationUnit [] []
  | package {parts : List Part} {components : List (List Char)} {keyword semicolon : TokenTree}
      {whole name rest : List TokenTree}
      (modified : Modified whole (keyword :: (name ++ [semicolon])))
      (isPackage : keyword.isWord "package") (dotted : Dotted components name)
      (isEnd : semicolon.isMark ';') (more : CompilationUnit parts rest) :
      CompilationUnit (.package components :: parts) (whole ++ rest)
  | imported {parts : List Part} {keyword semicolon : TokenTree} {name rest : List TokenTree}
      (isImport : keyword.isWord "import") (noEnd : ∀ tree ∈ name, tree.isMark ';' = false)
      (isEnd : semicolon.isMark ';') (more : CompilationUnit parts rest) :
      CompilationUnit (.other :: parts) (keyword :: (name ++ semicolon :: rest))
  | type {parts : List Part} {name : List Char} {body : TokenTree}
      {whole header rest : List TokenTree}
      (modified : Modified whole (header ++ [body])) (declares : Declares name header)
      (noEnd : ∀ tree ∈ header, tree.isMark ';' = false)
      (noBody : ∀ tree ∈ header, tree.isGroup .curly = false) (isBody : body.isGroup .curly)
      (more : CompilationUnit parts rest) : CompilationUnit (.type name :: parts) (whole ++ rest)
  | other {parts : List Part} {continuing : List String} {whole core rest : List TokenTree}
      (modified : Modified whole core) (statement : Statement continuing core)
      (noDeclaration : ∀ first ∈ core.head?,
        first.isWord "package" = false ∧ first.isWord "import" = false)
      (noType : ∀ name, Declares name core → IsBodiless core)
      (ends : ∀ word ∈ continuing, ∀ next ∈ rest.head?, next.isWord word = false)
      (more : CompilationUnit parts rest) : CompilationUnit (.other :: parts) (whole ++ rest)

/-! ## Items -/

theorem DottedRest.spelled_eq {components : List (List Char)} (dotted : DottedRest components trees) :
    trees.flatMap spelled = components.flatMap ('.' :: ·) := by
  induction dotted with
  | nil => rfl
  | next identifier more ih => simp [spelled, Token.text, ih]

theorem joinPieces_cons (separator : Char) (piece : List Char) (others : List (List Char)) :
    Text.joinPieces separator (piece :: others) = piece ++ others.flatMap (separator :: ·) := by
  induction others generalizing piece with
  | nil => simp [Text.joinPieces]
  | cons next others ih =>
      rw [Text.joinPieces, ih, List.flatMap_cons]
      · rfl
      · simp

theorem Dotted.noEnd {components : List (List Char)} (dotted : Dotted components trees) :
    ∀ tree ∈ trees, tree.isMark ';' = false := by
  have later : ∀ {components trees}, DottedRest components trees →
      ∀ tree ∈ trees, tree.isMark ';' = false := by
    intro components trees dotted
    induction dotted with
    | nil => simp
    | next identifier more ih =>
        rw [List.forall_mem_cons, List.forall_mem_cons]
        exact ⟨rfl, rfl, ih⟩
  cases dotted with
  | name identifier more => exact List.forall_mem_cons.mpr ⟨rfl, later more⟩

theorem takeWhile_noEnd {semicolon : TokenTree} (noEnd : ∀ tree ∈ trees, tree.isMark ';' = false)
    (isEnd : semicolon.isMark ';') (after : List TokenTree) :
    (trees ++ semicolon :: after).takeWhile (fun tree => !tree.isMark ';') = trees := by
  rw [List.takeWhile_append_of_pos (by simpa using noEnd),
    List.takeWhile_cons_of_neg (by simp [isEnd]), List.append_nil]

theorem Dotted.packageText_eq {components : List (List Char)} (dotted : Dotted components trees)
    {semicolon : TokenTree} (isEnd : semicolon.isMark ';') (after : List TokenTree) :
    packageText (trees ++ semicolon :: after) = Text.joinPieces '.' components := by
  rw [packageText, takeWhile_noEnd dotted.noEnd isEnd]
  cases dotted with
  | name identifier more => simp [tokenText, Token.text, more.spelled_eq, joinPieces_cons]

theorem item_package {components : List (List Char)} {keyword semicolon : TokenTree}
    {name : List TokenTree} (modified : Modified whole (keyword :: (name ++ [semicolon])))
    (isPackage : keyword.isWord "package") (dotted : Dotted components name)
    (isEnd : semicolon.isMark ';') (after : List TokenTree) :
    item (whole ++ after) = (.package (Text.joinPieces '.' components), after) := by
  have leaves := afterModifiers_modified modified
    (unmodified_of_isWord isPackage (by decide) (by decide)) after
  rw [item, leaves]
  simp only [isPackage, ↓reduceIte, List.append_assoc, List.singleton_append]
  rw [dotted.packageText_eq isEnd, afterSemicolon_append dotted.noEnd isEnd]

theorem item_import {keyword semicolon : TokenTree} {name : List TokenTree}
    (isImport : keyword.isWord "import") (noEnd : ∀ tree ∈ name, tree.isMark ';' = false)
    (isEnd : semicolon.isMark ';') (after : List TokenTree) :
    item (keyword :: (name ++ semicolon :: after)) = (.other, after) := by
  have leaves := afterModifiers_modified (.unmodified (keyword :: (name ++ [semicolon])))
    (unmodified_of_isWord isImport (by decide) (by decide)) after
  rw [List.cons_append, List.append_assoc, List.singleton_append] at leaves
  rw [item, leaves]
  simp only [isWord_of_isWord isImport (show "import" ≠ "package" by decide), isImport,
    Bool.false_eq_true, ↓reduceIte]
  rw [afterSemicolon_append noEnd isEnd]

namespace Declares

variable {name : List Char}

theorem exists_unmodified (declares : Declares name trees) :
    ∃ first others, trees = first :: others ∧ Unmodified first others ∧
      first.isWord "package" = false ∧ first.isWord "import" = false := by
  cases declares with
  | word listed isWord named =>
      rw [typeWords, List.mem_cons, List.mem_cons, List.mem_singleton] at listed
      rcases listed with rfl | rfl | rfl <;>
        exact ⟨_, _, rfl, unmodified_of_isWord isWord (by decide) (by decide),
          isWord_of_isWord isWord (by decide), isWord_of_isWord isWord (by decide)⟩
  | annotationType isSign isInterface named =>
      refine ⟨_, _, rfl, ⟨fun modifier => ?_, fun _ => ⟨_, rfl, isInterface⟩, fun non => ?_⟩,
        isWord_of_isMark isSign _, isWord_of_isMark isSign _⟩
      · rw [isModifier_of_forall fun word _ => isWord_of_isMark isSign word] at modifier
        cases modifier
      · rw [isWord_of_isMark isSign] at non
        cases non
  | record isRecord named parameters =>
      exact ⟨_, _, rfl, unmodified_of_isWord isRecord (by decide) (by decide),
        isWord_of_isWord isRecord (by decide), isWord_of_isWord isRecord (by decide)⟩

theorem typeName?_eq (declares : Declares name trees) (next : TokenTree) (after : List TokenTree) :
    typeName? (trees ++ next :: after) = some name := by
  cases declares with
  | @word word keyword identifier rest listed isWord named =>
      obtain ⟨third, others, rest_eq⟩ : ∃ third others, rest ++ next :: after = third :: others :=
        List.exists_cons_of_ne_nil (by simp)
      rw [List.cons_append, List.cons_append, rest_eq, typeName?,
        if_pos (List.any_eq_true.mpr ⟨word, listed, isWord⟩), named]
  | annotationType isSign isInterface named =>
      rw [List.cons_append, List.cons_append, List.cons_append, typeName?]
      simp [typeWords, isWord_of_isMark isSign, isSign, isInterface, named]
  | record isRecord named parameters =>
      rw [List.cons_append, List.cons_append, List.cons_append, typeName?]
      simp [typeWords, isWord_of_isWord isRecord, isMark_of_isWord isRecord, isRecord, parameters,
        named]

end Declares

theorem hasBody_eq {header : List TokenTree} {body : TokenTree}
    (noEnd : ∀ tree ∈ header, tree.isMark ';' = false)
    (noBody : ∀ tree ∈ header, tree.isGroup .curly = false) (isBody : body.isGroup .curly)
    (after : List TokenTree) : hasBody (header ++ body :: after) = true := by
  rw [hasBody, List.find?_append, List.find?_eq_none.mpr, Option.none_or, List.find?_cons_of_pos]
  · simpa using isBody
  · simp [isBody]
  · intro tree listed
    simp [noEnd tree listed, noBody tree listed]

theorem IsBodiless.hasBody_eq (bodiless : IsBodiless trees) (after : List TokenTree) :
    hasBody (trees ++ after) = false := by
  obtain ⟨front, semicolon, behind, rfl, isEnd, noBody⟩ := bodiless
  rw [List.append_assoc, List.cons_append]
  induction front with
  | nil => simp [hasBody, isEnd, isGroup_of_isMark isEnd]
  | cons first front ih =>
      rw [List.forall_mem_cons] at noBody
      have later := ih noBody.2
      rw [hasBody] at later ⊢
      rw [List.cons_append, List.find?_cons]
      split
      next => exact noBody.1
      next => exact later

theorem item_type {name : List Char} {header : List TokenTree} {body : TokenTree}
    (modified : Modified whole (header ++ [body])) (declares : Declares name header)
    (noEnd : ∀ tree ∈ header, tree.isMark ';' = false)
    (noBody : ∀ tree ∈ header, tree.isGroup .curly = false) (isBody : body.isGroup .curly)
    (after : List TokenTree) : item (whole ++ after) = (.type name, after) := by
  have named := declares.typeName?_eq body after
  have bodied := hasBody_eq noEnd noBody isBody after
  have following := afterBraces_append noBody isBody after
  obtain ⟨first, others, rfl, unmodified, noPackage, noImport⟩ := declares.exists_unmodified
  rw [List.cons_append] at modified named bodied following
  have leaves := afterModifiers_modified modified (unmodified.append [body]) after
  rw [List.append_assoc, List.singleton_append] at leaves
  rw [item, leaves]
  simp only [noPackage, noImport, named, bodied, following, Bool.false_eq_true, ↓reduceIte]

theorem Modified.exists_append (modified : Modified trees core) : ∃ front, trees = front ++ core := by
  induction modified with
  | unmodified core => exact ⟨[], rfl⟩
  | word _ _ _ ih =>
      obtain ⟨front, rfl⟩ := ih
      exact ⟨_ :: front, rfl⟩
  | nonSealed _ _ _ ih =>
      obtain ⟨front, rfl⟩ := ih
      exact ⟨_ :: _ :: front, rfl⟩
  | @marker sign name others rest core _ _ _ _ _ _ ih =>
      obtain ⟨front, rfl⟩ := ih
      exact ⟨sign :: name :: (others ++ front), by simp⟩
  | @annotationWith sign name arguments others rest core _ _ _ _ _ _ ih =>
      obtain ⟨front, rfl⟩ := ih
      exact ⟨sign :: name :: (others ++ arguments :: front), by simp⟩

def EndsWell (trees : List TokenTree) : Prop :=
  ∃ front last, trees = front ++ [last] ∧ (last.isMark ';' ∨ last.isGroup .curly)

theorem EndsWell.append (ends : EndsWell trees) (front : List TokenTree) :
    EndsWell (front ++ trees) := by
  obtain ⟨others, last, rfl, isEnd⟩ := ends
  exact ⟨front ++ others, last, by simp, isEnd⟩

theorem Handlers.endsWell {front handlers : List TokenTree} {block : TokenTree}
    (handles : Handlers handlers) (isBlock : block.isGroup .curly) :
    EndsWell (front ++ block :: handlers) := by
  induction handles generalizing front block with
  | nil => exact ⟨front, block, rfl, .inr isBlock⟩
  | @next keyword caught caughtBlock rest isCatch isCaught isBlock' more ih =>
      have last := @ih (front ++ [block, keyword, caught]) caughtBlock isBlock'
      simpa using last

theorem Statement.endsWell {continuing : List String} (statement : Statement continuing trees) :
    EndsWell trees := by
  have through : ∀ {body core : List TokenTree}, Modified body core → EndsWell core →
      ∀ front, EndsWell (front ++ body) := by
    intro body core modified ends front
    obtain ⟨modifiers, rfl⟩ := modified.exists_append
    exact (ends.append modifiers).append front
  induction statement with
  | block isBlock => exact ⟨[], _, rfl, .inr isBlock⟩
  | simple whole _ _ isEnd => exact ⟨_, _, whole, .inl isEnd⟩
  | braced whole _ _ _ isBraces => exact ⟨_, _, whole, .inr isBraces⟩
  | ifThen _ _ modified _ ih => exact through modified ih [_, _]
  | @ifElse _ _ keyword condition otherwise body _ _ _ _ _ _ _ _ _ modified' _ _ ih =>
      have last := through modified' ih (keyword :: condition :: (body ++ [otherwise]))
      simpa using last
  | loop _ _ _ modified _ ih => exact through modified ih [_, _]
  | @doWhile _ keyword again condition semicolon body _ _ _ _ _ _ isEnd =>
      exact ⟨keyword :: (body ++ [again, condition]), semicolon, by simp, .inl isEnd⟩
  | @tryCatch keyword block resources _ _ _ isBlock handles =>
      exact @Handlers.endsWell (keyword :: resources) _ _ handles isBlock
  | @tryFinally keyword block atLast last resources handlers _ _ _ _ _ isLast =>
      exact ⟨keyword :: (resources ++ block :: (handlers ++ [atLast])), last, by simp, .inr isLast⟩
  | @switch keyword selector block _ _ isBlock => exact ⟨[keyword, selector], block, rfl, .inr isBlock⟩
  | @locked keyword lock block _ _ isBlock => exact ⟨[keyword, lock], block, rfl, .inr isBlock⟩
  | labeled _ _ _ _ _ modified _ ih => exact through modified ih [_, _]

theorem exists_of_typeName? {name : List Char} (named : typeName? trees = some name) :
    ∃ first second third others, trees = first :: second :: third :: others ∧
      ((∃ word ∈ typeWords, first.isWord word ∧ second.word? = some name) ∨
        (first.isMark '@' ∧ second.isWord "interface" ∧ third.word? = some name) ∨
        (first.isWord "record" ∧ second.word? = some name ∧
          (third.isGroup .round ∨ third.isMark '<'))) := by
  match trees with
  | [] | [_] | [_, _] => cases named
  | first :: second :: third :: others =>
      refine ⟨first, second, third, others, rfl, ?_⟩
      rw [typeName?] at named
      split at named
      next listed =>
        obtain ⟨word, listed, isWord⟩ := List.any_eq_true.mp listed
        exact .inl ⟨word, listed, isWord, named⟩
      next =>
        split at named
        next interface =>
          rw [Bool.and_eq_true] at interface
          exact .inr (.inl ⟨interface.1, interface.2, named⟩)
        next =>
          split at named
          next record =>
            rw [Bool.and_eq_true, Bool.or_eq_true] at record
            exact .inr (.inr ⟨record.1, named, record.2⟩)
          next => cases named

/-- What ends with a semicolon or braces looks like a type, with more after it, only if it does
without. -/
theorem declares_of_typeName? (ends : EndsWell trees) {name : List Char}
    (named : typeName? (trees ++ after) = some name) : Declares name trees := by
  obtain ⟨front, last, rfl, isEnd⟩ := ends
  have noWord : last.word? = none ∧ (∀ word, last.isWord word = false) ∧ last.isMark '@' = false := by
    rcases isEnd with isEnd | isEnd
    · refine ⟨?_, isWord_of_isMark isEnd, ?_⟩ <;>
      · obtain ⟨before, rfl⟩ := isMark_eq_true_iff.mp isEnd
        rfl
    · refine ⟨?_, isWord_of_isGroup isEnd, isMark_of_isGroup isEnd _⟩
      obtain ⟨inner, rfl⟩ := isGroup_eq_true_iff.mp isEnd
      rfl
  obtain ⟨first, second, third, others, split, shape⟩ := exists_of_typeName? named
  match front with
  | [] =>
      obtain ⟨rfl, -⟩ := List.cons.inj split
      rcases shape with ⟨word, _, isWord, -⟩ | ⟨isSign, -⟩ | ⟨isRecord, -⟩
      · simp [noWord.2.1] at isWord
      · simp [noWord.2.2] at isSign
      · simp [noWord.2.1] at isRecord
  | [head] =>
      obtain ⟨rfl, tail⟩ := List.cons.inj split
      obtain ⟨rfl, -⟩ := List.cons.inj tail
      rcases shape with ⟨_, _, _, named⟩ | ⟨_, isInterface, _⟩ | ⟨_, named, _⟩
      · simp [noWord.1] at named
      · simp [noWord.2.1] at isInterface
      · simp [noWord.1] at named
  | head :: next :: front =>
      obtain ⟨rfl, tail⟩ := List.cons.inj split
      obtain ⟨rfl, more⟩ := List.cons.inj tail
      obtain ⟨third', behind, follows⟩ : ∃ third behind, front ++ [last] = third :: behind :=
        List.exists_cons_of_ne_nil (by simp)
      rw [List.cons_append, List.cons_append, follows]
      rw [List.append_eq, List.append_eq, follows] at more
      obtain ⟨rfl, -⟩ := List.cons.inj more
      rcases shape with ⟨word, listed, isWord, named⟩ | ⟨isSign, isInterface, named⟩ |
        ⟨isRecord, named, parameters⟩
      · exact .word listed isWord named
      · exact .annotationType isSign isInterface named
      · exact .record isRecord named parameters

theorem item_other {continuing : List String} (modified : Modified whole core)
    (statement : Statement continuing core)
    (noDeclaration : ∀ first ∈ core.head?,
      first.isWord "package" = false ∧ first.isWord "import" = false)
    (noType : ∀ name, Declares name core → IsBodiless core)
    (ends : ∀ word ∈ continuing, ∀ next ∈ after.head?, next.isWord word = false) :
    item (whole ++ after) = (.other, after) := by
  have leaves := statement.afterModifiers_eq modified after
  have untyped : ∀ name, typeName? (core ++ after) = some name → hasBody (core ++ after) = false :=
    fun name named => (noType name (declares_of_typeName? statement.endsWell named)).hasBody_eq after
  have enough : core.length ≤ (whole ++ after).length := by
    have length := modified.length_le
    rw [List.length_append]
    omega
  have following := statement.afterStatement_eq modified ends enough
  obtain ⟨first, others, rfl, -⟩ := statement.exists_unmodified
  obtain ⟨noPackage, noImport⟩ := noDeclaration first rfl
  rw [List.cons_append] at leaves untyped
  rw [item, leaves]
  simp only [noPackage, noImport, following, Bool.false_eq_true, ↓reduceIte]
  split
  next name named bodied =>
    rw [untyped name named] at bodied
    cases bodied
  next => rfl

/-! ## Units -/

theorem itemsWithin_unit {parts : List Part} (unit : CompilationUnit parts trees) {count : Nat}
    (enough : trees.length ≤ count) : itemsWithin count trees = parts.map Part.item := by
  -- One item is taken, and at least one tree with it.
  have step : ∀ {whole rest : List TokenTree} {found : Item} {others : List Item}, whole ≠ [] →
      item (whole ++ rest) = (found, rest) →
      (∀ {count}, rest.length ≤ count → itemsWithin count rest = others) →
      ∀ {count}, (whole ++ rest).length ≤ count →
        itemsWithin count (whole ++ rest) = found :: others := by
    intro whole rest found others nonempty taken later count enough
    obtain ⟨first, more, rfl⟩ := List.exists_cons_of_ne_nil nonempty
    obtain ⟨count, rfl⟩ := Nat.exists_eq_add_one.mpr (Nat.lt_of_lt_of_le (by simp) enough)
    rw [List.cons_append, itemsWithin, ← List.cons_append, taken]
    · simp only
      rw [later]
      simp at enough
      omega
    · simp
  induction unit generalizing count with
  | nil => cases count <;> rfl
  | package modified isPackage dotted isEnd more ih =>
      have taken := item_package modified isPackage dotted isEnd
      exact step (modified.ne_nil (by simp)) (taken _) ih enough
  | @imported _ keyword semicolon name rest isImport noEnd isEnd more ih =>
      have taken := item_import isImport noEnd isEnd rest
      have split : keyword :: (name ++ semicolon :: rest) =
          (keyword :: (name ++ [semicolon])) ++ rest := by simp
      rw [split] at taken enough ⊢
      exact step (by simp) taken ih enough
  | type modified declares noEnd noBody isBody more ih =>
      have taken := item_type modified declares noEnd noBody isBody
      exact step (modified.ne_nil (by simp)) (taken _) ih enough
  | other modified statement noDeclaration noType ends more ih =>
      exact step (modified.ne_nil (List.length_pos_iff.mp statement.length_pos))
        (item_other modified statement noDeclaration noType ends) ih enough

theorem outline_of_unit {text : String} {found : List Lexeme} {parts : List Part}
    (laidOut : LaidOut (withoutOrderMark text.toList) found) (matched : Matched found trees)
    (unit : CompilationUnit parts trees) : outline text = parts.map Part.item := by
  rw [outline]
  simp only [lexemes_of_laidOut laidOut, trees_of_matched matched]
  exact itemsWithin_unit unit (Nat.le_refl _)

namespace Part

/-- The types that are declared at the top level. -/
def types (parts : List Part) : List (List Char) := parts.filterMap type?

/-- The name of a type in the package that is declared last, if any is. -/
def qualified (parts : List Part) (name : List Char) : String :=
  String.ofList
    (Text.joinPieces '/' ((parts.filterMap package?).getLast?.getD [] ++ [name]))

theorem typeNames_map_item (parts : List Part) : typeNames (parts.map item) = types parts := by
  rw [typeNames, types, List.filterMap_map]
  congr 1
  funext part
  cases part <;> rfl

theorem packageNames_map_item (parts : List Part) :
    packageNames (parts.map item) = (parts.filterMap package?).map (Text.joinPieces '.') := by
  rw [packageNames, List.filterMap_map, List.map_filterMap]
  congr 1
  funext part
  cases part <;> rfl

end Part

theorem isIdentifier_of_unit {parts : List Part} (unit : CompilationUnit parts trees)
    {components : List (List Char)} (listed : components ∈ parts.filterMap Part.package?) :
    components ≠ [] ∧ ∀ component ∈ components, IsIdentifier component := by
  have later : ∀ {components trees}, DottedRest components trees →
      ∀ component ∈ components, IsIdentifier component := by
    intro components trees dotted
    induction dotted with
    | nil => simp
    | next identifier more ih => exact List.forall_mem_cons.mpr ⟨identifier, ih⟩
  induction unit with
  | nil => cases listed
  | package modified isPackage dotted isEnd more ih =>
      rw [List.filterMap_cons, Part.package?] at listed
      rcases List.mem_cons.mp listed with rfl | inner
      · cases dotted with
        | name identifier more => exact ⟨by simp, List.forall_mem_cons.mpr ⟨identifier, later more⟩⟩
      · exact ih inner
  | imported isImport noEnd isEnd more ih => exact ih listed
  | type modified declares noEnd noBody isBody more ih => exact ih listed
  | other modified statement noDeclaration noType ends more ih => exact ih listed

theorem qualifier_joinPieces {components : List (List Char)}
    (identifiers : ∀ component ∈ components, IsIdentifier component) :
    qualifier (Text.joinPieces '.' components) = Text.joinPieces '/' components := by
  have kept : ∀ {component : List Char}, IsIdentifier component →
      (component.filter fun value => !Text.isBlank value).map
        (fun value => if value = '.' then '/' else value) = component := by
    intro component identifier
    rw [List.filter_eq_self.mpr fun value listed => by simp [(identifier value listed).2]]
    refine (List.map_congr_left fun value listed => if_neg ?_).trans (List.map_id component)
    rintro rfl
    exact absurd (identifier _ listed).1 (by decide)
  cases components with
  | nil => rfl
  | cons first others =>
      rw [List.forall_mem_cons] at identifiers
      rw [qualifier, Text.withoutBlanks, joinPieces_cons, joinPieces_cons, List.filter_append,
        List.map_append, kept identifiers.1]
      congr 1
      replace identifiers := identifiers.2
      induction others with
      | nil => rfl
      | cons next others ih =>
          rw [List.forall_mem_cons] at identifiers
          rw [List.flatMap_cons, List.flatMap_cons, List.filter_append, List.map_append,
            ih identifiers.2, List.filter_cons_of_pos (by decide), List.map_cons, kept identifiers.1,
            if_pos rfl]

theorem joinPieces_concat {separator : Char} {pieces : List (List Char)} (nonempty : pieces ≠ [])
    (last : List Char) : Text.joinPieces separator (pieces ++ [last]) =
      Text.joinPieces separator pieces ++ separator :: last := by
  obtain ⟨first, others, rfl⟩ := List.exists_cons_of_ne_nil nonempty
  rw [List.cons_append, joinPieces_cons, joinPieces_cons]
  simp

theorem declaredType?_unit {parts : List Part} (unit : CompilationUnit parts trees)
    (stem : List Char) : (declaredType? (parts.map Part.item) stem).map String.ofList =
      (preferred stem (Part.types parts)).map (Part.qualified parts) := by
  rw [declaredType?, Part.typeNames_map_item, Part.packageNames_map_item, List.getLast?_map,
    Option.map_map]
  congr 1
  funext name
  rw [Function.comp_apply, Part.qualified]
  congr 1
  cases last : (parts.filterMap Part.package?).getLast? with
  | none => rfl
  | some components =>
      obtain ⟨nonempty, identifiers⟩ := isIdentifier_of_unit unit (List.mem_of_getLast? last)
      rw [Option.map_some, Option.getD_some, joinPieces_concat nonempty]
      simp only [qualifier_joinPieces identifiers]

/-- However a compilation unit is laid out and whatever stands inside its declarations, literals and
comments: a type is found unless none is declared at the top level.  It is the one with the name of
the file if there is one, and else the first one, in the package that is declared last. -/
theorem top_level_type_is_found {text stem : String} {found : List Lexeme} {parts : List Part}
    (laidOut : LaidOut (withoutOrderMark text.toList) found) (matched : Matched found trees)
    (unit : CompilationUnit parts trees) :
    (resolve? text stem = none ↔ Part.types parts = []) ∧
      (stem.toList ∈ Part.types parts →
        resolve? text stem = some (Part.qualified parts stem.toList)) ∧
      ∀ first others, Part.types parts = first :: others → stem.toList ∉ Part.types parts →
        resolve? text stem = some (Part.qualified parts first) := by
  have resolved : resolve? text stem =
      (preferred stem.toList (Part.types parts)).map (Part.qualified parts) := by
    rw [resolve?, outline_of_unit laidOut matched unit, declaredType?_unit unit]
  rw [resolved]
  refine ⟨?_, fun listed => ?_, fun first others types missing => ?_⟩
  · cases types : Part.types parts with
    | nil => simp [preferred]
    | cons first others =>
        rw [preferred]
        split <;> simp
  · rw [preferred, if_pos (List.contains_iff_mem.mpr listed), Option.map_some]
  · rw [preferred, if_neg (by simpa using missing), types, List.head?_cons, Option.map_some]

/-- Braces stand in a literal and in a comment, and one type is declared in another. -/
def nestedSource : String :=
  "package a.b;\n@A(\"\x7d\") class Other \x7b /* \x7d */ class In \x7b\x7d \x7d\nenum Foo \x7b\x7d"

def nestedBody : List Lexeme :=
  [⟨" /* \x7d */ ".toList, .word "class".toList⟩, ⟨[' '], .word "In".toList⟩,
    ⟨[' '], Bracket.curly.opening⟩, ⟨[], Bracket.curly.closing⟩]

def nestedLexemes : List Lexeme :=
  [⟨[], .word "package".toList⟩, ⟨[' '], .word ['a']⟩, ⟨[], .mark '.'⟩, ⟨[], .word ['b']⟩,
    ⟨[], .mark ';'⟩, ⟨['\n'], .mark '@'⟩, ⟨[], .word ['A']⟩, ⟨[], Bracket.round.opening⟩,
    ⟨[], .literal ['"', '\x7d', '"']⟩, ⟨[], Bracket.round.closing⟩, ⟨[' '], .word "class".toList⟩,
    ⟨[' '], .word "Other".toList⟩, ⟨[' '], Bracket.curly.opening⟩] ++ (nestedBody ++
  [⟨[' '], Bracket.curly.closing⟩, ⟨['\n'], .word "enum".toList⟩, ⟨[' '], .word "Foo".toList⟩,
    ⟨[' '], Bracket.curly.opening⟩, ⟨[], Bracket.curly.closing⟩])

def nestedTrees : List TokenTree :=
  [.leaf ⟨[], .word "package".toList⟩, .leaf ⟨[' '], .word ['a']⟩, .leaf ⟨[], .mark '.'⟩,
    .leaf ⟨[], .word ['b']⟩, .leaf ⟨[], .mark ';'⟩] ++
  ([.leaf ⟨['\n'], .mark '@'⟩, .leaf ⟨[], .word ['A']⟩,
    .group .round [.leaf ⟨[], .literal ['"', '\x7d', '"']⟩], .leaf ⟨[' '], .word "class".toList⟩,
    .leaf ⟨[' '], .word "Other".toList⟩,
    .group .curly [.leaf ⟨" /* \x7d */ ".toList, .word "class".toList⟩,
      .leaf ⟨[' '], .word "In".toList⟩, .group .curly []]] ++
  [.leaf ⟨['\n'], .word "enum".toList⟩, .leaf ⟨[' '], .word "Foo".toList⟩, .group .curly []])

theorem laidOut_nestedSource : LaidOut (withoutOrderMark nestedSource.toList) nestedLexemes := by
  have comment : IsLayout " /* \x7d */ ".toList :=
    .space (by decide) (@IsLayout.comment .blockComment " \x7d */".toList [' '] rfl
      (.plain (by decide) nofun nofun (.plain (by decide) nofun nofun
        (.plain (by decide) nofun nofun (.closing _))))
      (.space (by decide) .nil))
  have brace : Closes .quotes ['\x7d', '"'] := .plain (by decide) (by decide) nofun (.closing _)
  iterate 8 first
    | refine .word (isLayout_of_spaces (by decide)) (by decide) (by decide) ?_
    | refine .mark (isLayout_of_spaces (by decide)) (by decide) (by decide) ?_
  refine .cut (by decide) .nil (@IsRead.literal .quotes _ _ rfl brace (by decide)) ?_
  iterate 4 first
    | refine .word (isLayout_of_spaces (by decide)) (by decide) (by decide) ?_
    | refine .mark (isLayout_of_spaces (by decide)) (by decide) (by decide) ?_
  refine .word comment (by decide) (by decide) ?_
  iterate 8 first
    | refine .word (isLayout_of_spaces (by decide)) (by decide) (by decide) ?_
    | refine .mark (isLayout_of_spaces (by decide)) (by decide) (by decide) ?_
  exact .done (.layout .nil)

theorem matched_nestedLexemes : Matched nestedLexemes nestedTrees := by
  have leaf {lexeme : Lexeme} {rest : List Lexeme} {trees : List TokenTree}
      (single : opening? lexeme.token = none ∧ isClosing lexeme.token = false)
      (more : Matched rest trees) : Matched (lexeme :: rest) (.leaf lexeme :: trees) := by
    refine .leaf (fun bracket => ⟨fun same => ?_, fun same => ?_⟩) more
    · rw [same, opening?_opening] at single
      cases single.1
    · rw [same, (opening?_closing bracket).2] at single
      cases single.2
  have body : Matched nestedBody _ :=
    leaf (by decide) (leaf (by decide) (@Matched.group .curly _ _ [] [] _ _ .nil .nil))
  have brace : Matched [⟨[], .literal ['"', '\x7d', '"']⟩] _ := leaf (by decide) .nil
  iterate 7 refine leaf (by decide) ?_
  refine @Matched.group .round _ _ [_] _ _ _ brace ?_
  iterate 2 refine leaf (by decide) ?_
  refine @Matched.group .curly _ _ nestedBody _ _ _ body ?_
  iterate 2 refine leaf (by decide) ?_
  exact @Matched.group .curly _ _ [] [] _ _ .nil .nil

theorem unit_nestedTrees :
    CompilationUnit [.package [['a'], ['b']], .type "Other".toList, .type "Foo".toList]
      nestedTrees := by
  have identifier {value : Char} (letter : isWordChar value ∧ Text.isBlank value = false) :
      IsIdentifier [value] := by simpa [IsIdentifier] using letter
  refine @CompilationUnit.package _ _ _ _ _ [_, _, _] _ (.unmodified _) (by decide)
    (.name (identifier (by decide)) (.next (identifier (by decide)) .nil)) (by decide) ?_
  refine @CompilationUnit.type _ _ _ _ [_, _] _
    (@Modified.annotationWith _ _ _ [] _ _ rfl rfl (by decide) .nil rfl (.unmodified _))
    (@Declares.word _ "class" _ _ _ (by decide) (by decide) rfl) (by decide) (by decide) rfl ?_
  exact @CompilationUnit.type _ _ _ _ [_, _] [] (.unmodified _)
    (@Declares.word _ "enum" _ _ _ (by decide) (by decide) rfl) (by decide) (by decide) rfl .nil

theorem top_level_type_is_found_nested :
    resolve? nestedSource "Foo" = some "a/b/Foo" ∧ resolve? nestedSource "In" = some "a/b/Other" := by
  have found := fun stem => @top_level_type_is_found nestedTrees nestedSource stem _ _
    laidOut_nestedSource matched_nestedLexemes unit_nestedTrees
  exact ⟨(found "Foo").2.1 (by decide), (found "In").2.2 _ _ rfl (by decide)⟩

end AbiBuild.JavaSource
