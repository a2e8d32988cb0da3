import AbiBuild.JavaSource.Outline

/-!
# Where statements end

Statements are told apart by their first words, by where their semicolons and braces are, and by the
words that may go on with them.  Cutting trees finds the end of each statement, whatever stands in
its brackets.
-/

namespace AbiBuild.JavaSource

open TokenTree

variable {tree : TokenTree} {trees rest core whole after : List TokenTree}

/-! ## Brackets -/

def Bracket.opening : Bracket → Token
  | round => .mark '('
  | square => .mark '['
  | curly => .mark '\x7b'

def Bracket.closing : Bracket → Token
  | round => .mark ')'
  | square => .mark ']'
  | curly => .mark '\x7d'

/-- Lexemes whose brackets match, and the trees that they are. -/
inductive Matched : List Lexeme → List TokenTree → Prop
  | nil : Matched [] []
  | leaf {lexeme : Lexeme} {rest : List Lexeme} {trees : List TokenTree}
      (single : ∀ bracket : Bracket,
        lexeme.token ≠ bracket.opening ∧ lexeme.token ≠ bracket.closing)
      (more : Matched rest trees) : Matched (lexeme :: rest) (.leaf lexeme :: trees)
  | group {bracket : Bracket} {before atEnd : List Char} {inside rest : List Lexeme}
      {inner trees : List TokenTree} (enclosed : Matched inside inner) (more : Matched rest trees) :
      Matched (⟨before, bracket.opening⟩ :: (inside ++ ⟨atEnd, bracket.closing⟩ :: rest))
        (.group bracket inner :: trees)

theorem opening?_opening (bracket : Bracket) : opening? bracket.opening = some bracket := by
  cases bracket <;> rfl

theorem opening?_closing (bracket : Bracket) :
    opening? bracket.closing = none ∧ isClosing bracket.closing = true := by
  cases bracket <;> exact ⟨rfl, rfl⟩

theorem opening?_single {token : Token}
    (single : ∀ bracket : Bracket, token ≠ bracket.opening ∧ token ≠ bracket.closing) :
    opening? token = none ∧ isClosing token = false := by
  have round := single .round
  have square := single .square
  have curly := single .curly
  unfold opening? isClosing
  constructor
  · split <;> first | rfl | simp_all [Bracket.opening]
  · split <;> first | rfl | simp_all [Bracket.closing]

theorem treesFrom_matched {lexemes : List Lexeme} (matched : Matched lexemes trees)
    (found : List TokenTree) (outer : List OpenGroup) (after : List Lexeme) :
    treesFrom found outer (lexemes ++ after) = treesFrom (trees.reverse ++ found) outer after := by
  induction matched generalizing found outer after with
  | nil => rfl
  | @leaf lexeme rest trees single more ih =>
      obtain ⟨noOpening, noClosing⟩ := opening?_single single
      rw [List.cons_append, treesFrom.eq_def]
      simp only [noOpening, noClosing]
      rw [ih, List.reverse_cons, List.append_assoc, List.singleton_append]
  | @group bracket before atEnd inside rest inner trees enclosed more ihInside ih =>
      obtain ⟨noOpening, isClosing⟩ := opening?_closing bracket
      rw [List.cons_append, treesFrom.eq_def]
      simp only [opening?_opening]
      rw [List.append_assoc, ihInside, List.cons_append, treesFrom.eq_def]
      simp only [noOpening, isClosing]
      rw [ih, closeGroup, List.append_nil, List.reverse_reverse, List.reverse_cons, List.append_assoc,
        List.singleton_append]

theorem trees_of_matched {lexemes : List Lexeme} (matched : Matched lexemes trees) :
    JavaSource.trees lexemes = trees := by
  have all := treesFrom_matched matched [] [] []
  rw [List.append_nil, List.append_nil, treesFrom] at all
  simpa [JavaSource.trees] using all

/-! ## Words -/

theorem isWord_eq_true_iff {word : String} :
    tree.isWord word = true ↔ ∃ before, tree = .leaf ⟨before, .word word.toList⟩ := by
  cases tree with
  | leaf lexeme =>
      obtain ⟨before, token⟩ := lexeme
      simp [isWord]
  | group bracket inner => simp [isWord]

theorem isWord_of_isWord {word other : String} (isWord : tree.isWord word) (different : word ≠ other) :
    tree.isWord other = false := by
  obtain ⟨before, rfl⟩ := isWord_eq_true_iff.mp isWord
  simp [TokenTree.isWord, String.toList_inj, different]

theorem isMark_of_isWord {word : String} (isWord : tree.isWord word) (value : Char) :
    tree.isMark value = false := by
  obtain ⟨before, rfl⟩ := isWord_eq_true_iff.mp isWord
  rfl

theorem isGroup_of_isWord {word : String} (isWord : tree.isWord word) (bracket : Bracket) :
    tree.isGroup bracket = false := by
  obtain ⟨before, rfl⟩ := isWord_eq_true_iff.mp isWord
  rfl

theorem isModifier_of_isWord {word : String} (isWord : tree.isWord word) :
    isModifier tree = decide (word ∈ modifierWords) := by
  rw [isModifier, Bool.eq_iff_iff, List.any_eq_true, decide_eq_true_eq]
  constructor
  · rintro ⟨other, listed, same⟩
    by_cases different : word = other
    · rwa [different]
    · rw [isWord_of_isWord isWord different] at same
      cases same
  · exact fun listed => ⟨word, listed, isWord⟩

theorem isGroup_eq_true_iff {bracket : Bracket} :
    tree.isGroup bracket = true ↔ ∃ inner, tree = .group bracket inner := by
  cases tree with
  | leaf lexeme => simp [isGroup]
  | group other inner => simp [isGroup]

theorem isMark_eq_true_iff {value : Char} :
    tree.isMark value = true ↔ ∃ before, tree = .leaf ⟨before, .mark value⟩ := by
  cases tree with
  | leaf lexeme =>
      obtain ⟨before, token⟩ := lexeme
      simp [isMark]
  | group bracket inner => simp [isMark]

theorem isWord_of_isGroup {bracket : Bracket} (isGroup : tree.isGroup bracket) (word : String) :
    tree.isWord word = false := by
  obtain ⟨inner, rfl⟩ := isGroup_eq_true_iff.mp isGroup
  rfl

theorem isMark_of_isGroup {bracket : Bracket} (isGroup : tree.isGroup bracket) (value : Char) :
    tree.isMark value = false := by
  obtain ⟨inner, rfl⟩ := isGroup_eq_true_iff.mp isGroup
  rfl

theorem isWord_of_isMark {value : Char} (isMark : tree.isMark value) (word : String) :
    tree.isWord word = false := by
  obtain ⟨before, rfl⟩ := isMark_eq_true_iff.mp isMark
  simp [isWord]

theorem isGroup_of_isMark {value : Char} (isMark : tree.isMark value) (bracket : Bracket) :
    tree.isGroup bracket = false := by
  obtain ⟨before, rfl⟩ := isMark_eq_true_iff.mp isMark
  rfl

theorem isModifier_of_forall (noWord : ∀ word ∈ modifierWords, tree.isWord word = false) :
    isModifier tree = false := by
  rw [isModifier, Bool.eq_false_iff, ne_eq, List.any_eq_true]
  rintro ⟨word, listed, isWord⟩
  rw [noWord word listed] at isWord
  cases isWord

/-! ## Modifiers -/

inductive Continued : List TokenTree → Prop
  | nil : Continued []
  | next {dot name : TokenTree} {rest : List TokenTree} (isDot : dot.isMark '.')
      (isName : name.word?.isSome) (more : Continued rest) : Continued (dot :: name :: rest)

inductive Modified : List TokenTree → List TokenTree → Prop
  | unmodified (core : List TokenTree) : Modified core core
  | word {word : TokenTree} {rest core : List TokenTree} (isModifier : isModifier word)
      (noStatement : word.isWord "synchronized" → ∀ next ∈ rest.head?, next.isGroup .round = false)
      (more : Modified rest core) : Modified (word :: rest) core
  | nonSealed {non dash : TokenTree} {rest core : List TokenTree} (isNon : non.isWord "non")
      (isDash : dash.isMark '-') (more : Modified rest core) : Modified (non :: dash :: rest) core
  | marker {sign name : TokenTree} {others rest core : List TokenTree} (isSign : sign.isMark '@')
      (isName : name.word?.isSome) (noInterface : name.isWord "interface" = false)
      (continued : Continued others)
      (ends : ∀ next ∈ rest.head?, next.isMark '.' = false ∧ next.isGroup .round = false)
      (more : Modified rest core) : Modified (sign :: name :: (others ++ rest)) core
  | annotationWith {sign name arguments : TokenTree} {others rest core : List TokenTree}
      (isSign : sign.isMark '@') (isName : name.word?.isSome)
      (noInterface : name.isWord "interface" = false) (continued : Continued others)
      (isArguments : arguments.isGroup .round) (more : Modified rest core) :
      Modified (sign :: name :: (others ++ arguments :: rest)) core

structure Unmodified (first : TokenTree) (rest : List TokenTree) : Prop where
  noWord : isModifier first → first.isWord "synchronized" ∧ ∃ next ∈ rest.head?, next.isGroup .round
  noMarker : first.isMark '@' → ∃ next ∈ rest.head?, next.isWord "interface"
  noSealed : first.isWord "non" → ∃ next ∈ rest.head?, next.isMark '-' = false

theorem mem_head?_append {next : TokenTree} (first : next ∈ trees.head?) (after : List TokenTree) :
    next ∈ (trees ++ after).head? := by
  cases trees with
  | nil => cases first
  | cons _ _ => exact first

theorem head?_append_of_ne_nil (nonempty : trees ≠ []) (after : List TokenTree) :
    (trees ++ after).head? = trees.head? := by
  cases trees with
  | nil => exact absurd rfl nonempty
  | cons _ _ => rfl

theorem Unmodified.append {first : TokenTree} (unmodified : Unmodified first rest)
    (after : List TokenTree) : Unmodified first (rest ++ after) where
  noWord modifier := by
    obtain ⟨word, next, follows, round⟩ := unmodified.noWord modifier
    exact ⟨word, next, mem_head?_append follows after, round⟩
  noMarker sign := by
    obtain ⟨next, follows, interface⟩ := unmodified.noMarker sign
    exact ⟨next, mem_head?_append follows after, interface⟩
  noSealed word := by
    obtain ⟨next, follows, noDash⟩ := unmodified.noSealed word
    exact ⟨next, mem_head?_append follows after, noDash⟩

namespace Modified

theorem length_le (modified : Modified trees core) : core.length ≤ trees.length := by
  induction modified with
  | unmodified => exact Nat.le_refl _
  | word _ _ _ ih => exact Nat.le_trans ih (by simp)
  | nonSealed _ _ _ ih => exact Nat.le_trans ih (by simp; omega)
  | marker _ _ _ _ _ _ ih => exact Nat.le_trans ih (by simp; omega)
  | annotationWith _ _ _ _ _ _ ih => exact Nat.le_trans ih (by simp; omega)

theorem ne_nil (modified : Modified trees core) (nonempty : core ≠ []) : trees ≠ [] := by
  have length := modified.length_le
  have pos := List.length_pos_iff.mpr nonempty
  exact List.length_pos_iff.mp (by omega)

theorem append (modified : Modified trees core) (nonempty : core ≠ []) (after : List TokenTree) :
    Modified (trees ++ after) (core ++ after) := by
  induction modified with
  | unmodified => exact .unmodified _
  | word isModifier noStatement more ih =>
      rw [List.cons_append]
      refine .word isModifier ?_ (ih nonempty)
      rwa [head?_append_of_ne_nil (more.ne_nil nonempty)]
  | nonSealed isNon isDash more ih => exact .nonSealed isNon isDash (ih nonempty)
  | marker isSign isName noInterface continued ends more ih =>
      rw [List.cons_append, List.cons_append, List.append_assoc]
      refine .marker isSign isName noInterface continued ?_ (ih nonempty)
      rwa [head?_append_of_ne_nil (more.ne_nil nonempty)]
  | annotationWith isSign isName noInterface continued isArguments more ih =>
      rw [List.cons_append, List.cons_append, List.append_assoc, List.cons_append]
      exact .annotationWith isSign isName noInterface continued isArguments (ih nonempty)

end Modified

theorem afterAnnotationName_continued (continued : Continued trees) (rest : List TokenTree) :
    afterAnnotationName (trees ++ rest) = afterAnnotationName rest := by
  induction continued with
  | nil => rfl
  | next isDot isName more ih =>
      rw [List.cons_append, List.cons_append, afterAnnotationName, if_pos (by simp [isDot, isName]), ih]

theorem afterAnnotationName_ends
    (ends : ∀ next ∈ rest.head?, next.isMark '.' = false ∧ next.isGroup .round = false) :
    afterAnnotationName rest = rest := by
  match rest with
  | [] => rfl
  | [last] => rw [afterAnnotationName, if_neg (by simp [(ends last rfl).2])]
  | dot :: name :: rest =>
      rw [afterAnnotationName, if_neg (by simp [(ends dot rfl).1]), if_neg (by simp [(ends dot rfl).2])]

theorem afterAnnotationName_arguments {arguments : TokenTree} (isArguments : arguments.isGroup .round)
    (rest : List TokenTree) : afterAnnotationName (arguments :: rest) = rest := by
  cases rest with
  | nil => rw [afterAnnotationName, if_pos isArguments]
  | cons name rest =>
      rw [afterAnnotationName, if_neg (by simp [isMark_of_isGroup isArguments]), if_pos isArguments]

theorem afterModifiersWithin_unmodified {first : TokenTree} (unmodified : Unmodified first rest)
    (count : Nat) : afterModifiersWithin count (first :: rest) = first :: rest := by
  cases count with
  | zero => rfl
  | succ count =>
      cases rest with
      | nil => rfl
      | cons next rest =>
          have noMarker : (first.isMark '@' && next.word?.isSome && !next.isWord "interface") =
              false := by
            cases sign : first.isMark '@' with
            | false => rfl
            | true =>
                obtain ⟨_, ⟨⟩, interface⟩ := unmodified.noMarker sign
                simp [interface]
          have noSealed : (first.isWord "non" && next.isMark '-') = false := by
            cases non : first.isWord "non" with
            | false => rfl
            | true =>
                obtain ⟨_, ⟨⟩, noDash⟩ := unmodified.noSealed non
                simp [noDash]
          rw [afterModifiersWithin]
          simp only [noMarker, noSealed, Bool.false_eq_true, ↓reduceIte]
          split
          next => rfl
          next noStatement =>
            rw [if_neg]
            intro modifier
            obtain ⟨word, _, ⟨⟩, round⟩ := unmodified.noWord modifier
            exact noStatement (by rw [word, round]; rfl)

theorem afterModifiersWithin_modified {first : TokenTree} (modified : Modified trees (first :: rest))
    (unmodified : Unmodified first rest) {count : Nat} (enough : trees.length ≤ count) :
    afterModifiersWithin count trees = first :: rest := by
  generalize same : first :: rest = core at modified
  have nonempty : core ≠ [] := by simp [← same]
  induction modified generalizing count with
  | unmodified core =>
      subst same
      exact afterModifiersWithin_unmodified unmodified count
  | @word word others core modifier noStatement more ih =>
      obtain ⟨next, others, rfl⟩ := List.exists_cons_of_ne_nil (more.ne_nil nonempty)
      obtain ⟨text, listed, isWord⟩ := List.any_eq_true.mp modifier
      have noNon : text ≠ "non" := by
        rintro rfl
        exact absurd listed (by decide)
      have noSynchronized : (word.isWord "synchronized" && next.isGroup .round) = false := by
        cases isSynchronized : word.isWord "synchronized" with
        | false => rfl
        | true => simpa using noStatement isSynchronized
      obtain ⟨count, rfl⟩ := Nat.exists_eq_add_one.mpr (Nat.lt_of_lt_of_le (by simp) enough)
      rw [List.length_cons, Nat.add_le_add_iff_right] at enough
      rw [afterModifiersWithin]
      simp only [isMark_of_isWord isWord, noSynchronized, isWord_of_isWord isWord noNon, modifier,
        Bool.false_and, Bool.false_eq_true, ↓reduceIte]
      exact ih enough same nonempty
  | @nonSealed non dash others core isNon isDash more ih =>
      obtain ⟨count, rfl⟩ := Nat.exists_eq_add_one.mpr (Nat.lt_of_lt_of_le (by simp) enough)
      simp only [List.length_cons] at enough
      rw [afterModifiersWithin]
      have noSynchronized := isWord_of_isWord isNon (show "non" ≠ "synchronized" by decide)
      simp only [isMark_of_isWord isNon, noSynchronized, isNon, isDash, Bool.false_and,
        Bool.and_self, Bool.false_eq_true, ↓reduceIte]
      exact ih (by omega) same nonempty
  | @marker sign name others rest' core isSign isName noInterface continued ends more ih =>
      obtain ⟨count, rfl⟩ := Nat.exists_eq_add_one.mpr (Nat.lt_of_lt_of_le (by simp) enough)
      simp only [List.length_cons, List.length_append] at enough
      rw [afterModifiersWithin, if_pos (by simp [isSign, isName, noInterface]),
        afterAnnotationName_continued continued, afterAnnotationName_ends ends]
      exact ih (by omega) same nonempty
  | @annotationWith sign name arguments others rest' core isSign isName noInterface continued
      isArguments more ih =>
      obtain ⟨count, rfl⟩ := Nat.exists_eq_add_one.mpr (Nat.lt_of_lt_of_le (by simp) enough)
      simp only [List.length_cons, List.length_append] at enough
      rw [afterModifiersWithin, if_pos (by simp [isSign, isName, noInterface]),
        afterAnnotationName_continued continued, afterAnnotationName_arguments isArguments]
      exact ih (by omega) same nonempty

theorem afterModifiers_modified {first : TokenTree} (modified : Modified trees (first :: rest))
    (unmodified : Unmodified first rest) (after : List TokenTree) :
    afterModifiers (trees ++ after) = first :: (rest ++ after) := by
  rw [afterModifiers]
  exact afterModifiersWithin_modified (modified.append (by simp) after) (unmodified.append after)
    (Nat.le_refl _)

/-! ## Semicolons and braces -/

inductive OpensExpression : List TokenTree → Prop
  | sign {tree : TokenTree} {rest : List TokenTree} (isSign : tree.isMark '=') :
      OpensExpression (tree :: rest)
  | word {tree : TokenTree} {rest : List TokenTree} {word : String}
      (listed : word ∈ expressionWords) (isWord : tree.isWord word) : OpensExpression (tree :: rest)
  | arrow {dash head : TokenTree} {rest : List TokenTree} (isDash : dash.isMark '-')
      (isHead : head.isMark '>') : OpensExpression (dash :: head :: rest)
  | later {tree : TokenTree} {rest : List TokenTree} (more : OpensExpression rest) :
      OpensExpression (tree :: rest)

structure Simple (front : List TokenTree) : Prop where
  noSemicolon : ∀ tree ∈ front, tree.isMark ';' = false
  opened : ∀ before braces behind, front = before ++ braces :: behind → braces.isGroup .curly →
    OpensExpression before

structure Heading (front : List TokenTree) : Prop where
  noSemicolon : ∀ tree ∈ front, tree.isMark ';' = false
  noBraces : ∀ tree ∈ front, tree.isGroup .curly = false
  noExpression : ¬OpensExpression front

theorem afterSimple_semicolon {front : List TokenTree} {semicolon : TokenTree} {inExpression : Bool}
    (noSemicolon : ∀ tree ∈ front, tree.isMark ';' = false)
    (opened : ∀ before braces behind, front = before ++ braces :: behind → braces.isGroup .curly →
      inExpression ∨ OpensExpression before)
    (isEnd : semicolon.isMark ';') (after : List TokenTree) :
    afterSimple inExpression (front ++ semicolon :: after) = after := by
  induction front generalizing inExpression with
  | nil => rw [List.nil_append, afterSimple, if_pos isEnd]
  | cons tree front ih =>
      rw [List.forall_mem_cons] at noSemicolon
      have inside : (tree.isGroup .curly && !inExpression) = false := by
        cases curly : tree.isGroup .curly with
        | false => rfl
        | true =>
            rcases opened [] tree front rfl curly with inside | opens
            · simp [inside]
            · cases opens
      rw [List.cons_append, afterSimple]
      simp only [noSemicolon.1, inside, Bool.false_eq_true, ↓reduceIte]
      refine ih noSemicolon.2 ?_
      rintro before braces behind rfl curly
      simp only [Bool.or_eq_true]
      rcases opened (tree :: before) braces behind rfl curly with inside | opens
      · exact .inl (.inl inside)
      · cases opens with
        | sign isSign => exact .inl (.inr (.inl (.inl isSign)))
        | word listed isWord => exact .inl (.inr (.inr (List.any_eq_true.mpr ⟨_, listed, isWord⟩)))
        | arrow isDash isHead => exact .inl (.inr (.inl (.inr (by simp [isDash, isHead]))))
        | later more => exact .inr more

theorem afterSimple_braces {front : List TokenTree} {braces : TokenTree} (heading : Heading front)
    (isBraces : braces.isGroup .curly) (after : List TokenTree) :
    afterSimple false (front ++ braces :: after) = after := by
  induction front with
  | nil =>
      rw [List.nil_append, afterSimple]
      simp [isBraces, isMark_of_isGroup isBraces]
  | cons tree front ih =>
      obtain ⟨noSemicolon, noBraces, noExpression⟩ := heading
      rw [List.forall_mem_cons] at noSemicolon noBraces
      have noSign : tree.isMark '=' = false :=
        Bool.eq_false_iff.mpr fun isSign => noExpression (.sign isSign)
      have noWord : (expressionWords.any fun word => tree.isWord word) = false := by
        rw [Bool.eq_false_iff, ne_eq, List.any_eq_true]
        rintro ⟨word, listed, isWord⟩
        exact noExpression (.word listed isWord)
      have noArrow : (tree.isMark '-' && (front ++ braces :: after).head?.any (·.isMark '>')) =
          false := by
        cases isDash : tree.isMark '-' with
        | false => rfl
        | true =>
            cases front with
            | nil => simp [isMark_of_isGroup isBraces]
            | cons head front =>
                rw [Bool.true_and, List.cons_append, List.head?_cons, Option.any_some,
                  Bool.eq_false_iff]
                exact fun isHead => noExpression (.arrow isDash isHead)
      rw [List.cons_append, afterSimple]
      simp only [noSemicolon.1, noBraces.1, noSign, noWord, noArrow, Bool.false_and, Bool.or_self,
        Bool.false_eq_true, ↓reduceIte]
      exact ih ⟨noSemicolon.2, noBraces.2, fun opens => noExpression (.later opens)⟩

theorem afterBraces_append {front : List TokenTree} {braces : TokenTree}
    (noBraces : ∀ tree ∈ front, tree.isGroup .curly = false) (isBraces : braces.isGroup .curly)
    (after : List TokenTree) : afterBraces (front ++ braces :: after) = after := by
  rw [afterBraces, List.dropWhile_append_of_pos (by simpa using noBraces),
    List.dropWhile_cons_of_neg (by simp [isBraces]), List.drop_one, List.tail_cons]

theorem afterSemicolon_append {front : List TokenTree} {semicolon : TokenTree}
    (noSemicolon : ∀ tree ∈ front, tree.isMark ';' = false) (isEnd : semicolon.isMark ';')
    (after : List TokenTree) : afterSemicolon (front ++ semicolon :: after) = after := by
  rw [afterSemicolon, List.dropWhile_append_of_pos (by simpa using noSemicolon),
    List.dropWhile_cons_of_neg (by simp [isEnd]), List.drop_one, List.tail_cons]

theorem noBraces_of_round {front : List TokenTree} (round : ∀ tree ∈ front, tree.isGroup .round) :
    ∀ tree ∈ front, tree.isGroup .curly = false := by
  intro tree listed
  obtain ⟨inner, rfl⟩ := isGroup_eq_true_iff.mp (round tree listed)
  rfl

/-! ## Statements -/

def statementWords : List String := ["if", "while", "for", "do", "try", "switch", "synchronized"]

structure Begins (first : TokenTree) (rest : List TokenTree) : Prop
    extends Unmodified first rest where
  noKeyword : ∀ word ∈ statementWords, first.isWord word = false
  noLabel : first.word?.isSome → ∀ next ∈ rest.head?, next.isMark ':' →
    ∃ another ∈ (rest.drop 1).head?, another.isMark ':'

theorem Begins.append {first : TokenTree} (begins : Begins first rest)
    (single : rest = [] → first.word?.isSome = false) (after : List TokenTree) :
    Begins first (rest ++ after) where
  toUnmodified := begins.toUnmodified.append after
  noKeyword := begins.noKeyword
  noLabel isName next follows isColon := by
    cases rest with
    | nil =>
        rw [single rfl] at isName
        cases isName
    | cons _ others =>
        obtain ⟨another, follows', isColon'⟩ := begins.noLabel isName next follows isColon
        exact ⟨another, mem_head?_append follows' after, isColon'⟩

inductive Handlers : List TokenTree → Prop
  | nil : Handlers []
  | next {keyword caught block : TokenTree} {rest : List TokenTree} (isCatch : keyword.isWord "catch")
      (isCaught : caught.isGroup .round) (isBlock : block.isGroup .curly) (more : Handlers rest) :
      Handlers (keyword :: caught :: block :: rest)

inductive Statement : List String → List TokenTree → Prop
  | block {braces : TokenTree} (isBlock : braces.isGroup .curly) : Statement [] [braces]
  | simple {first semicolon : TokenTree} {rest front : List TokenTree}
      (whole : first :: rest = front ++ [semicolon]) (begins : Begins first rest)
      (simple : Simple front) (isEnd : semicolon.isMark ';') : Statement [] (first :: rest)
  | braced {first braces : TokenTree} {rest front : List TokenTree}
      (whole : first :: rest = front ++ [braces]) (headed : front ≠ []) (begins : Begins first rest)
      (heading : Heading front) (isBraces : braces.isGroup .curly) : Statement [] (first :: rest)
  | ifThen {continuing : List String} {keyword condition : TokenTree} {body core : List TokenTree}
      (isIf : keyword.isWord "if") (isCondition : condition.isGroup .round)
      (modified : Modified body core) (statement : Statement continuing core) :
      Statement ("else" :: continuing) (keyword :: condition :: body)
  | ifElse {continuing others : List String} {keyword condition otherwise : TokenTree}
      {body core alternative core' : List TokenTree} (isIf : keyword.isWord "if")
      (isCondition : condition.isGroup .round) (modified : Modified body core)
      (statement : Statement others core) (closed : "else" ∉ others) (isElse : otherwise.isWord "else")
      (modified' : Modified alternative core') (statement' : Statement continuing core') :
      Statement continuing (keyword :: condition :: (body ++ otherwise :: alternative))
  | loop {continuing : List String} {word : String} {keyword head : TokenTree}
      {body core : List TokenTree} (isLoop : word = "while" ∨ word = "for")
      (isWord : keyword.isWord word) (isHead : head.isGroup .round) (modified : Modified body core)
      (statement : Statement continuing core) : Statement continuing (keyword :: head :: body)
  | doWhile {continuing : List String} {keyword again condition semicolon : TokenTree}
      {body core : List TokenTree} (isDo : keyword.isWord "do") (modified : Modified body core)
      (statement : Statement continuing core) (isWhile : again.isWord "while")
      (isCondition : condition.isGroup .round) (isEnd : semicolon.isMark ';') :
      Statement [] (keyword :: (body ++ [again, condition, semicolon]))
  | tryCatch {keyword block : TokenTree} {resources handlers : List TokenTree}
      (isTry : keyword.isWord "try") (areResources : ∀ tree ∈ resources, tree.isGroup .round)
      (isBlock : block.isGroup .curly) (handles : Handlers handlers) :
      Statement ["catch", "finally"] (keyword :: (resources ++ block :: handlers))
  | tryFinally {keyword block atLast last : TokenTree} {resources handlers : List TokenTree}
      (isTry : keyword.isWord "try") (areResources : ∀ tree ∈ resources, tree.isGroup .round)
      (isBlock : block.isGroup .curly) (handles : Handlers handlers)
      (isFinally : atLast.isWord "finally") (isLast : last.isGroup .curly) :
      Statement [] (keyword :: (resources ++ block :: (handlers ++ [atLast, last])))
  | switch {keyword selector block : TokenTree} (isSwitch : keyword.isWord "switch")
      (isSelector : selector.isGroup .round) (isBlock : block.isGroup .curly) :
      Statement [] [keyword, selector, block]
  | locked {keyword lock block : TokenTree} (isSynchronized : keyword.isWord "synchronized")
      (isLock : lock.isGroup .round) (isBlock : block.isGroup .curly) :
      Statement [] [keyword, lock, block]
  | labeled {continuing : List String} {name colon : TokenTree} {body core : List TokenTree}
      (isName : name.word?.isSome) (noModifier : isModifier name = false)
      (noKeyword : ∀ word ∈ statementWords, name.isWord word = false) (isColon : colon.isMark ':')
      (single : ∀ next ∈ body.head?, next.isMark ':' = false) (modified : Modified body core)
      (statement : Statement continuing core) : Statement continuing (name :: colon :: body)

theorem afterHandlers_append {handlers : List TokenTree} (handles : Handlers handlers)
    (rest : List TokenTree) : afterHandlers (handlers ++ rest) = afterHandlers rest := by
  induction handles with
  | nil => rfl
  | next isCatch isCaught isBlock more ih =>
      rw [List.cons_append, List.cons_append, List.cons_append, afterHandlers,
        if_pos (by simp [isCatch, isCaught]), ih]

theorem afterHandlers_ends
    (ends : ∀ next ∈ rest.head?, next.isWord "catch" = false ∧ next.isWord "finally" = false) :
    afterHandlers rest = rest := by
  match rest with
  | [] => rfl
  | [last] => rfl
  | [word, body] => rw [afterHandlers, if_neg (by simp [(ends word rfl).2])]
  | word :: head :: body :: rest =>
      rw [afterHandlers, if_neg (by simp [(ends word rfl).1]), if_neg (by simp [(ends word rfl).2])]

theorem afterHandlers_finally {keyword last : TokenTree} (isFinally : keyword.isWord "finally")
    (rest : List TokenTree) : afterHandlers (keyword :: last :: rest) = rest := by
  cases rest with
  | nil => rw [afterHandlers, if_pos isFinally]
  | cons next rest =>
      have noCatch := isWord_of_isWord isFinally (show "finally" ≠ "catch" by decide)
      rw [afterHandlers, if_neg (by simp [noCatch]), if_pos isFinally]

theorem unmodified_of_isWord {word : String} (isWord : tree.isWord word)
    (noModifier : word ∉ modifierWords) (noNon : word ≠ "non") : Unmodified tree rest where
  noWord modifier := by
    rw [isModifier_of_isWord isWord, decide_eq_true_eq] at modifier
    exact absurd modifier noModifier
  noMarker sign := by
    rw [isMark_of_isWord isWord] at sign
    cases sign
  noSealed non := by
    rw [isWord_of_isWord isWord noNon] at non
    cases non

/-! ### The kinds of statements -/

section Kinds

variable {first keyword : TokenTree} {count : Nat}

theorem afterStatement_if {condition : TokenTree} (isIf : keyword.isWord "if")
    (leaves : afterModifiers trees = keyword :: condition :: rest) :
    afterStatement (count + 1) trees =
      match afterStatement count rest with
      | next :: others =>
        if next.isWord "else" then afterStatement count others else next :: others
      | [] => [] := by
  rw [afterStatement, leaves]
  cases follows : afterStatement count rest with
  | nil => simp [isGroup_of_isWord isIf, isIf, follows]
  | cons next others => simp [isGroup_of_isWord isIf, isIf, follows]

theorem afterStatement_loop {word : String} {head : TokenTree}
    (isLoop : word = "while" ∨ word = "for") (isWord : keyword.isWord word)
    (leaves : afterModifiers trees = keyword :: head :: rest) :
    afterStatement (count + 1) trees = afterStatement count rest := by
  rw [afterStatement, leaves]
  rcases isLoop with rfl | rfl <;>
    simp [isGroup_of_isWord isWord, isWord, isWord_of_isWord isWord]

theorem afterStatement_do (isDo : keyword.isWord "do")
    (leaves : afterModifiers trees = keyword :: rest) :
    afterStatement (count + 1) trees = afterSemicolon (afterStatement count rest) := by
  rw [afterStatement, leaves]
  simp [isGroup_of_isWord isDo, isDo, isWord_of_isWord isDo]

theorem afterStatement_try (isTry : keyword.isWord "try")
    (leaves : afterModifiers trees = keyword :: rest) :
    afterStatement (count + 1) trees = afterHandlers (afterBraces rest) := by
  rw [afterStatement, leaves]
  simp [isGroup_of_isWord isTry, isTry, isWord_of_isWord isTry]

theorem afterStatement_braces {word : String} (isBraced : word = "switch" ∨ word = "synchronized")
    (isWord : keyword.isWord word) (leaves : afterModifiers trees = keyword :: rest) :
    afterStatement (count + 1) trees = afterBraces rest := by
  rw [afterStatement, leaves]
  rcases isBraced with rfl | rfl <;>
    simp [isGroup_of_isWord isWord, isWord, isWord_of_isWord isWord]

theorem isLabel_of_begins (begins : Begins first rest) {colon : TokenTree} {body : List TokenTree}
    (follows : rest = colon :: body) : isLabel first colon body = false := by
  subst follows
  rw [isLabel, Bool.eq_false_iff]
  intro label
  simp only [Bool.and_eq_true, Bool.not_eq_true'] at label
  obtain ⟨⟨isName, isColon⟩, single⟩ := label
  obtain ⟨another, follows, isColon'⟩ := begins.noLabel isName colon rfl isColon
  cases body with
  | nil => cases follows
  | cons next body =>
      obtain rfl := Option.some.inj follows
      simp [isColon'] at single

theorem afterStatement_begins (begins : Begins first rest) (noBlock : first.isGroup .curly = false)
    (leaves : afterModifiers trees = first :: rest) :
    afterStatement (count + 1) trees = afterSimple false (first :: rest) := by
  have keywords := begins.noKeyword
  simp only [statementWords, List.forall_mem_cons] at keywords
  obtain ⟨noIf, noWhile, noFor, noDo, noTry, noSwitch, noLock, -⟩ := keywords
  rw [afterStatement, leaves]
  simp only [noBlock, noIf, noWhile, noFor, noDo, noTry, noSwitch, noLock, Bool.or_self,
    Bool.false_eq_true, ↓reduceIte]
  cases rest with
  | nil =>
      rw [afterSimple]
      simp [noBlock, afterSimple]
  | cons colon body => simp [isLabel_of_begins begins rfl]

theorem afterStatement_simple {semicolon : TokenTree} {front : List TokenTree}
    (whole : first :: rest = front ++ [semicolon]) (begins : Begins first rest)
    (simple : Simple front) (isEnd : semicolon.isMark ';')
    (leaves : afterModifiers trees = first :: (rest ++ after)) :
    afterStatement (count + 1) trees = after := by
  have noBlock : first.isGroup .curly = false := by
    cases front with
    | nil =>
        obtain ⟨rfl, -⟩ := List.cons.inj whole
        exact isGroup_of_isMark isEnd _
    | cons _ front =>
        obtain ⟨rfl, -⟩ := List.cons.inj whole
        rw [Bool.eq_false_iff]
        intro curly
        cases simple.opened [] first front rfl curly
  have single : rest = [] → first.word?.isSome = false := by
    rintro rfl
    cases front with
    | nil =>
        obtain ⟨rfl, -⟩ := List.cons.inj whole
        obtain ⟨before, rfl⟩ := isMark_eq_true_iff.mp isEnd
        rfl
    | cons _ front => simp at whole
  rw [afterStatement_begins (begins.append single after) noBlock leaves, ← List.cons_append, whole,
    List.append_assoc, List.singleton_append]
  exact afterSimple_semicolon simple.noSemicolon
    (fun before braces behind split curly => .inr (simple.opened before braces behind split curly))
    isEnd after

theorem afterStatement_braced {braces : TokenTree} {front : List TokenTree}
    (whole : first :: rest = front ++ [braces]) (headed : front ≠ []) (begins : Begins first rest)
    (heading : Heading front) (isBraces : braces.isGroup .curly)
    (leaves : afterModifiers trees = first :: (rest ++ after)) :
    afterStatement (count + 1) trees = after := by
  obtain ⟨head, front, rfl⟩ := List.exists_cons_of_ne_nil headed
  obtain ⟨rfl, rest_eq⟩ := List.cons.inj whole
  have single : rest = [] → first.word?.isSome = false := by
    rintro rfl
    simp at rest_eq
  rw [afterStatement_begins (begins.append single after) (heading.noBraces _ (.head _)) leaves,
    ← List.cons_append, whole, List.append_assoc, List.singleton_append]
  exact afterSimple_braces heading isBraces after

theorem afterStatement_labeled {colon : TokenTree} {body : List TokenTree}
    (isName : first.word?.isSome) (noKeyword : ∀ word ∈ statementWords, first.isWord word = false)
    (isColon : colon.isMark ':') (single : ∀ next ∈ body.head?, next.isMark ':' = false)
    (leaves : afterModifiers trees = first :: colon :: body) :
    afterStatement (count + 1) trees = afterStatement count body := by
  simp only [statementWords, List.forall_mem_cons] at noKeyword
  obtain ⟨noIf, noWhile, noFor, noDo, noTry, noSwitch, noLock, -⟩ := noKeyword
  have noBlock : first.isGroup .curly = false := by
    cases first with
    | leaf lexeme => rfl
    | group bracket inner => cases isName
  have label : isLabel first colon body = true := by
    cases body with
    | nil => simp [isLabel, isName, isColon]
    | cons next body => simp [isLabel, isName, isColon, single next rfl]
  rw [afterStatement, leaves]
  simp [noBlock, noIf, noWhile, noFor, noDo, noTry, noSwitch, noLock, label]

end Kinds

namespace Statement

variable {continuing : List String}

theorem exists_unmodified (statement : Statement continuing trees) :
    ∃ first rest, trees = first :: rest ∧ Unmodified first rest := by
  cases statement with
  | block isBlock =>
      refine ⟨_, _, rfl, ⟨fun modifier => ?_, fun sign => ?_, fun non => ?_⟩⟩
      · rw [isModifier_of_forall fun word _ => isWord_of_isGroup isBlock word] at modifier
        cases modifier
      · rw [isMark_of_isGroup isBlock] at sign
        cases sign
      · rw [isWord_of_isGroup isBlock] at non
        cases non
  | simple whole begins => exact ⟨_, _, rfl, begins.toUnmodified⟩
  | braced whole headed begins => exact ⟨_, _, rfl, begins.toUnmodified⟩
  | ifThen isIf => exact ⟨_, _, rfl, unmodified_of_isWord isIf (by decide) (by decide)⟩
  | ifElse isIf => exact ⟨_, _, rfl, unmodified_of_isWord isIf (by decide) (by decide)⟩
  | loop isLoop isWord =>
      rcases isLoop with rfl | rfl <;>
        exact ⟨_, _, rfl, unmodified_of_isWord isWord (by decide) (by decide)⟩
  | doWhile isDo => exact ⟨_, _, rfl, unmodified_of_isWord isDo (by decide) (by decide)⟩
  | tryCatch isTry => exact ⟨_, _, rfl, unmodified_of_isWord isTry (by decide) (by decide)⟩
  | tryFinally isTry => exact ⟨_, _, rfl, unmodified_of_isWord isTry (by decide) (by decide)⟩
  | switch isSwitch => exact ⟨_, _, rfl, unmodified_of_isWord isSwitch (by decide) (by decide)⟩
  | locked isSynchronized isLock =>
      refine ⟨_, _, rfl, ⟨fun _ => ⟨isSynchronized, _, rfl, isLock⟩, fun sign => ?_, fun non => ?_⟩⟩
      · rw [isMark_of_isWord isSynchronized] at sign
        cases sign
      · rw [isWord_of_isWord isSynchronized (by decide)] at non
        cases non
  | @labeled _ name colon _ _ isName noModifier noKeyword isColon =>
      refine ⟨_, _, rfl, ⟨fun modifier => ?_, fun sign => ?_, fun non => ⟨colon, rfl, ?_⟩⟩⟩
      · rw [noModifier] at modifier
        cases modifier
      · obtain ⟨before, rfl⟩ := isMark_eq_true_iff.mp sign
        cases isName
      · obtain ⟨before, rfl⟩ := isMark_eq_true_iff.mp isColon
        rfl

theorem length_pos (statement : Statement continuing trees) : 0 < trees.length := by
  obtain ⟨first, rest, rfl, -⟩ := statement.exists_unmodified
  exact Nat.zero_lt_succ _

theorem mem_continuing (statement : Statement continuing trees) {word : String}
    (listed : word ∈ continuing) : word ∈ ["else", "catch", "finally"] := by
  induction statement with
  | ifThen _ _ _ _ ih =>
      rcases List.mem_cons.mp listed with rfl | inner
      · exact .head _
      · exact ih inner
  | ifElse _ _ _ _ _ _ _ _ _ ih => exact ih listed
  | loop _ _ _ _ _ ih => exact ih listed
  | labeled _ _ _ _ _ _ _ ih => exact ih listed
  | tryCatch => exact .tail _ listed
  | block | simple | braced | doWhile | tryFinally | switch | locked => cases listed

theorem afterModifiers_eq (statement : Statement continuing trees) (modified : Modified whole trees)
    (after : List TokenTree) : afterModifiers (whole ++ after) = trees ++ after := by
  obtain ⟨first, rest, rfl, unmodified⟩ := statement.exists_unmodified
  exact afterModifiers_modified modified unmodified after

/-- A statement takes at least one tree, so its first tree is looked at; where that is cut right
behind modifiers, the whole is. -/
theorem afterStatement_modified (statement : Statement continuing trees)
    (cuts : ∀ {whole : List TokenTree} {count : Nat}, afterModifiers whole = trees ++ after →
      trees.length ≤ count + 1 → afterStatement (count + 1) whole = after)
    (modified : Modified whole trees) {count : Nat} (enough : trees.length ≤ count) :
    afterStatement count (whole ++ after) = after := by
  obtain ⟨less, rfl⟩ := Nat.exists_eq_add_one.mpr (Nat.lt_of_lt_of_le statement.length_pos enough)
  exact cuts (statement.afterModifiers_eq modified after) enough

theorem afterStatement_of_leaves (statement : Statement continuing trees)
    (ends : ∀ word ∈ continuing, ∀ next ∈ after.head?, next.isWord word = false) {count : Nat}
    (leaves : afterModifiers whole = trees ++ after) (enough : trees.length ≤ count + 1) :
    afterStatement (count + 1) whole = after := by
  induction statement generalizing whole after count with
  | block isBlock =>
      rw [afterStatement, leaves]
      simp [isBlock]
  | simple trees_eq begins simple isEnd =>
      exact afterStatement_simple trees_eq begins simple isEnd leaves
  | braced trees_eq headed begins heading isBraces =>
      exact afterStatement_braced trees_eq headed begins heading isBraces leaves
  | ifThen isIf isCondition modified statement ih =>
      have length := modified.length_le
      rw [List.forall_mem_cons] at ends
      rw [List.cons_append, List.cons_append] at leaves
      rw [afterStatement_if isIf leaves, statement.afterStatement_modified (ih ends.2) modified
        (by simp at enough; omega)]
      cases after with
      | nil => rfl
      | cons next after => simp [ends.1 next rfl]
  | @ifElse _ others _ _ otherwise body core alternative core' isIf isCondition modified statement
      closed isElse modified' statement' ih ih' =>
      have length := modified.length_le
      have length' := modified'.length_le
      simp only [List.length_cons, List.length_append] at enough
      rw [List.cons_append, List.cons_append, List.append_assoc, List.cons_append] at leaves
      have endsElse : ∀ word ∈ others, ∀ next ∈ (otherwise :: (alternative ++ after)).head?,
          next.isWord word = false := by
        rintro word listed _ ⟨⟩
        exact isWord_of_isWord isElse (by rintro rfl; exact closed listed)
      rw [afterStatement_if isIf leaves, statement.afterStatement_modified (ih endsElse) modified
        (by omega)]
      simp only [isElse, ↓reduceIte]
      exact statement'.afterStatement_modified (ih' ends) modified' (by omega)
  | loop isLoop isWord isHead modified statement ih =>
      have length := modified.length_le
      rw [List.cons_append, List.cons_append] at leaves
      rw [afterStatement_loop isLoop isWord leaves]
      exact statement.afterStatement_modified (ih ends) modified (by simp at enough; omega)
  | @doWhile others keyword again condition semicolon body core isDo modified statement isWhile
      isCondition isEnd ih =>
      have length := modified.length_le
      rw [List.cons_append, List.append_assoc] at leaves
      have endsWhile : ∀ word ∈ others, ∀ next ∈ ([again, condition, semicolon] ++ after).head?,
          next.isWord word = false := by
        rintro word listed _ ⟨⟩
        have known := statement.mem_continuing listed
        exact isWord_of_isWord isWhile (by rintro rfl; simp at known)
      rw [afterStatement_do isDo leaves, statement.afterStatement_modified (ih endsWhile) modified
        (by simp at enough; omega)]
      refine @afterSemicolon_append [again, condition] semicolon ?_ isEnd after
      simp [isMark_of_isWord isWhile, isMark_of_isGroup isCondition]
  | tryCatch isTry areResources isBlock handles =>
      rw [List.cons_append, List.append_assoc, List.cons_append] at leaves
      rw [afterStatement_try isTry leaves, afterBraces_append (noBraces_of_round areResources) isBlock,
        afterHandlers_append handles]
      exact afterHandlers_ends fun next follows =>
        ⟨ends "catch" (by simp) next follows, ends "finally" (by simp) next follows⟩
  | tryFinally isTry areResources isBlock handles isFinally isLast =>
      rw [List.cons_append, List.append_assoc, List.cons_append, List.append_assoc] at leaves
      rw [afterStatement_try isTry leaves, afterBraces_append (noBraces_of_round areResources) isBlock,
        afterHandlers_append handles]
      exact afterHandlers_finally isFinally after
  | @switch keyword selector block isSwitch isSelector isBlock =>
      rw [afterStatement_braces (.inl rfl) isSwitch leaves]
      exact @afterBraces_append [selector] block (noBraces_of_round (by simpa using isSelector)) isBlock
        after
  | @locked keyword lock block isSynchronized isLock isBlock =>
      rw [afterStatement_braces (.inr rfl) isSynchronized leaves]
      exact @afterBraces_append [lock] block (noBraces_of_round (by simpa using isLock)) isBlock after
  | labeled isName noModifier noKeyword isColon single modified statement ih =>
      have length := modified.length_le
      have nonempty := modified.ne_nil (List.length_pos_iff.mp statement.length_pos)
      rw [List.cons_append, List.cons_append] at leaves
      rw [afterStatement_labeled isName noKeyword isColon (by rwa [head?_append_of_ne_nil nonempty])
        leaves]
      exact statement.afterStatement_modified (ih ends) modified (by simp at enough; omega)

theorem afterStatement_eq (statement : Statement continuing trees) (modified : Modified whole trees)
    (ends : ∀ word ∈ continuing, ∀ next ∈ after.head?, next.isWord word = false) {count : Nat}
    (enough : trees.length ≤ count) : afterStatement count (whole ++ after) = after :=
  statement.afterStatement_modified (statement.afterStatement_of_leaves ends) modified enough

end Statement

end AbiBuild.JavaSource
