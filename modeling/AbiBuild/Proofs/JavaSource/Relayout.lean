import Mathlib.Data.List.Forall2
import AbiBuild.JavaSource.Declaration
import AbiBuild.Proofs.JavaSource.Layout

/-!
# Texts with the same tokens

Two texts with the same tokens have the same outline, wherever white space and comments stand in
them, but for the names of packages: these are kept as they are written.  White space in them is
dropped in the end, and comments are not.  Tokens are the same as they are cut: a word goes on as far
as letters and digits do.
-/

namespace AbiBuild.JavaSource

open TokenTree

/-! ## Alike -/

/-- The same token.  What stands in a literal may differ, since expressions in it may be laid out in
other ways. -/
inductive Token.Alike : Token → Token → Prop
  | same (token : Token) : Alike token token
  | literal (first second : List Char) : Alike (.literal first) (.literal second)

/-- Letters, dots and white space: what the name of a package is written with, unless a comment
stands in it. -/
def IsPlain (text : List Char) : Prop :=
  ∀ value ∈ text, isWordChar value ∨ value = '.' ∨ isSpace value

instance (text : List Char) : Decidable (IsPlain text) :=
  List.decidableBAll (fun value => isWordChar value ∨ value = '.' ∨ isSpace value) text

structure Lexeme.IsCut (lexeme : Lexeme) : Prop where
  layout : IsLayout lexeme.before
  quoted : ∀ text, lexeme.token = .literal text → ¬IsPlain text

/-- Trees with the same token, or with the same brackets around anything. -/
inductive TokenTree.Alike : TokenTree → TokenTree → Prop
  | leaf {first second : Lexeme} (token : first.token.Alike second.token) (isCut : first.IsCut)
      (isCut' : second.IsCut) : Alike (.leaf first) (.leaf second)
  | group (bracket : Bracket) (inner inner' : List TokenTree) :
      Alike (.group bracket inner) (.group bracket inner')

/-- Open brackets with alike trees before them. -/
structure OpenGroup.Alike (first second : OpenGroup) : Prop where
  bracket : first.bracket = second.bracket
  before : List.Forall₂ TokenTree.Alike first.before second.before

/-- Items that say the same, if no comment stands in the names of packages. -/
inductive Item.Alike : Item → Item → Prop
  | package {name name' : List Char}
      (same : IsPlain name → IsPlain name' → qualifier name = qualifier name') :
      Alike (.package name) (.package name')
  | type (name : List Char) : Alike (.type name) (.type name)
  | other : Alike .other .other

/-! ## Lexemes and brackets -/

theorem LaidOut.isCut {text : List Char} {found : List Lexeme} (laidOut : LaidOut text found) :
    ∀ lexeme ∈ found, lexeme.IsCut := by
  induction laidOut with
  | done last => simp
  | next layout isRead more ih =>
      refine List.forall_mem_cons.mpr ⟨⟨layout, ?_⟩, ih⟩
      rintro _ rfl plain
      cases isRead with
      | @literal enclosure text _ escapes closes noBlock =>
          cases enclosure with
          | quotes | textBlock => exact absurd (plain '"' (by simp [Enclosure.opening])) (by decide)
          | character => exact absurd (plain '\'' (by simp [Enclosure.opening])) (by decide)
          | braces | lineComment | blockComment => cases escapes

namespace Token.Alike

variable {first second : Token}

theorem opening?_eq (alike : first.Alike second) : opening? first = opening? second := by
  cases alike <;> rfl

theorem isClosing_eq (alike : first.Alike second) : isClosing first = isClosing second := by
  cases alike <;> rfl

theorem eq_word_iff (alike : first.Alike second) (text : List Char) :
    first = .word text ↔ second = .word text := by
  cases alike <;> simp

theorem eq_mark_iff (alike : first.Alike second) (value : Char) :
    first = .mark value ↔ second = .mark value := by
  cases alike <;> simp

end Token.Alike

theorem closeGroup_alike {inside inside' : List TokenTree} {group group' : OpenGroup}
    (alike : group.Alike group') :
    List.Forall₂ Alike (closeGroup inside group) (closeGroup inside' group') := by
  rw [closeGroup, closeGroup, alike.bracket]
  exact .cons (.group _ _ _) alike.before

theorem foldl_closeGroup_alike {outer outer' : List OpenGroup}
    (groups : List.Forall₂ OpenGroup.Alike outer outer') {found found' : List TokenTree}
    (alike : List.Forall₂ Alike found found') :
    List.Forall₂ Alike (outer.foldl closeGroup found) (outer'.foldl closeGroup found') := by
  induction groups generalizing found found' with
  | nil => exact alike
  | cons group groups ih => exact ih (closeGroup_alike group)

theorem treesFrom_alike {lexemes lexemes' : List Lexeme}
    (tokens : List.Forall₂ (fun first second => first.token.Alike second.token) lexemes lexemes')
    (areCut : ∀ lexeme ∈ lexemes, lexeme.IsCut) (areCut' : ∀ lexeme ∈ lexemes', lexeme.IsCut)
    {outer outer' : List OpenGroup} (groups : List.Forall₂ OpenGroup.Alike outer outer')
    {found found' : List TokenTree} (alike : List.Forall₂ Alike found found') :
    List.Forall₂ Alike (treesFrom found outer lexemes) (treesFrom found' outer' lexemes') := by
  induction tokens generalizing outer outer' found found' with
  | nil => exact List.forall₂_reverse_iff.mpr (foldl_closeGroup_alike groups alike)
  | @cons first second rest rest' token more ih =>
      rw [List.forall_mem_cons] at areCut areCut'
      have leaf := TokenTree.Alike.leaf token areCut.1 areCut'.1
      replace ih := @ih areCut.2 areCut'.2
      rw [treesFrom.eq_def, treesFrom.eq_def found']
      simp only [token.opening?_eq, token.isClosing_eq]
      cases opening? second.token with
      | some bracket =>
          have opened : OpenGroup.Alike ⟨bracket, found⟩ ⟨bracket, found'⟩ := ⟨rfl, alike⟩
          exact ih (.cons opened groups) .nil
      | none =>
          cases groups with
          | nil =>
              cases isClosing second.token <;> exact ih .nil (.cons leaf alike)
          | cons group groups =>
              cases isClosing second.token with
              | true => exact ih groups (closeGroup_alike group)
              | false => exact ih (.cons group groups) (.cons leaf alike)

/-! ## Statements -/

namespace TokenTree.Alike

variable {first second : TokenTree}

theorem isWord_eq (alike : first.Alike second) (word : String) :
    first.isWord word = second.isWord word := by
  cases alike with
  | leaf token => simp only [isWord, token.eq_word_iff]
  | group bracket inner inner' => rfl

theorem word?_eq (alike : first.Alike second) : first.word? = second.word? := by
  cases alike with
  | @leaf first second token isCut isCut' =>
      obtain ⟨before, token⟩ := first
      obtain ⟨before', token'⟩ := second
      cases token with
      | same => cases token <;> rfl
      | literal => rfl
  | group bracket inner inner' => rfl

theorem isMark_eq (alike : first.Alike second) (value : Char) :
    first.isMark value = second.isMark value := by
  cases alike with
  | leaf token => simp only [isMark, token.eq_mark_iff]
  | group bracket inner inner' => rfl

theorem isGroup_eq (alike : first.Alike second) (bracket : Bracket) :
    first.isGroup bracket = second.isGroup bracket := by
  cases alike <;> rfl

theorem isModifier_eq (alike : first.Alike second) : isModifier first = isModifier second := by
  simp only [isModifier, alike.isWord_eq]

end TokenTree.Alike

section Cutting

variable {trees trees' : List TokenTree}

theorem head?_alike (alike : List.Forall₂ Alike trees trees') {holds : TokenTree → Bool}
    (same : ∀ {first second : TokenTree}, first.Alike second → holds first = holds second) :
    trees.head?.any holds = trees'.head?.any holds := by
  cases alike with
  | nil => rfl
  | cons head tail => exact same head

theorem ite_alike {holds : Prop} [Decidable holds] {others others' : List TokenTree}
    (alike : List.Forall₂ Alike trees trees') (othersAlike : List.Forall₂ Alike others others') :
    List.Forall₂ Alike (if holds then trees else others) (if holds then trees' else others') := by
  split
  next => exact alike
  next => exact othersAlike

theorem takeWhile_alike (alike : List.Forall₂ Alike trees trees')
    {holds : TokenTree → Bool}
    (same : ∀ {first second : TokenTree}, first.Alike second → holds first = holds second) :
    List.Forall₂ Alike (trees.takeWhile holds) (trees'.takeWhile holds) := by
  induction alike with
  | nil => exact .nil
  | cons head tail ih =>
      rw [List.takeWhile_cons, List.takeWhile_cons, same head]
      exact ite_alike (.cons head ih) .nil

theorem dropWhile_alike (alike : List.Forall₂ Alike trees trees')
    {holds : TokenTree → Bool}
    (same : ∀ {first second : TokenTree}, first.Alike second → holds first = holds second) :
    List.Forall₂ Alike (trees.dropWhile holds) (trees'.dropWhile holds) := by
  induction alike with
  | nil => exact .nil
  | cons head tail ih =>
      rw [List.dropWhile_cons, List.dropWhile_cons, same head]
      exact ite_alike ih (.cons head tail)

theorem afterBraces_alike (alike : List.Forall₂ Alike trees trees') :
    List.Forall₂ Alike (afterBraces trees) (afterBraces trees') :=
  List.forall₂_drop 1 (dropWhile_alike alike fun head => by rw [head.isGroup_eq])

theorem afterSemicolon_alike (alike : List.Forall₂ Alike trees trees') :
    List.Forall₂ Alike (afterSemicolon trees) (afterSemicolon trees') :=
  List.forall₂_drop 1 (dropWhile_alike alike fun head => by rw [head.isMark_eq])

theorem afterAnnotationName_alike (alike : List.Forall₂ Alike trees trees') :
    List.Forall₂ Alike (afterAnnotationName trees) (afterAnnotationName trees') := by
  fun_induction afterAnnotationName trees generalizing trees' with
  | case1 dot name rest continues ih =>
      obtain - | ⟨dots, - | ⟨names, rests⟩⟩ := alike
      rw [afterAnnotationName]
      rw [dots.isMark_eq, names.word?_eq] at continues
      rw [if_pos continues]
      exact ih rests
  | case2 dot name rest ends arguments =>
      obtain - | ⟨dots, - | ⟨names, rests⟩⟩ := alike
      rw [dots.isMark_eq, names.word?_eq] at ends
      rw [dots.isGroup_eq] at arguments
      rw [afterAnnotationName, if_neg ends, if_pos arguments]
      exact .cons names rests
  | case3 dot name rest ends noArguments =>
      obtain - | ⟨dots, - | ⟨names, rests⟩⟩ := alike
      rw [dots.isMark_eq, names.word?_eq] at ends
      rw [dots.isGroup_eq] at noArguments
      rw [afterAnnotationName, if_neg ends, if_neg noArguments]
      exact .cons dots (.cons names rests)
  | case4 last arguments =>
      obtain - | ⟨lasts, ⟨⟩⟩ := alike
      rw [lasts.isGroup_eq] at arguments
      rw [afterAnnotationName, if_pos arguments]
      exact .nil
  | case5 last noArguments =>
      obtain - | ⟨lasts, ⟨⟩⟩ := alike
      rw [lasts.isGroup_eq] at noArguments
      rw [afterAnnotationName, if_neg noArguments]
      exact .cons lasts .nil
  | case6 =>
      cases alike
      exact .nil

theorem afterModifiersWithin_alike (alike : List.Forall₂ Alike trees trees') (count : Nat) :
    List.Forall₂ Alike (afterModifiersWithin count trees)
      (afterModifiersWithin count trees') := by
  induction count generalizing trees trees' with
  | zero => exact alike
  | succ count ih =>
      obtain - | ⟨signs, - | ⟨names, rests⟩⟩ := alike
      · exact .nil
      · exact .cons signs .nil
      · simp only [afterModifiersWithin, signs.isMark_eq, signs.isWord_eq, signs.isModifier_eq,
          names.word?_eq, names.isWord_eq, names.isGroup_eq, names.isMark_eq]
        have whole := List.Forall₂.cons signs (.cons names rests)
        exact ite_alike (ih (afterAnnotationName_alike rests)) (ite_alike whole (ite_alike (ih rests)
          (ite_alike (ih (.cons names rests)) whole)))

theorem afterModifiers_alike (alike : List.Forall₂ Alike trees trees') :
    List.Forall₂ Alike (afterModifiers trees) (afterModifiers trees') := by
  rw [afterModifiers, afterModifiers, alike.length_eq]
  exact afterModifiersWithin_alike alike _

theorem afterSimple_alike (alike : List.Forall₂ Alike trees trees') (inExpression : Bool) :
    List.Forall₂ Alike (afterSimple inExpression trees)
      (afterSimple inExpression trees') := by
  induction alike generalizing inExpression with
  | nil => exact .nil
  | cons head tail ih =>
      have arrow := head?_alike tail fun next => next.isMark_eq '>'
      simp only [afterSimple, head.isMark_eq, head.isGroup_eq, head.isWord_eq, arrow]
      exact ite_alike tail (ite_alike tail (ih _))

theorem afterHandlers_alike (alike : List.Forall₂ Alike trees trees') :
    List.Forall₂ Alike (afterHandlers trees) (afterHandlers trees') := by
  fun_induction afterHandlers trees generalizing trees' with
  | case1 word head body rest isCatch ih =>
      obtain - | ⟨words, - | ⟨heads, - | ⟨bodies, rests⟩⟩⟩ := alike
      rw [words.isWord_eq, heads.isGroup_eq] at isCatch
      rw [afterHandlers, if_pos isCatch]
      exact ih rests
  | case2 word head body rest noCatch isFinally =>
      obtain - | ⟨words, - | ⟨heads, - | ⟨bodies, rests⟩⟩⟩ := alike
      rw [words.isWord_eq, heads.isGroup_eq] at noCatch
      rw [words.isWord_eq] at isFinally
      rw [afterHandlers, if_neg noCatch, if_pos isFinally]
      exact .cons bodies rests
  | case3 word head body rest noCatch noFinally =>
      obtain - | ⟨words, - | ⟨heads, - | ⟨bodies, rests⟩⟩⟩ := alike
      rw [words.isWord_eq, heads.isGroup_eq] at noCatch
      rw [words.isWord_eq] at noFinally
      rw [afterHandlers, if_neg noCatch, if_neg noFinally]
      exact .cons words (.cons heads (.cons bodies rests))
  | case4 word body isFinally =>
      obtain - | ⟨words, - | ⟨bodies, ⟨⟩⟩⟩ := alike
      rw [words.isWord_eq] at isFinally
      rw [afterHandlers, if_pos isFinally]
      exact .nil
  | case5 word body noFinally =>
      obtain - | ⟨words, - | ⟨bodies, ⟨⟩⟩⟩ := alike
      rw [words.isWord_eq] at noFinally
      rw [afterHandlers, if_neg noFinally]
      exact .cons words (.cons bodies .nil)
  | case6 rest noThree noTwo =>
      obtain - | ⟨words, - | ⟨bodies, - | ⟨thirds, rests⟩⟩⟩ := alike
      · exact .nil
      · exact .cons words .nil
      · exact absurd rfl (noTwo _ _)
      · exact absurd rfl (noThree _ _ _ _)

theorem isLabel_alike {name name' colon colon' : TokenTree} (names : name.Alike name')
    (colons : colon.Alike colon') (alike : List.Forall₂ Alike trees trees') :
    isLabel name colon trees = isLabel name' colon' trees' := by
  rw [isLabel, isLabel, names.word?_eq, colons.isMark_eq,
    head?_alike alike fun next => next.isMark_eq ':']

theorem afterStatement_alike (alike : List.Forall₂ Alike trees trees') (count : Nat) :
    List.Forall₂ Alike (afterStatement count trees) (afterStatement count trees') := by
  induction count generalizing trees trees' with
  | zero => exact alike
  | succ count ih =>
      have leaves := afterModifiers_alike alike
      rw [afterStatement, afterStatement]
      generalize afterModifiers trees = core at leaves
      generalize afterModifiers trees' = core' at leaves
      obtain - | @⟨first, first', rest, rest', firsts, rests⟩ := leaves
      · exact .nil
      have body := ih (List.forall₂_drop 1 rests)
      simp only [firsts.isGroup_eq, firsts.isWord_eq]
      refine ite_alike rests (ite_alike ?branches (ite_alike body ?others))
      case branches =>
        -- What follows the first branch may go on with it.
        generalize afterStatement count (rest.drop 1) = following at body
        generalize afterStatement count (rest'.drop 1) = following' at body
        obtain - | ⟨nexts, others⟩ := body
        · exact .nil
        · simp only [nexts.isWord_eq]
          exact ite_alike (ih others) (.cons nexts others)
      case others =>
        refine ite_alike (afterSemicolon_alike (ih rests)) (ite_alike
          (afterHandlers_alike (afterBraces_alike rests)) (ite_alike (afterBraces_alike rests) ?_))
        obtain - | ⟨colons, bodies⟩ := rests
        · exact .nil
        · simp only [isLabel_alike firsts colons bodies]
          exact ite_alike (ih bodies) (afterSimple_alike (.cons firsts (.cons colons bodies)) false)

end Cutting

/-! ## Items -/

section Items

variable {trees trees' : List TokenTree}

theorem IsLayout.isSpace_of_isPlain {text : List Char} (layout : IsLayout text)
    (plain : IsPlain text) : ∀ value ∈ text, isSpace value := by
  induction layout with
  | nil => simp
  | space space more ih =>
      have later : IsPlain _ := fun value listed => plain value (.tail _ listed)
      exact List.forall_mem_cons.mpr ⟨space, ih later⟩
  | @comment enclosure text rest comment closes more ih =>
      have noSlash : '/' ∉ enclosure.opening := fun listed =>
        absurd (plain '/' (List.mem_append_left _ listed)) (by decide)
      cases enclosure with
      | lineComment | blockComment => exact absurd (.head _) noSlash
      | quotes | textBlock | character | braces => cases comment

theorem isBlank_of_isSpace {value : Char} (space : isSpace value) : Text.isBlank value := by
  simp only [isSpace, Bool.or_eq_true, decide_eq_true_eq, or_assoc] at space
  rcases space with rfl | rfl | rfl | rfl | rfl | rfl <;> decide

theorem isPlain_append {text more : List Char} :
    IsPlain (text ++ more) ↔ IsPlain text ∧ IsPlain more :=
  List.forall_mem_append

theorem qualifier_append (text more : List Char) :
    qualifier (text ++ more) = qualifier text ++ qualifier more := by
  simp [qualifier, Text.withoutBlanks]

theorem qualifier_of_isSpace {text : List Char} (spaces : ∀ value ∈ text, isSpace value) :
    qualifier text = [] := by
  rw [qualifier, Text.withoutBlanks, List.filter_eq_nil_iff.mpr, List.map_nil]
  intro value listed
  simp [isBlank_of_isSpace (spaces value listed)]

theorem qualifier_tokenText {first second : TokenTree} (alike : first.Alike second)
    (plain : IsPlain first.tokenText) : qualifier first.tokenText = qualifier second.tokenText := by
  cases alike with
  | @leaf first second token isCut isCut' =>
      obtain ⟨before, token⟩ := first
      obtain ⟨before', token'⟩ := second
      cases token with
      | same => rfl
      | literal text => exact absurd plain (isCut.quoted text rfl)
  | group bracket inner inner' => rfl

theorem qualifier_spelled {first second : TokenTree} (alike : first.Alike second)
    (plain : IsPlain first.spelled) (plain' : IsPlain second.spelled) :
    qualifier first.spelled = qualifier second.spelled := by
  have tokens := qualifier_tokenText alike
  cases alike with
  | leaf token isCut isCut' =>
      rw [spelled, isPlain_append] at plain plain'
      rw [spelled, spelled, qualifier_append, qualifier_append, qualifier_of_isSpace
        (isCut.layout.isSpace_of_isPlain plain.1), qualifier_of_isSpace
        (isCut'.layout.isSpace_of_isPlain plain'.1)]
      exact tokens plain.2
  | group bracket inner inner' => rfl

theorem qualifier_flatMap (alike : List.Forall₂ Alike trees trees')
    (plain : IsPlain (trees.flatMap spelled)) (plain' : IsPlain (trees'.flatMap spelled)) :
    qualifier (trees.flatMap spelled) = qualifier (trees'.flatMap spelled) := by
  induction alike with
  | nil => rfl
  | cons head tail ih =>
      rw [List.flatMap_cons, isPlain_append] at plain plain'
      rw [List.flatMap_cons, List.flatMap_cons, qualifier_append, qualifier_append,
        qualifier_spelled head plain.1 plain'.1, ih plain.2 plain'.2]

theorem qualifier_packageText (alike : List.Forall₂ Alike trees trees')
    (plain : IsPlain (packageText trees)) (plain' : IsPlain (packageText trees')) :
    qualifier (packageText trees) = qualifier (packageText trees') := by
  have name := takeWhile_alike alike fun {first second} (head : first.Alike second) =>
    show (!first.isMark ';') = !second.isMark ';' by rw [head.isMark_eq]
  rw [packageText] at plain plain' ⊢
  rw [packageText]
  generalize trees.takeWhile _ = named at *
  generalize trees'.takeWhile _ = named' at *
  obtain - | ⟨head, tail⟩ := name
  · rfl
  · rw [isPlain_append] at plain plain'
    rw [qualifier_append, qualifier_append, qualifier_tokenText head plain.1,
      qualifier_flatMap tail plain.2 plain'.2]

theorem typeName?_alike (alike : List.Forall₂ Alike trees trees') :
    typeName? trees = typeName? trees' := by
  obtain - | ⟨firsts, - | ⟨seconds, - | ⟨thirds, rests⟩⟩⟩ := alike
  · rfl
  · rfl
  · rfl
  · simp only [typeName?, firsts.isWord_eq, firsts.isMark_eq, seconds.isWord_eq, seconds.word?_eq,
      thirds.isGroup_eq, thirds.isMark_eq, thirds.word?_eq]

theorem hasBody_alike (alike : List.Forall₂ Alike trees trees') :
    hasBody trees = hasBody trees' := by
  induction alike with
  | nil => rfl
  | cons head tail ih =>
      rw [hasBody, hasBody] at ih
      rw [hasBody, hasBody, List.find?_cons, List.find?_cons, head.isGroup_eq, head.isMark_eq]
      split
      next => simp only [Option.any_some, head.isGroup_eq]
      next => exact ih

theorem item_alike (alike : List.Forall₂ Alike trees trees') :
    (item trees).1.Alike (item trees').1 ∧
      List.Forall₂ Alike (item trees).2 (item trees').2 := by
  have leaves := afterModifiers_alike alike
  have braces := afterBraces_alike leaves
  have name := typeName?_alike leaves
  have body := hasBody_alike leaves
  have statement := afterStatement_alike alike trees'.length
  rw [item, item, alike.length_eq]
  generalize afterModifiers trees = core at *
  generalize afterModifiers trees' = core' at *
  obtain - | ⟨firsts, rests⟩ := leaves
  · exact ⟨.other, .nil⟩
  simp only [firsts.isWord_eq, name, body]
  split_ifs
  · exact ⟨.package (qualifier_packageText rests), afterSemicolon_alike rests⟩
  · exact ⟨.other, afterSemicolon_alike rests⟩
  · split
    next => exact ⟨.type _, braces⟩
    next => exact ⟨.other, statement⟩

theorem itemsWithin_alike (alike : List.Forall₂ Alike trees trees') (count : Nat) :
    List.Forall₂ Item.Alike (itemsWithin count trees) (itemsWithin count trees') := by
  induction count generalizing trees trees' with
  | zero => exact .nil
  | succ count ih =>
      cases alike with
      | nil => exact .nil
      | cons head tail =>
          have first := item_alike (.cons head tail)
          rw [itemsWithin, itemsWithin]
          · exact .cons first.1 (ih first.2)
          · simp
          · simp

end Items

/-! ## Outlines -/

theorem outline_alike {first second : String} {found found' : List Lexeme}
    (laidOut : LaidOut (withoutOrderMark first.toList) found)
    (laidOut' : LaidOut (withoutOrderMark second.toList) found')
    (alike : List.Forall₂ Token.Alike (found.map Lexeme.token) (found'.map Lexeme.token)) :
    List.Forall₂ Item.Alike (outline first) (outline second) := by
  rw [List.forall₂_map_left_iff, List.forall₂_map_right_iff] at alike
  have trees := treesFrom_alike alike laidOut.isCut laidOut'.isCut .nil .nil
  rw [outline, outline]
  simp only [lexemes_of_laidOut laidOut, lexemes_of_laidOut laidOut', JavaSource.trees,
    trees.length_eq]
  exact itemsWithin_alike trees _

section Names

variable {items items' : List Item}

theorem typeNames_alike (alike : List.Forall₂ Item.Alike items items') :
    typeNames items = typeNames items' := by
  induction alike with
  | nil => rfl
  | cons head tail ih =>
      rw [typeNames] at ih ⊢
      rw [typeNames] at ih ⊢
      cases head <;> simp [ih]

theorem packageNames_alike (alike : List.Forall₂ Item.Alike items items') :
    List.Forall₂ (fun name name' => IsPlain name → IsPlain name' → qualifier name = qualifier name')
      (packageNames items) (packageNames items') := by
  induction alike with
  | nil => exact .nil
  | cons head tail ih =>
      rw [packageNames] at ih ⊢
      rw [packageNames] at ih ⊢
      cases head with
      | package same => exact .cons same ih
      | type name => exact ih
      | other => exact ih

theorem declaredType?_isNone (alike : List.Forall₂ Item.Alike items items') (stem : List Char) :
    declaredType? items stem = none ↔ declaredType? items' stem = none := by
  rw [declaredType?, declaredType?, typeNames_alike alike, Option.map_eq_none_iff,
    Option.map_eq_none_iff]

theorem declaredType?_alike (alike : List.Forall₂ Item.Alike items items')
    (plain : ∀ name ∈ (packageNames items).getLast?, IsPlain name)
    (plain' : ∀ name ∈ (packageNames items').getLast?, IsPlain name) (stem : List Char) :
    declaredType? items stem = declaredType? items' stem := by
  have packages := List.forall₂_reverse_iff.mpr (packageNames_alike alike)
  rw [declaredType?, declaredType?, typeNames_alike alike]
  rw [← List.head?_reverse] at plain plain' ⊢
  rw [← List.head?_reverse]
  generalize (packageNames items).reverse = names at *
  generalize (packageNames items').reverse = names' at *
  obtain - | ⟨same, -⟩ := packages
  · rfl
  · simp only [List.head?_cons, same (plain _ rfl) (plain' _ rfl)]

end Names

/-- Texts with the same tokens declare the same types, wherever their white space and comments stand,
and one has no declared type if the other has none.  The answers are the same if no comment stands in
the name of the package that counts; white space may stand there. -/
theorem layout_is_ignored {first second : String} {found found' : List Lexeme}
    (laidOut : LaidOut (withoutOrderMark first.toList) found)
    (laidOut' : LaidOut (withoutOrderMark second.toList) found')
    (tokens : List.Forall₂ Token.Alike (found.map Lexeme.token) (found'.map Lexeme.token))
    (stem : String) :
    typeNames (outline first) = typeNames (outline second) ∧
      (resolve? first stem = none ↔ resolve? second stem = none) ∧
      ((∀ name ∈ (packageNames (outline first)).getLast?, IsPlain name) →
        (∀ name ∈ (packageNames (outline second)).getLast?, IsPlain name) →
        resolve? first stem = resolve? second stem) := by
  have alike := outline_alike laidOut laidOut' tokens
  rw [resolve?, resolve?, Option.map_eq_none_iff, Option.map_eq_none_iff]
  refine ⟨typeNames_alike alike, declaredType?_isNone alike _, fun plain plain' => ?_⟩
  rw [declaredType?_alike alike plain plain']

/-- White space stands in the name of a package. -/
def spacedSource : String := "package a . b;\nenum A \x7b \x7d"

def spacedLexemes : List Lexeme :=
  [⟨[], .word "package".toList⟩, ⟨[' '], .word ['a']⟩, ⟨[' '], .mark '.'⟩, ⟨[' '], .word ['b']⟩,
    ⟨[], .mark ';'⟩, ⟨['\n'], .word "enum".toList⟩, ⟨[' '], .word ['A']⟩, ⟨[' '], .mark '\x7b'⟩,
    ⟨[' '], .mark '\x7d'⟩]

/-- Comments stand outside of the name of a package. -/
def commentedSource : String := "package a.b; // \x7b\nenum A/**/\x7b\x7d"

def commentedLexemes : List Lexeme :=
  [⟨[], .word "package".toList⟩, ⟨[' '], .word ['a']⟩, ⟨[], .mark '.'⟩, ⟨[], .word ['b']⟩,
    ⟨[], .mark ';'⟩, ⟨" // \x7b\n".toList, .word "enum".toList⟩, ⟨[' '], .word ['A']⟩,
    ⟨"/**/".toList, .mark '\x7b'⟩, ⟨[], .mark '\x7d'⟩]

theorem laidOut_spacedSource : LaidOut (withoutOrderMark spacedSource.toList) spacedLexemes := by
  iterate 9 first
    | refine .word (isLayout_of_spaces (by decide)) (by decide) (by decide) ?_
    | refine .mark (isLayout_of_spaces (by decide)) (by decide) (by decide) ?_
  exact .done (.layout .nil)

theorem laidOut_commentedSource :
    LaidOut (withoutOrderMark commentedSource.toList) commentedLexemes := by
  have line : IsLayout " // \x7b\n".toList :=
    .space (by decide) (@IsLayout.comment .lineComment " \x7b\n".toList [] rfl
      (.plain (by decide) nofun nofun (.plain (by decide) nofun nofun (.closing _))) .nil)
  have block : IsLayout "/**/".toList := @IsLayout.comment .blockComment _ [] rfl (.closing _) .nil
  iterate 5 first
    | refine .word (isLayout_of_spaces (by decide)) (by decide) (by decide) ?_
    | refine .mark (isLayout_of_spaces (by decide)) (by decide) (by decide) ?_
  refine .word line (by decide) (by decide) ?_
  refine .word (isLayout_of_spaces (by decide)) (by decide) (by decide) ?_
  refine .mark block (by decide) (by decide) ?_
  exact .mark .nil (by decide) (by decide) (.done (.layout .nil))

theorem layout_is_ignored_spaced : resolve? spacedSource "A" = resolve? commentedSource "A" := by
  have tokens : spacedLexemes.map Lexeme.token = commentedLexemes.map Lexeme.token := by decide
  exact (layout_is_ignored laidOut_spacedSource laidOut_commentedSource
    (tokens ▸ List.forall₂_same.mpr fun _ _ => .same _) "A").2.2 (by decide) (by decide)

/-- A comment in the name of a package is taken for a part of it. -/
example : resolve? "package a/*x*/.b;\nclass Foo \x7b\x7d" "Foo" = some "a/*x*//b/Foo" := by
  decide

end AbiBuild.JavaSource
