import AbiBuild.JavaSource.Lexeme

/-!
# How Java text is laid out

A text is a row of tokens with white space and comments around them.  Cutting such a text gives the
tokens back, whatever stands inside its literals and comments.
-/

namespace AbiBuild.JavaSource

/-! ## What is enclosed -/

namespace Enclosure

def opening : Enclosure → List Char
  | quotes => ['"']
  | textBlock => ['"', '"', '"']
  | character => ['\'']
  | braces => ['\x7b']
  | lineComment => ['/', '/']
  | blockComment => ['/', '*']

def closing : Enclosure → List Char
  | quotes => ['"']
  | textBlock => ['"', '"', '"']
  | character => ['\'']
  | braces => ['\x7d']
  | lineComment => ['\n']
  | blockComment => ['*', '/']

def escapes : Enclosure → Bool
  | quotes | textBlock | character => true
  | braces | lineComment | blockComment => false

def embeds : Enclosure → Bool
  | quotes | textBlock => true
  | character | braces | lineComment | blockComment => false

def isComment : Enclosure → Bool
  | lineComment | blockComment => true
  | quotes | textBlock | character | braces => false

end Enclosure

open Enclosure

/-- What follows the opening of an enclosure, up to and with its end.  In braces there may be
anything that is enclosed in turn. -/
inductive Closes : Enclosure → List Char → Prop
  | closing (enclosure : Enclosure) : Closes enclosure enclosure.closing
  | plain {enclosure : Enclosure} {value : Char} {rest : List Char}
      (open' : ¬enclosure.closing <+: value :: rest)
      (unescaped : enclosure.escapes → value ≠ '\\')
      (simple : enclosure = braces → ∀ inner : Enclosure, ¬inner.opening <+: value :: rest)
      (more : Closes enclosure rest) : Closes enclosure (value :: rest)
  | escape {enclosure : Enclosure} {value : Char} {rest : List Char} (escapes : enclosure.escapes)
      (noExpression : enclosure.embeds → value ≠ '\x7b') (more : Closes enclosure rest) :
      Closes enclosure ('\\' :: value :: rest)
  | expression {enclosure : Enclosure} {embedded rest : List Char} (embeds : enclosure.embeds)
      (inside : Closes braces embedded) (more : Closes enclosure rest) :
      Closes enclosure ('\\' :: '\x7b' :: (embedded ++ rest))
  | nested {inner : Enclosure} {enclosed rest : List Char} (inside : Closes inner enclosed)
      (noBlock : inner = quotes → ¬['"', '"'] <+: enclosed ++ rest) (more : Closes braces rest) :
      Closes braces (inner.opening ++ (enclosed ++ rest))

theorem taking_taking (first second : List Char) (result : List Char × List Char) :
    taking first (taking second result) = taking (first ++ second) result := by
  simp [taking]

theorem not_prefix_append {start text : List Char} (short : start.length ≤ text.length)
    (different : ¬start <+: text) (after : List Char) : ¬start <+: text ++ after :=
  fun begins => different (List.prefix_of_prefix_length_le begins (List.prefix_append _ _) short)

namespace Closes

variable {enclosure : Enclosure} {text : List Char}

theorem length_closing_le (closes : Closes enclosure text) :
    enclosure.closing.length ≤ text.length := by
  induction closes with
  | closing enclosure => exact Nat.le_refl _
  | plain _ _ _ _ ih => exact Nat.le_trans ih (by simp)
  | escape _ _ _ ih => exact Nat.le_trans ih (by simp; omega)
  | expression _ _ _ _ ih => exact Nat.le_trans ih (by simp; omega)
  | nested _ _ _ _ ih => exact Nat.le_trans ih (by simp; omega)

theorem length_pos (closes : Closes enclosure text) : 0 < text.length :=
  Nat.lt_of_lt_of_le (by cases enclosure <;> decide) closes.length_closing_le

end Closes

/-! ## The end of a literal -/

section LiteralEnd

variable {enclosure inner : Enclosure} {value : Char}

theorem literalEnd_closing (enclosure : Enclosure) (outer : List Enclosure) (rest : List Char) :
    literalEnd (enclosure :: outer) (enclosure.closing ++ rest) =
      taking enclosure.closing (literalEnd outer rest) := by
  cases enclosure <;> simp [closing, literalEnd]

theorem literalEnd_plain {rest : List Char} (open' : ¬enclosure.closing <+: value :: rest)
    (unescaped : enclosure.escapes → value ≠ '\\')
    (simple : enclosure = braces → ∀ inner : Enclosure, ¬inner.opening <+: value :: rest)
    (outer : List Enclosure) : literalEnd (enclosure :: outer) (value :: rest) =
      taking [value] (literalEnd (enclosure :: outer) rest) := by
  cases enclosure with
  | quotes =>
      have unescaped : value ≠ '\\' := unescaped rfl
      have open' : '"' ≠ value := by simpa [closing] using open'
      rw [literalEnd.eq_4 _ _ _ fun _ _ escape => absurd escape unescaped, if_neg open'.symm]
  | textBlock =>
      have unescaped : value ≠ '\\' := unescaped rfl
      rw [literalEnd.eq_7 _ _ _ (fun _ _ escape => absurd escape unescaped)]
      rintro rest' rfl rfl
      simp [closing] at open'
  | character =>
      have unescaped : value ≠ '\\' := unescaped rfl
      have open' : '\'' ≠ value := by simpa [closing] using open'
      rw [literalEnd.eq_9 _ _ _ fun _ _ escape => absurd escape unescaped, if_neg open'.symm]
  | braces =>
      have simple := simple rfl
      have noQuote : '"' ≠ value := by simpa [opening] using simple quotes
      have noCharacter : '\'' ≠ value := by simpa [opening] using simple character
      have noBrace : '\x7b' ≠ value := by simpa [opening] using simple braces
      have open' : '\x7d' ≠ value := by simpa [closing] using open'
      rw [literalEnd.eq_13 _ _ _ (fun _ same => absurd same.symm noQuote), if_neg noQuote.symm,
        if_neg noCharacter.symm, if_neg noBrace.symm, if_neg open'.symm]
      · rintro rest' rfl rfl
        exact simple lineComment (by simp [opening])
      · rintro rest' rfl rfl
        exact simple blockComment (by simp [opening])
  | lineComment =>
      have open' : '\n' ≠ value := by simpa [closing] using open'
      rw [literalEnd.eq_14, if_neg open'.symm]
  | blockComment =>
      rw [literalEnd.eq_16]
      rintro rest' rfl rfl
      simp [closing] at open'

theorem literalEnd_escape (escapes : enclosure.escapes)
    (noExpression : enclosure.embeds → value ≠ '\x7b') (outer : List Enclosure) (rest : List Char) :
    literalEnd (enclosure :: outer) ('\\' :: value :: rest) =
      taking ['\\', value] (literalEnd (enclosure :: outer) rest) := by
  cases enclosure with
  | quotes => rw [literalEnd, if_neg (noExpression rfl)]
  | textBlock => rw [literalEnd, if_neg (noExpression rfl)]
  | character => rw [literalEnd]
  | braces | lineComment | blockComment => cases escapes

theorem literalEnd_expression (embeds : enclosure.embeds) (outer : List Enclosure)
    (rest : List Char) : literalEnd (enclosure :: outer) ('\\' :: '\x7b' :: rest) =
      taking ['\\', '\x7b'] (literalEnd (braces :: enclosure :: outer) rest) := by
  cases enclosure with
  | quotes | textBlock => rw [literalEnd, if_pos rfl]
  | character | braces | lineComment | blockComment => cases embeds

theorem literalEnd_opening {rest : List Char} (noBlock : inner = quotes → ¬['"', '"'] <+: rest)
    (outer : List Enclosure) : literalEnd (braces :: outer) (inner.opening ++ rest) =
      taking inner.opening (literalEnd (inner :: braces :: outer) rest) := by
  cases inner with
  | quotes =>
      rw [opening, List.singleton_append, literalEnd.eq_13, if_pos rfl]
      · rintro rest' - rfl
        exact noBlock rfl (by simp)
      · simp
      · simp
  | textBlock => rw [opening, List.cons_append, List.cons_append, List.singleton_append, literalEnd]
  | character => rw [opening, List.singleton_append, literalEnd.eq_13] <;> simp
  | braces => rw [opening, List.singleton_append, literalEnd.eq_13] <;> simp
  | lineComment => rw [opening, List.cons_append, List.singleton_append, literalEnd]
  | blockComment => rw [opening, List.cons_append, List.singleton_append, literalEnd]

theorem literalEnd_of_closes {text : List Char} (closes : Closes enclosure text)
    (outer : List Enclosure) (after : List Char) :
    literalEnd (enclosure :: outer) (text ++ after) = taking text (literalEnd outer after) := by
  induction closes generalizing outer after with
  | closing enclosure => exact literalEnd_closing enclosure outer after
  | @plain enclosure value rest open' unescaped simple more ih =>
      have long := Nat.le_trans more.length_closing_le (Nat.le_succ _)
      have open' : ¬enclosure.closing <+: value :: (rest ++ after) :=
        not_prefix_append long open' after
      rw [List.cons_append, literalEnd_plain open' unescaped, ih, taking_taking,
        List.singleton_append]
      rintro rfl inner begins
      -- What opens a text block may be longer than what is there, but it begins with a quote.
      by_cases block : inner = textBlock
      · subst block
        have noQuote : '"' ≠ value := by simpa [opening] using simple rfl quotes
        exact noQuote (List.cons_prefix_cons.mp begins).1
      · have short : inner.opening.length ≤ 2 := by
          cases inner <;> first | decide | exact absurd rfl block
        have pos := more.length_pos
        refine not_prefix_append (Nat.le_trans short ?_) (simple rfl inner) after begins
        rw [List.length_cons]
        omega
  | escape escapes noExpression more ih =>
      rw [List.cons_append, List.cons_append, literalEnd_escape escapes noExpression, ih,
        taking_taking]
      rfl
  | expression embeds inside more ihInside ih =>
      rw [List.cons_append, List.cons_append, List.append_assoc, literalEnd_expression embeds,
        ihInside, ih, taking_taking, taking_taking]
      rfl
  | @nested inner enclosed rest inside noBlock more ihInside ih =>
      rw [List.append_assoc, List.append_assoc, literalEnd_opening, ihInside, ih, taking_taking,
        taking_taking, List.append_assoc]
      intro quoted
      rw [← List.append_assoc]
      refine not_prefix_append ?_ (noBlock quoted) after
      have first := inside.length_pos
      have second := more.length_pos
      rw [List.length_append]
      simp only [List.length_cons, List.length_nil]
      omega

end LiteralEnd

/-! ## White space and comments -/

inductive IsLayout : List Char → Prop
  | nil : IsLayout []
  | space {value : Char} {rest : List Char} (space : isSpace value) (more : IsLayout rest) :
      IsLayout (value :: rest)
  | comment {enclosure : Enclosure} {text rest : List Char} (comment : enclosure.isComment)
      (closes : Closes enclosure text) (more : IsLayout rest) :
      IsLayout (enclosure.opening ++ (text ++ rest))

inductive IsLastLayout : List Char → Prop
  | layout {text : List Char} (layout : IsLayout text) : IsLastLayout text
  | comment {text line : List Char} (layout : IsLayout text) (one : '\n' ∉ line) :
      IsLastLayout (text ++ '/' :: '/' :: line)

structure Resumes (text : List Char) : Prop where
  noSpace : ∀ value ∈ text.head?, isSpace value = false
  noComment : ∀ enclosure : Enclosure, enclosure.isComment → ¬enclosure.opening <+: text

theorem skipped_lineComment {text : List Char} (closes : Closes lineComment text)
    (after : List Char) :
    skipped .lineComment (text ++ after) = taking text (skipped .between after) := by
  generalize same : lineComment = enclosure at closes
  induction closes with
  | closing _ =>
      subst same
      simp [closing, skipped]
  | @plain _ value rest open' _ _ _ ih =>
      subst same
      have open' : '\n' ≠ value := by simpa [closing] using open'
      rw [List.cons_append, skipped, if_neg open'.symm, ih rfl, taking_taking]
      rfl
  | escape escapes => subst same; cases escapes
  | expression embeds => subst same; cases embeds
  | nested => cases same

theorem skipped_blockComment {text : List Char} (closes : Closes blockComment text)
    (after : List Char) :
    skipped .blockComment (text ++ after) = taking text (skipped .between after) := by
  generalize same : blockComment = enclosure at closes
  induction closes with
  | closing _ =>
      subst same
      simp [closing, skipped]
  | @plain _ value rest open' _ _ more ih =>
      subst same
      have long := Nat.le_trans more.length_closing_le (Nat.le_succ _)
      have open' : ¬blockComment.closing <+: value :: (rest ++ after) :=
        not_prefix_append long open' after
      rw [List.cons_append, skipped, ih rfl, taking_taking]
      · rfl
      · rintro rest' rfl begins
        simp [closing, begins] at open'
  | escape escapes => subst same; cases escapes
  | expression embeds => subst same; cases embeds
  | nested => cases same

theorem skipped_resumes {text : List Char} (resumes : Resumes text) :
    skipped .between text = ([], text) := by
  cases text with
  | nil => rw [skipped]
  | cons value rest =>
      rw [skipped]
      · rw [if_neg]
        simpa using resumes.noSpace
      · rintro rest' rfl rfl
        exact resumes.noComment lineComment rfl (by simp [opening])
      · rintro rest' rfl rfl
        exact resumes.noComment blockComment rfl (by simp [opening])

theorem skipped_layout {text : List Char} (layout : IsLayout text) (after : List Char) :
    skipped .between (text ++ after) = taking text (skipped .between after) := by
  induction layout with
  | nil => rfl
  | @space value rest space more ih =>
      rw [List.cons_append, skipped, if_pos space, ih, taking_taking]
      · rfl
      · rintro _ rfl -
        cases space
      · rintro _ rfl -
        cases space
  | @comment enclosure text rest comment closes more ih =>
      rw [List.append_assoc, List.append_assoc]
      cases enclosure with
      | lineComment =>
          rw [opening, List.cons_append, List.singleton_append, skipped, skipped_lineComment closes,
            ih, taking_taking, taking_taking]
          rfl
      | blockComment =>
          rw [opening, List.cons_append, List.singleton_append, skipped, skipped_blockComment closes,
            ih, taking_taking, taking_taking]
          rfl
      | quotes | textBlock | character | braces => cases comment

theorem skipped_lastLayout {text : List Char} (layout : IsLastLayout text) :
    skipped .between text = (text, []) := by
  have line : ∀ line : List Char, '\n' ∉ line → skipped .lineComment line = (line, []) := by
    intro line one
    induction line with
    | nil => rw [skipped]
    | cons value line ih =>
        rw [List.mem_cons, not_or] at one
        rw [skipped, if_neg (Ne.symm one.1), ih one.2]
        rfl
  cases layout with
  | layout layout =>
      have all := skipped_layout layout []
      rw [List.append_nil, skipped] at all
      simpa [taking] using all
  | @comment text rest layout one =>
      rw [skipped_layout layout, skipped, line rest one]
      rfl

/-! ## Tokens -/

/-- A token as it is read where a text follows it.  A word ends before what cannot go on with it, a
slash begins no comment, and two quotes do not begin a text block. -/
inductive IsRead : Token → List Char → Prop
  | word {text after : List Char} (nonempty : text ≠ []) (letters : ∀ value ∈ text, isWordChar value)
      (ends : ∀ value ∈ after.head?, isWordChar value = false) : IsRead (.word text) after
  | mark {value : Char} {after : List Char} (noWord : isWordChar value = false)
      (noLiteral : ∀ inner : Enclosure, inner.escapes → ¬inner.opening <+: [value])
      (resumes : Resumes (value :: after)) : IsRead (.mark value) after
  | literal {enclosure : Enclosure} {text after : List Char} (escapes : enclosure.escapes)
      (closes : Closes enclosure text)
      (noBlock : enclosure = quotes → ¬['"', '"'] <+: text ++ after) :
      IsRead (.literal (enclosure.opening ++ text)) after

theorem takeWhile_append_of_ends {text after : List Char} {holds : Char → Bool}
    (all : ∀ value ∈ text, holds value) (ends : ∀ value ∈ after.head?, holds value = false) :
    (text ++ after).takeWhile holds = text ∧ (text ++ after).dropWhile holds = after := by
  rw [List.takeWhile_append_of_pos all, List.dropWhile_append_of_pos all]
  cases after with
  | nil => simp
  | cons value after =>
      have stops := ends value rfl
      rw [List.takeWhile_cons_of_neg (by simp [stops]), List.dropWhile_cons_of_neg (by simp [stops])]
      simp

theorem isSpace_of_isWordChar {value : Char} (letter : isWordChar value) :
    isSpace value = false := by
  rw [Bool.eq_false_iff]
  intro space
  simp only [isSpace, Bool.or_eq_true, decide_eq_true_eq, or_assoc] at space
  rcases space with rfl | rfl | rfl | rfl | rfl | rfl <;> exact absurd letter (by decide)

theorem resumes_of_ne_slash {value : Char} (noSpace : isSpace value = false) (noSlash : value ≠ '/')
    (after : List Char) : Resumes (value :: after) where
  noSpace := by simpa using noSpace
  noComment enclosure comment begins := by
    cases enclosure with
    | lineComment | blockComment => exact noSlash (List.cons_prefix_cons.mp begins).1.symm
    | quotes | textBlock | character | braces => cases comment

theorem token_word {first : Char} {text after : List Char} (letter : isWordChar first)
    (letters : ∀ value ∈ text, isWordChar value)
    (ends : ∀ value ∈ after.head?, isWordChar value = false) :
    token first (text ++ after) = (.word (first :: text), after) := by
  have noQuote : first ≠ '"' := by
    rintro rfl
    exact absurd letter (by decide)
  have noCharacter : first ≠ '\'' := by
    rintro rfl
    exact absurd letter (by decide)
  obtain ⟨taken, left⟩ := takeWhile_append_of_ends letters ends
  rw [token.eq_2 _ _ fun _ same => absurd same noQuote, if_neg noQuote, if_neg noCharacter,
    if_pos letter, taken, left]

theorem token_mark {value : Char} (noWord : isWordChar value = false)
    (noLiteral : ∀ inner : Enclosure, inner.escapes → ¬inner.opening <+: [value])
    (after : List Char) : token value after = (.mark value, after) := by
  have noQuote : '"' ≠ value := by simpa [opening] using noLiteral quotes rfl
  have noCharacter : '\'' ≠ value := by simpa [opening] using noLiteral character rfl
  rw [token.eq_2 _ _ fun _ same => absurd same.symm noQuote, if_neg noQuote.symm,
    if_neg noCharacter.symm, if_neg (by simp [noWord])]

theorem token_literal {enclosure : Enclosure} {text after : List Char} (escapes : enclosure.escapes)
    (closes : Closes enclosure text)
    (noBlock : enclosure = quotes → ¬['"', '"'] <+: text ++ after) :
    ∃ first rest, enclosure.opening ++ (text ++ after) = first :: rest ∧
      (first = '"' ∨ first = '\'') ∧
      token first rest = (.literal (enclosure.opening ++ text), after) := by
  have ends := literalEnd_of_closes closes [] after
  cases enclosure with
  | quotes =>
      refine ⟨'"', text ++ after, rfl, .inl rfl, ?_⟩
      rw [token.eq_2, if_pos rfl, ends]
      · simp [opening, taking, literalEnd]
      · rintro rest' - same
        exact noBlock rfl (same ▸ by simp)
  | textBlock =>
      refine ⟨'"', '"' :: '"' :: (text ++ after), rfl, .inl rfl, ?_⟩
      rw [token, ends]
      simp [opening, taking, literalEnd]
  | character =>
      refine ⟨'\'', text ++ after, rfl, .inr rfl, ?_⟩
      rw [token.eq_2 _ _ fun _ same => absurd same (by decide), if_neg (by decide), if_pos rfl, ends]
      simp [opening, taking, literalEnd]
  | braces | lineComment | blockComment => cases escapes

theorem IsRead.token_eq {read : Token} {after : List Char} (isRead : IsRead read after) :
    ∃ first rest, read.text ++ after = first :: rest ∧ Resumes (first :: rest) ∧
      token first rest = (read, after) := by
  cases isRead with
  | @word text _ nonempty letters ends =>
      obtain ⟨first, text, rfl⟩ := List.exists_cons_of_ne_nil nonempty
      rw [List.forall_mem_cons] at letters
      refine ⟨first, text ++ after, rfl, ?_, token_word letters.1 letters.2 ends⟩
      refine resumes_of_ne_slash (isSpace_of_isWordChar letters.1) ?_ _
      rintro rfl
      exact absurd letters.1 (by decide)
  | @mark value _ noWord noLiteral resumes =>
      exact ⟨value, after, rfl, resumes, token_mark noWord noLiteral after⟩
  | @literal enclosure text _ escapes closes noBlock =>
      obtain ⟨first, rest, text, quote, taken⟩ := token_literal escapes closes noBlock
      refine ⟨first, rest, by rw [Token.text, List.append_assoc, text], ?_, taken⟩
      rcases quote with rfl | rfl <;> exact resumes_of_ne_slash (by decide) (by decide) _

theorem IsRead.mark_of_ne {value : Char} (noWord : isWordChar value = false)
    (noSpace : isSpace value = false) (noSlash : value ≠ '/') (noQuote : value ≠ '"' ∧ value ≠ '\'')
    (after : List Char) : IsRead (.mark value) after := by
  refine .mark noWord (fun inner escapes begins => ?_) (resumes_of_ne_slash noSpace noSlash after)
  cases inner with
  | quotes | textBlock => exact noQuote.1 (List.cons_prefix_cons.mp begins).1.symm
  | character => exact noQuote.2 (List.cons_prefix_cons.mp begins).1.symm
  | braces | lineComment | blockComment => cases escapes

theorem IsRead.length_pos {read : Token} {after : List Char} (isRead : IsRead read after) :
    0 < read.text.length := by
  cases isRead with
  | word nonempty => exact List.length_pos_iff.mpr nonempty
  | mark => exact Nat.zero_lt_one
  | @literal enclosure =>
      rw [Token.text, List.length_append]
      cases enclosure <;> exact Nat.lt_add_right _ (by decide)

/-! ## Whole texts -/

/-- A text with its lexemes, each with the white space and comments before it. -/
inductive LaidOut : List Char → List Lexeme → Prop
  | done {text : List Char} (last : IsLastLayout text) : LaidOut text []
  | next {before after : List Char} {read : Token} {lexemes : List Lexeme}
      (layout : IsLayout before) (isRead : IsRead read after) (more : LaidOut after lexemes) :
      LaidOut (before ++ (read.text ++ after)) (⟨before, read⟩ :: lexemes)

theorem LaidOut.cut {text : List Char} {lexeme : Lexeme} {lexemes : List Lexeme}
    (begins : lexeme.before ++ lexeme.token.text <+: text) (layout : IsLayout lexeme.before)
    (isRead : IsRead lexeme.token (text.drop (lexeme.before ++ lexeme.token.text).length))
    (more : LaidOut (text.drop (lexeme.before ++ lexeme.token.text).length) lexemes) :
    LaidOut text (lexeme :: lexemes) := by
  obtain ⟨after, rfl⟩ := begins
  rw [List.drop_left] at isRead more
  rw [List.append_assoc]
  exact .next layout isRead more

theorem isLayout_of_spaces {text : List Char} (spaces : text.all isSpace) : IsLayout text := by
  induction text with
  | nil => exact .nil
  | cons value rest ih =>
      rw [List.all_cons, Bool.and_eq_true] at spaces
      exact .space spaces.1 (ih spaces.2)

theorem LaidOut.word {text before word : List Char} {lexemes : List Lexeme}
    (layout : IsLayout before) (begins : before ++ word <+: text)
    (letters : word ≠ [] ∧ word.all isWordChar ∧
      (text.drop (before ++ word).length).head?.all fun value => !isWordChar value)
    (more : LaidOut (text.drop (before ++ word).length) lexemes) :
    LaidOut text (⟨before, .word word⟩ :: lexemes) := by
  have ends := (Option.all_eq_true _ _).mp letters.2.2
  refine .cut begins layout (.word letters.1 (List.all_eq_true.mp letters.2.1) ?_) more
  exact fun value follows => by simpa using ends value follows

theorem LaidOut.mark {text before : List Char} {value : Char} {lexemes : List Lexeme}
    (layout : IsLayout before) (begins : before ++ [value] <+: text)
    (isMark : isWordChar value = false ∧ isSpace value = false ∧ value ≠ '/' ∧ value ≠ '"' ∧
      value ≠ '\'')
    (more : LaidOut (text.drop (before ++ [value]).length) lexemes) :
    LaidOut text (⟨before, .mark value⟩ :: lexemes) :=
  .cut begins layout (.mark_of_ne isMark.1 isMark.2.1 isMark.2.2.1 isMark.2.2.2 _) more

theorem lexemesWithin_of_laidOut {text : List Char} {found : List Lexeme}
    (laidOut : LaidOut text found) {count : Nat} (enough : text.length ≤ count) :
    lexemesWithin count text = found := by
  induction laidOut generalizing count with
  | @done text last =>
      cases count with
      | zero => rfl
      | succ count => rw [lexemesWithin, skipped_lastLayout last]
  | @next before after read lexemes layout isRead more ih =>
      obtain ⟨first, rest, text, resumes, cut⟩ := isRead.token_eq
      have length := congrArg List.length text
      rw [List.length_append, List.length_cons] at length
      rw [List.length_append, List.length_append] at enough
      have pos := isRead.length_pos
      cases count with
      | zero => omega
      | succ count =>
          rw [text, lexemesWithin, skipped_layout layout, skipped_resumes resumes]
          simp only [taking, List.append_nil, cut]
          rw [ih (by omega)]

theorem lexemes_of_laidOut {text : List Char} {found : List Lexeme}
    (laidOut : LaidOut (withoutOrderMark text) found) : lexemes text = found := by
  refine lexemesWithin_of_laidOut laidOut ?_
  rw [withoutOrderMark]
  split <;> simp

end AbiBuild.JavaSource
