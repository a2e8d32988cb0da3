import AbiBuild.Files.FileSystem
import Mathlib.Data.List.Basic

/-!
# Plain paths

A plain path is a list of names below the root or the working directory.  It is spelled in one way,
and a name is put below it by joining.
-/

namespace AbiBuild

/-! ## Pieces -/

namespace Text

theorem pieces_append (separator : Char) (first second : List Char) :
    pieces separator (first ++ separator :: second) =
      pieces separator first ++ pieces separator second := by
  induction first with
  | nil => simp [pieces]
  | cons value first ih =>
      rw [List.cons_append, pieces, pieces, ih]
      split
      · rfl
      · cases hpieces : pieces separator first with
        | nil => exact absurd hpieces (pieces_ne_nil separator first)
        | cons piece others => rfl

theorem pieces_of_not_mem {separator : Char} {text : List Char} (whole : separator ∉ text) :
    pieces separator text = [text] := by
  induction text with
  | nil => rfl
  | cons value text ih =>
      rw [List.mem_cons, not_or] at whole
      rw [pieces, if_neg (Ne.symm whole.1), ih whole.2]

theorem not_mem_of_mem_pieces {separator : Char} {text piece : List Char}
    (member : piece ∈ pieces separator text) : separator ∉ piece := by
  induction text generalizing piece with
  | nil =>
      obtain rfl := List.mem_singleton.mp member
      simp
  | cons value text ih =>
      rw [pieces] at member
      split at member
      · rcases List.mem_cons.mp member with rfl | later
        · simp
        · exact ih later
      next different =>
        cases hpieces : pieces separator text with
        | nil => exact absurd hpieces (pieces_ne_nil separator text)
        | cons first others =>
            rw [hpieces] at member ih
            rcases List.mem_cons.mp member with rfl | later
            · simp [Ne.symm different, ih (.head _)]
            · exact ih (.tail _ later)

theorem mem_of_mem_pieces {separator value : Char} {text piece : List Char}
    (member : piece ∈ pieces separator text) (there : value ∈ piece) : value ∈ text := by
  induction text generalizing piece with
  | nil =>
      obtain rfl := List.mem_singleton.mp member
      cases there
  | cons first text ih =>
      rw [pieces] at member
      split at member
      · rcases List.mem_cons.mp member with rfl | later
        · cases there
        · exact .tail _ (ih later there)
      · cases hpieces : pieces separator text with
        | nil => exact absurd hpieces (pieces_ne_nil separator text)
        | cons next others =>
            rw [hpieces] at member ih
            rcases List.mem_cons.mp member with rfl | later
            · rcases List.mem_cons.mp there with rfl | further
              · exact .head _
              · exact .tail _ (ih (.head _) further)
            · exact .tail _ (ih (.tail _ later) there)

theorem pieces_joinPieces {separator : Char} {parts : List (List Char)} (some' : parts ≠ [])
    (whole : ∀ part ∈ parts, separator ∉ part) :
    pieces separator (joinPieces separator parts) = parts := by
  induction parts with
  | nil => exact absurd rfl some'
  | cons part parts ih =>
      rw [List.forall_mem_cons] at whole
      cases parts with
      | nil => exact pieces_of_not_mem whole.1
      | cons next parts =>
          rw [joinPieces, pieces_append, pieces_of_not_mem whole.1, ih (by simp) whole.2]
          · rfl
          · simp

theorem toList_intercalate_slash (names : List String) :
    (String.intercalate "/" names).toList = joinPieces '/' (names.map String.toList) := by
  induction names with
  | nil => rfl
  | cons name names ih =>
      cases names with
      | nil => simp [joinPieces]
      | cons next names =>
          rw [String.intercalate_cons_cons, String.toList_append, String.toList_append, ih]
          simp [joinPieces]

end Text

namespace Files

open FileSystem

structure IsName (name : String) : Prop where
  nonempty : name ≠ ""
  not_current : name ≠ "."
  not_parent : name ≠ ".."
  whole : '/' ∉ name.toList

instance (name : String) : Decidable (IsName name) :=
  decidable_of_iff (name ≠ "" ∧ name ≠ "." ∧ name ≠ ".." ∧ '/' ∉ name.toList)
    ⟨fun ⟨nonempty, current, parent, whole⟩ => ⟨nonempty, current, parent, whole⟩,
      fun isName => ⟨isName.nonempty, isName.not_current, isName.not_parent, isName.whole⟩⟩

namespace Path

theorem head?_ne_slash {name : String} (whole : '/' ∉ name.toList) : name.toList.head? ≠ some '/' :=
  fun first => whole (List.mem_of_mem_head? first)

theorem isBlankSegment_of_isName {name : String} (isName : IsName name) :
    isBlankSegment name = false := by
  simp [isBlankSegment, isName.nonempty, isName.not_current]

theorem segments_injective {first second : Path} (same : first.segments = second.segments) :
    first = second := by
  cases first with
  | mk first =>
      cases second with
      | mk second =>
          simp only [segments, Text.splitOn] at same
          have pieces := List.map_injective_iff.mpr (fun _ _ => String.ofList_injective) same
          rw [mk.injEq, ← String.toList_inj, ← Text.joinPieces_pieces '/' first.toList,
            pieces, Text.joinPieces_pieces]

theorem segments_intercalate {names : List String} (some' : names ≠ [])
    (whole : ∀ name ∈ names, '/' ∉ name.toList) :
    (Path.mk (String.intercalate "/" names)).segments = names := by
  rw [segments, Text.splitOn, Text.toList_intercalate_slash, Text.pieces_joinPieces]
  · simp [Function.comp_def]
  · simpa using some'
  · intro part member
    obtain ⟨name, listed, rfl⟩ := List.mem_map.mp member
    exact whole name listed

theorem exists_segments_eq_cons (path : Path) :
    ∃ first others, path.segments = first :: others := by
  refine List.exists_cons_of_ne_nil ?_
  simp [segments, Text.splitOn, Text.pieces_ne_nil]

theorem not_mem_of_mem_segments {path : Path} {segment : String}
    (member : segment ∈ path.segments) : '/' ∉ segment.toList := by
  obtain ⟨piece, found, rfl⟩ := List.mem_map.mp member
  rw [String.toList_ofList]
  exact Text.not_mem_of_mem_pieces found

/-- The path is a list of names, below the root or below the working directory. -/
def Plain (path : Path) : Prop :=
  path.text ≠ "" ∧ ∀ segment ∈ steps path, IsName segment

instance (path : Path) : Decidable path.Plain := inferInstanceAs (Decidable (_ ∧ _))

theorem segments_join {base : Path} {name : String} (nonempty : base.text ≠ "")
    (open' : base.text.toList.getLast? ≠ some '/') (whole : '/' ∉ name.toList) :
    (base.join name).segments = base.segments ++ [name] := by
  rw [join, if_neg (head?_ne_slash whole), if_neg (by simp [nonempty, open'])]
  simp only [segments, Text.splitOn, String.toList_append]
  have slash : "/".toList = ['/'] := rfl
  rw [slash, List.append_assoc, List.singleton_append, Text.pieces_append,
    Text.pieces_of_not_mem whole, List.map_append]
  simp

theorem segments_of_isAbsolute {path : Path} (absolute : path.isAbsolute) :
    path.segments = "" :: steps path := by
  rw [steps, if_pos absolute]
  obtain ⟨rest, text⟩ : ∃ rest, path.text.toList = '/' :: rest := by
    cases text : path.text.toList with
    | nil => simp [isAbsolute, text] at absolute
    | cons first rest =>
        simp only [isAbsolute, text, List.head?_cons, decide_eq_true_eq, Option.some.injEq]
          at absolute
        exact ⟨rest, by rw [absolute]⟩
  simp [segments, Text.splitOn, text, Text.pieces]

theorem getLast?_steps_join_of_whole (base : Path) {segment : String} (nonempty : segment ≠ "")
    (whole : '/' ∉ segment.toList) : (steps (base.join segment)).getLast? = some segment := by
  have last : (base.join segment).segments.getLast? = some segment := by
    by_cases open' : base.text ≠ "" ∧ base.text.toList.getLast? ≠ some '/'
    · rw [segments_join open'.1 open'.2 whole]
      simp
    · have closed : base.text = "" ∨ base.text.toList.getLast? = some '/' := by
        by_cases empty : base.text = ""
        · exact .inl empty
        · exact .inr (by simpa [empty] using open')
      rw [join, if_neg (head?_ne_slash whole), if_pos (by simpa using closed)]
      rcases closed with empty | slash
      · simp [segments, Text.splitOn, empty, Text.pieces_of_not_mem whole]
      · obtain ⟨front, text⟩ := List.getLast?_eq_some_iff.mp slash
        simp [segments, Text.splitOn, text, Text.pieces_append, Text.pieces_of_not_mem whole]
  cases absolute : (base.join segment).isAbsolute with
  | false => rwa [steps, absolute]
  | true =>
      rw [segments_of_isAbsolute absolute] at last
      cases rest : steps (base.join segment) with
      | nil =>
          rw [rest] at last
          exact absurd (Option.some.inj last).symm nonempty
      | cons first others =>
          rw [rest] at last
          exact last

theorem getLast?_steps_join (base : Path) {name : String} (isName : IsName name) :
    (steps (base.join name)).getLast? = some name :=
  getLast?_steps_join_of_whole base isName.nonempty isName.whole

theorem steps_of_not_isAbsolute {path : Path} (relative : path.isAbsolute = false) :
    steps path = path.segments := by
  rw [steps, if_neg (by simp [relative])]

theorem getLast?_ne_slash {path : Path} (last : path.segments.getLast? ≠ some "") :
    path.text.toList.getLast? ≠ some '/' := by
  intro slash
  obtain ⟨front, text⟩ := List.getLast?_eq_some_iff.mp slash
  refine last ?_
  have cut : front ++ ['/'] = front ++ '/' :: [] := rfl
  rw [segments, Text.splitOn, text, cut, Text.pieces_append]
  simp [Text.pieces]

namespace Plain

variable {path : Path}

theorem steps_ne_nil (plain : path.Plain) : steps path ≠ [] := by
  intro empty
  cases absolute : path.isAbsolute with
  | false =>
      rw [steps_of_not_isAbsolute absolute] at empty
      have pieces := Text.pieces_ne_nil '/' path.text.toList
      simp [segments, Text.splitOn, pieces] at empty
  | true =>
      have segments := segments_of_isAbsolute absolute
      rw [empty] at segments
      refine plain.1 (String.toList_inj.mp ?_)
      have joined := Text.joinPieces_pieces '/' path.text.toList
      rw [Path.segments, Text.splitOn] at segments
      obtain ⟨piece, single, name⟩ : ∃ piece, Text.pieces '/' path.text.toList = [piece] ∧
          String.ofList piece = "" := by
        simpa [List.map_eq_cons_iff] using segments
      rw [single, Text.joinPieces] at joined
      rw [← joined, ← name, String.toList_ofList]

theorem getLast?_segments (plain : path.Plain) : path.segments.getLast? ≠ some "" := by
  intro last
  obtain ⟨final, listed⟩ : ∃ final, (steps path).getLast? = some final := by
    cases hlast : (steps path).getLast? with
    | none => exact absurd (List.getLast?_eq_none_iff.mp hlast) plain.steps_ne_nil
    | some final => exact ⟨final, rfl⟩
  have same : path.segments.getLast? = some final := by
    cases absolute : path.isAbsolute with
    | false => rw [← steps_of_not_isAbsolute absolute, listed]
    | true => rw [segments_of_isAbsolute absolute, List.getLast?_cons, listed]; rfl
  rw [last] at same
  exact (plain.2 final (List.mem_of_getLast? listed)).nonempty (Option.some.inj same).symm

theorem segments_join (plain : path.Plain) {name : String} (whole : '/' ∉ name.toList) :
    (path.join name).segments = path.segments ++ [name] :=
  Path.segments_join plain.1 (getLast?_ne_slash plain.getLast?_segments) whole

theorem isAbsolute_join (plain : path.Plain) {name : String} (whole : '/' ∉ name.toList) :
    (path.join name).isAbsolute = path.isAbsolute := by
  have last := getLast?_ne_slash plain.getLast?_segments
  rw [Path.join, if_neg (head?_ne_slash whole), if_neg (by simp [plain.1, last])]
  have nonempty : path.text.toList ≠ [] := by
    simpa using plain.1
  simp [isAbsolute, List.head?_append, List.head?_eq_some_head nonempty]

theorem steps_join (plain : path.Plain) {name : String} (whole : '/' ∉ name.toList) :
    steps (path.join name) = steps path ++ [name] := by
  have joined := plain.segments_join whole
  cases absolute : path.isAbsolute with
  | false =>
      rw [steps_of_not_isAbsolute (by rw [plain.isAbsolute_join whole, absolute]),
        steps_of_not_isAbsolute absolute, joined]
  | true =>
      have joinedAbsolute : (path.join name).isAbsolute := by
        rw [plain.isAbsolute_join whole, absolute]
      rw [segments_of_isAbsolute joinedAbsolute, segments_of_isAbsolute absolute] at joined
      exact (List.cons.inj joined).2

theorem join (plain : path.Plain) {name : String} (isName : IsName name) :
    (path.join name).Plain := by
  refine ⟨?_, ?_⟩
  · intro empty
    have joined := plain.segments_join isName.whole
    have split : (path.join name).segments = [""] := by
      rw [segments, empty]
      rfl
    rw [split] at joined
    have last := congrArg List.getLast? joined
    rw [List.getLast?_append] at last
    exact isName.nonempty (Option.some.inj last).symm
  · rw [plain.steps_join isName.whole]
    intro segment member
    rcases List.mem_append.mp member with before | here
    · exact plain.2 segment before
    · rw [List.mem_singleton.mp here]
      exact isName

theorem steps_foldl_join (plain : path.Plain) {names : List String}
    (isName : ∀ name ∈ names, IsName name) :
    steps (names.foldl Path.join path) = steps path ++ names := by
  induction names generalizing path with
  | nil => simp
  | cons name names ih =>
      rw [List.forall_mem_cons] at isName
      rw [List.foldl_cons, ih (plain.join isName.1) isName.2, plain.steps_join isName.1.whole,
        List.append_assoc]
      rfl

private theorem map_ofSegment {names : List String} (plain : ∀ name ∈ names, IsName name) :
    (names.filter (!isBlankSegment ·)).map Component.ofSegment = names.map Component.name := by
  induction names with
  | nil => rfl
  | cons name names ih =>
      rw [List.forall_mem_cons] at plain
      rw [List.filter_cons, if_pos (by simp [isBlankSegment_of_isName plain.1]), List.map_cons, List.map_cons, ih plain.2,
        Component.ofSegment, if_neg plain.1.not_parent]

theorem location_eq (plain : path.Plain) :
    path.location = (if path.isAbsolute then [Component.root] else []) ++
      (steps path).map Component.name := by
  rw [← map_ofSegment plain.2, location]
  cases absolute : path.isAbsolute with
  | true =>
      rw [segments_of_isAbsolute absolute]
      rfl
  | false =>
      rw [steps_of_not_isAbsolute absolute]
      cases hsegments : path.segments with
      | nil => rfl
      | cons first others =>
          have isName : IsName first := by
            refine plain.2 first ?_
            rw [steps_of_not_isAbsolute absolute, hsegments]
            exact .head _
          simp [isName.nonempty, isName.not_current, isBlankSegment_of_isName isName]

theorem eq_of_location {other : Path} (plain : path.Plain) (plainOther : other.Plain)
    (same : path.location = other.location) : path = other := by
  rw [plain.location_eq, plainOther.location_eq] at same
  have inj : ∀ {first second : List String},
      first.map Component.name = second.map Component.name → first = second :=
    fun heq => List.map_injective_iff.mpr (fun _ _ => Component.name.inj) heq
  apply segments_injective
  cases absolute : path.isAbsolute with
  | true =>
      cases absoluteOther : other.isAbsolute with
      | true =>
          rw [segments_of_isAbsolute absolute, segments_of_isAbsolute absoluteOther]
          simp only [absolute, absoluteOther, if_true, List.cons_append, List.nil_append,
            List.cons.injEq, true_and] at same
          rw [inj same]
      | false =>
          obtain ⟨first, rest, hsteps⟩ := List.exists_cons_of_ne_nil plainOther.steps_ne_nil
          simp [absolute, absoluteOther, hsteps] at same
  | false =>
      cases absoluteOther : other.isAbsolute with
      | true =>
          obtain ⟨first, rest, hsteps⟩ := List.exists_cons_of_ne_nil plain.steps_ne_nil
          simp [absolute, absoluteOther, hsteps] at same
      | false =>
          rw [← steps_of_not_isAbsolute absolute, ← steps_of_not_isAbsolute absoluteOther]
          simp only [absolute, absoluteOther, Bool.false_eq_true, if_false, List.nil_append] at same
          exact inj same

theorem isAbsolute_of_segments {names : List String} (names_ne_nil : names ≠ [])
    (segments : path.segments = "" :: names) : path.isAbsolute = true := by
  cases text : path.text.toList with
  | nil =>
      rw [Path.segments, Text.splitOn, text] at segments
      simp only [Text.pieces, List.map_cons, List.map_nil, List.cons.injEq] at segments
      exact absurd segments.2.symm names_ne_nil
  | cons value rest =>
      rw [Path.segments, Text.splitOn, text, Text.pieces] at segments
      split at segments
      next slash => simp [Path.isAbsolute, text, slash]
      next =>
        cases hrest : Text.pieces '/' rest with
        | nil => exact absurd hrest (Text.pieces_ne_nil '/' rest)
        | cons piece others =>
            rw [hrest] at segments
            have first := (List.cons.inj segments).1
            rw [← String.toList_inj, String.toList_ofList] at first
            simp at first

theorem of_segments {absolute : Bool} {names : List String} (names_ne_nil : names ≠ [])
    (isName : ∀ name ∈ names, IsName name)
    (segments : path.segments = if absolute then "" :: names else names) :
    path.Plain ∧ path.isAbsolute = absolute ∧ steps path = names := by
  have isAbsolute : path.isAbsolute = absolute := by
    cases absolute with
    | true => exact isAbsolute_of_segments names_ne_nil segments
    | false =>
        rw [if_neg Bool.false_ne_true] at segments
        rw [Bool.eq_false_iff]
        intro isAbsolute
        have first := segments_of_isAbsolute isAbsolute
        have member : "" ∈ names := by
          rw [← segments, first]
          exact .head _
        exact (isName "" member).nonempty rfl
  have hsteps : steps path = names := by
    cases absolute with
    | true =>
        have first := segments_of_isAbsolute isAbsolute
        rw [segments, if_pos rfl] at first
        exact (List.cons.inj first).2.symm
    | false =>
        rw [steps_of_not_isAbsolute isAbsolute, segments, if_neg Bool.false_ne_true]
  refine ⟨⟨?_, ?_⟩, isAbsolute, hsteps⟩
  · intro empty
    have single : path.segments = [""] := by
      rw [Path.segments, empty]
      rfl
    rw [segments] at single
    cases absolute with
    | true => simp [names_ne_nil] at single
    | false =>
        rw [if_neg Bool.false_ne_true] at single
        exact (isName "" (by rw [single]; exact .head _)).nonempty rfl
  · rwa [hsteps]

private theorem openedAtEnd_join (plain : path.Plain) {name first : String} {others : List String}
    (isName : IsName name) (segments : path.segments = first :: others) :
    (path.join name).openedAtEnd = some (name :: others.reverse, first) := by
  rw [openedAtEnd, plain.segments_join isName.whole, segments]
  simp [isBlankSegment_of_isName isName]

theorem ofSegments_segments (plain : path.Plain) : ofSegments path.isAbsolute path.segments = path := by
  have last := plain.getLast?_segments
  have different : path.segments ≠ [""] := by
    intro single
    rw [single] at last
    exact last rfl
  rw [ofSegments, if_neg (by simp [different])]
  apply segments_injective
  refine segments_intercalate ?_ fun segment member => not_mem_of_mem_segments member
  simp [Path.segments, Text.splitOn, Text.pieces_ne_nil]

theorem parent?_join (plain : path.Plain) {name : String} (isName : IsName name) :
    (path.join name).parent? = some path := by
  obtain ⟨first, others, segments⟩ := exists_segments_eq_cons path
  have trimmed : (others.reverse.dropWhile isBlankSegment).reverse = others := by
    cases hlast : others.reverse with
    | nil => simpa using hlast
    | cons last rest =>
        have named : IsName last := by
          refine plain.2 last ?_
          have member : last ∈ others := List.mem_reverse.mp (by rw [hlast]; exact .head _)
          cases absolute : path.isAbsolute with
          | true =>
              have cut := segments_of_isAbsolute absolute
              rw [segments] at cut
              rwa [← (List.cons.inj cut).2]
          | false =>
              rw [steps_of_not_isAbsolute absolute, segments]
              exact .tail _ member
        rw [List.dropWhile_cons, if_neg (by simp [isBlankSegment_of_isName named]), ← hlast,
          List.reverse_reverse]
  rw [parent?, plain.openedAtEnd_join isName segments, plain.isAbsolute_join isName.whole]
  dsimp only
  rw [trimmed, ← segments, plain.ofSegments_segments]

theorem withExtension_join (plain : path.Plain) {name extension : String} (isName : IsName name)
    (renamed : IsName ((cutAtDot name).1 ++ "." ++ extension)) :
    (path.join name).withExtension extension =
      path.join ((cutAtDot name).1 ++ "." ++ extension) := by
  obtain ⟨first, others, segments⟩ := exists_segments_eq_cons path
  have stem : (path.join name).stem? = some (cutAtDot name).1 := by
    have last : (path.join name).location.getLast? = some (.name name) := by
      rw [(plain.join isName).location_eq, plain.steps_join isName.whole]
      simp
    rw [stem?, fileName?, last]
    rfl
  have listed : ((((cutAtDot name).1 ++ "." ++ extension) :: others.reverse) ++ [first]).reverse =
      path.segments ++ [(cutAtDot name).1 ++ "." ++ extension] := by
    simp [segments]
  rw [withExtension, stem, plain.openedAtEnd_join isName segments]
  dsimp only
  rw [listed, plain.isAbsolute_join isName.whole, ofSegments, if_neg (by simp [segments])]
  apply segments_injective
  rw [plain.segments_join renamed.whole]
  refine segments_intercalate (by simp) ?_
  intro segment member
  rcases List.mem_append.mp member with before | here
  · exact not_mem_of_mem_segments before
  · rw [List.mem_singleton.mp here]
    exact renamed.whole

theorem exists_eq_join_or_single (plain : path.Plain) :
    (∃ base name, Plain base ∧ IsName name ∧ path = base.join name) ∨
      (∃ name, steps path = [name]) ∧
        path.parent? = some (if path.isAbsolute then ⟨"/"⟩ else ⟨""⟩) := by
  obtain ⟨front, last, split⟩ : ∃ front last, steps path = front ++ [last] := by
    rcases List.eq_nil_or_concat (steps path) with empty | ⟨front, last, split⟩
    · exact absurd empty plain.steps_ne_nil
    · exact ⟨front, last, by rw [split, List.concat_eq_append]⟩
  have isName : IsName last := plain.2 last (by simp [split])
  have names : ∀ name ∈ front, IsName name := fun name member => plain.2 name (by simp [split, member])
  by_cases top : front = []
  · right
    rw [top, List.nil_append] at split
    refine ⟨⟨last, split⟩, ?_⟩
    have shown := isBlankSegment_of_isName isName
    cases absolute : path.isAbsolute with
    | true =>
        have segments := segments_of_isAbsolute absolute
        rw [split] at segments
        simp [parent?, openedAtEnd, segments, shown, ofSegments, absolute]
    | false =>
        rw [steps_of_not_isAbsolute absolute] at split
        simp [parent?, openedAtEnd, split, absolute, isName.nonempty]
  · left
    let absolute := path.isAbsolute
    let segments := if absolute then "" :: front else front
    have whole : ∀ name ∈ segments, '/' ∉ name.toList := by
      intro name member
      suffices member : name ∈ path.segments from not_mem_of_mem_segments member
      cases habsolute : path.isAbsolute with
      | true =>
          rw [segments_of_isAbsolute habsolute, split]
          simp only [segments, absolute, habsolute, if_true, List.mem_cons] at member
          simp only [List.mem_cons, List.mem_append]
          tauto
      | false =>
          rw [← steps_of_not_isAbsolute habsolute, split]
          simp only [segments, absolute, habsolute, Bool.false_eq_true, if_false] at member
          exact List.mem_append_left _ member
    have cut : (Path.mk (String.intercalate "/" segments)).segments = segments := by
      refine segments_intercalate ?_ whole
      simp only [segments]
      split <;> simp [top]
    obtain ⟨plainBase, absoluteBase, stepsBase⟩ := of_segments top names cut
    refine ⟨_, last, plainBase, isName, ?_⟩
    apply segments_injective
    rw [plainBase.segments_join isName.whole, cut]
    cases habsolute : path.isAbsolute with
    | true =>
        rw [segments_of_isAbsolute habsolute, split]
        simp [segments, absolute, habsolute]
    | false =>
        rw [← steps_of_not_isAbsolute habsolute, split]
        simp [segments, absolute, habsolute]

theorem withoutEndSeparators_eq (plain : path.Plain) : withoutEndSeparators path = path := by
  have last := getLast?_ne_slash plain.getLast?_segments
  have trimmed : path.text.toList.reverse.dropWhile (· = '/') = path.text.toList.reverse := by
    cases hreverse : path.text.toList.reverse with
    | nil => rfl
    | cons final rest =>
        rw [← List.head?_reverse, hreverse] at last
        rw [List.dropWhile_cons, if_neg]
        simpa using last
  have nonempty : path.text.toList ≠ [] := by simpa using plain.1
  rw [withoutEndSeparators, trimmed, List.reverse_reverse]
  split
  next empty => exact absurd empty nonempty
  next => simp

end Plain

end Path

end Files

end AbiBuild
