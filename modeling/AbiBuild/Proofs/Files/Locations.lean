import AbiBuild.Proofs.Files.Places
import Mathlib.Data.List.TakeWhile

/-!
# Locations of joined paths

However a directory is spelled, a name joined to it adds one component, and the parent of what was
joined is the directory again, if not always in the same spelling.  A path that leads somewhere leads
where its components say.
-/

namespace AbiBuild.Files

def Component.follow (place : Place) : Component → Place
  | root => []
  | current => place
  | parent => place.dropLast
  | name text => place ++ [text]

namespace Path

open FileSystem

variable {base path directory : Path} {name : String} {files : FileSystem} {place : Place}

def componentsOf (segments : List String) : Location :=
  (segments.filter (!isBlankSegment ·)).map .ofSegment

def openingOf (absolute : Bool) (first : String) : Location :=
  if absolute then [.root]
  else if first = "" then []
  else if first = "." then [.current]
  else [.ofSegment first]

theorem location_of_segments {first : String} {others : List String}
    (segments : path.segments = first :: others) :
    path.location = openingOf path.isAbsolute first ++ componentsOf others := by
  rw [location, segments]
  rfl

theorem componentsOf_append (first second : List String) :
    componentsOf (first ++ second) = componentsOf first ++ componentsOf second := by
  simp [componentsOf]

theorem componentsOf_blank {segments : List String} (blank : ∀ segment ∈ segments, isBlankSegment segment) :
    componentsOf segments = [] := by
  rw [componentsOf, List.filter_eq_nil_iff.mpr fun segment member => by simp [blank segment member]]
  rfl

theorem componentsOf_name (isName : IsName name) : componentsOf [name] = [.name name] := by
  simp [componentsOf, isBlankSegment_of_isName isName, Component.ofSegment, isName.not_parent]

theorem join_empty (isName : IsName name) : join ⟨""⟩ name = ⟨name⟩ ∧
    (⟨name⟩ : Path).segments = [name] ∧ (⟨name⟩ : Path).isAbsolute = false := by
  have relative := head?_ne_slash isName.whole
  refine ⟨?_, ?_, by simpa [isAbsolute] using relative⟩
  · rw [join, if_neg relative]
    simp
  · simp [segments, Text.splitOn, Text.pieces_of_not_mem isName.whole]

theorem exists_segments_join (nonempty : base.text ≠ "") (isName : IsName name) :
    ∃ first front rest, (∀ segment ∈ rest, isBlankSegment segment) ∧
      base.segments = first :: (front ++ rest) ∧
      (base.join name).segments = first :: (front ++ [name]) := by
  by_cases slash : base.text.toList.getLast? = some '/'
  · obtain ⟨letters, text⟩ := List.getLast?_eq_some_iff.mp slash
    obtain ⟨first, front, pieces⟩ := List.exists_cons_of_ne_nil (Text.pieces_ne_nil '/' letters)
    refine ⟨String.ofList first, front.map String.ofList, [""], by simp [isBlankSegment], ?_, ?_⟩
    · simp [segments, Text.splitOn, text, Text.pieces_append, Text.pieces, pieces]
    · rw [join, if_neg (head?_ne_slash isName.whole), if_pos (by simp [slash])]
      simp [segments, Text.splitOn, text, Text.pieces_append, Text.pieces_of_not_mem isName.whole,
        pieces]
  · obtain ⟨first, front, listed⟩ := exists_segments_eq_cons base
    exact ⟨first, front, [], by simp, by simpa using listed,
      by rw [segments_join nonempty slash isName.whole, listed]; rfl⟩

theorem isAbsolute_join (nonempty : base.text ≠ "") (isName : IsName name) :
    (base.join name).isAbsolute = base.isAbsolute := by
  have letters : base.text.toList ≠ [] := by simpa using nonempty
  rw [join, if_neg (head?_ne_slash isName.whole)]
  split <;> simp [isAbsolute, List.head?_append, List.head?_eq_some_head letters]

theorem baseOf_join (files : FileSystem) (nonempty : base.text ≠ "") (isName : IsName name) :
    files.baseOf (base.join name) = files.baseOf base := by
  rw [baseOf, baseOf, isAbsolute_join nonempty isName]

theorem exists_steps_join (nonempty : base.text ≠ "") (isName : IsName name) :
    ∃ way rest, (∀ segment ∈ rest, isBlankSegment segment) ∧ steps base = way ++ rest ∧
      steps (base.join name) = way ++ [name] := by
  obtain ⟨first, front, rest, blank, segments, joined⟩ := exists_segments_join nonempty isName
  have same := isAbsolute_join nonempty isName
  cases absolute : base.isAbsolute with
  | true =>
      rw [absolute] at same
      exact ⟨front, rest, blank, by simp [steps, absolute, segments],
        by simp [steps, same, joined]⟩
  | false =>
      rw [absolute] at same
      exact ⟨first :: front, rest, blank, by simp [steps, absolute, segments],
        by simp [steps, same, joined]⟩

theorem location_join (base : Path) (isName : IsName name) :
    (base.join name).location = base.location ++ [.name name] := by
  by_cases nonempty : base.text = ""
  · obtain rfl : base = ⟨""⟩ := congrArg mk nonempty
    obtain ⟨joined, segments, relative⟩ := join_empty isName
    have empty : (⟨""⟩ : Path).location = [] := by decide
    rw [joined, location_of_segments segments, relative, empty]
    simp [openingOf, componentsOf, isName.nonempty, isName.not_current, Component.ofSegment,
      isName.not_parent]
  · obtain ⟨first, front, rest, blank, before, after⟩ := exists_segments_join nonempty isName
    rw [location_of_segments before, location_of_segments after, isAbsolute_join nonempty isName,
      componentsOf_append, componentsOf_append, componentsOf_blank blank, componentsOf_name isName]
    simp

theorem location_foldl_join {names : List String} (base : Path) (isName : ∀ name ∈ names, IsName name) :
    (names.foldl join base).location = base.location ++ names.map .name := by
  induction names generalizing base with
  | nil => simp
  | cons name names ih =>
      rw [List.forall_mem_cons] at isName
      rw [List.foldl_cons, ih (base.join name) isName.2, location_join base isName.1]
      simp

theorem eq_of_location_foldl_join {base : Path} {names others : List String}
    (isName : ∀ name ∈ names, IsName name) (isName' : ∀ name ∈ others, IsName name)
    (same : (names.foldl join base).location = (others.foldl join base).location) :
    names = others := by
  rw [location_foldl_join _ isName, location_foldl_join _ isName', List.append_cancel_left_eq] at same
  exact List.map_injective_iff.mpr (fun _ _ equal => Component.name.inj equal) same

theorem location_ofSegments {absolute : Bool} {first : String} {others : List String}
    (whole : ∀ segment ∈ first :: others, '/' ∉ segment.toList) (opens : absolute ↔ first = "") :
    (ofSegments absolute (first :: others)).location =
      openingOf absolute first ++ componentsOf others := by
  rw [ofSegments]
  split
  next root =>
    simp only [Bool.and_eq_true, decide_eq_true_eq, List.cons.injEq] at root
    obtain ⟨rfl, rfl, rfl⟩ := root
    decide
  next further =>
    have segments := segments_intercalate (List.cons_ne_nil first others) whole
    have same : (Path.mk (String.intercalate "/" (first :: others))).isAbsolute = absolute := by
      cases absolute with
      | true =>
          obtain rfl := opens.mp rfl
          cases others with
          | nil => simp at further
          | cons next others => simp [isAbsolute, String.intercalate_cons_cons]
      | false =>
          rw [Bool.eq_false_iff]
          intro slash
          have cut := segments.symm.trans (segments_of_isAbsolute slash)
          exact Bool.false_ne_true (opens.mpr (List.cons.inj cut).1)
    rw [location_of_segments segments, same]

theorem componentsOf_dropWhile_reverse (segments : List String) :
    componentsOf (segments.reverse.dropWhile isBlankSegment).reverse = componentsOf segments := by
  have split := congrArg List.reverse
    (List.takeWhile_append_dropWhile (p := isBlankSegment) (l := segments.reverse))
  rw [List.reverse_append, List.reverse_reverse] at split
  have blank : componentsOf (segments.reverse.takeWhile isBlankSegment).reverse = [] :=
    componentsOf_blank fun segment member => List.mem_takeWhile_imp (List.mem_reverse.mp member)
  conv_rhs => rw [← split, componentsOf_append, blank, List.append_nil]

theorem isAbsolute_iff {first : String} {others : List String} (nonempty : path.text ≠ "")
    (segments : path.segments = first :: others) : path.isAbsolute ↔ first = "" := by
  constructor
  · intro absolute
    exact (List.cons.inj (segments.symm.trans (segments_of_isAbsolute absolute))).1
  · rintro rfl
    cases text : path.text.toList with
    | nil => exact absurd (by simpa using text) nonempty
    | cons letter letters =>
        rw [Path.segments, Text.splitOn, text, Text.pieces] at segments
        split at segments
        next slash => simp [isAbsolute, text, slash]
        next =>
          split at segments <;> simp at segments

theorem openedAtEnd_join {first : String} {front : List String} (isName : IsName name)
    (segments : (base.join name).segments = first :: (front ++ [name])) :
    (base.join name).openedAtEnd = some (name :: front.reverse, first) := by
  simp [openedAtEnd, segments, isBlankSegment_of_isName isName]

theorem location_of_parent?_join (isName : IsName name)
    (parent : (base.join name).parent? = some directory) : directory.location = base.location := by
  by_cases nonempty : base.text = ""
  · obtain rfl : base = ⟨""⟩ := congrArg mk nonempty
    obtain ⟨joined, segments, relative⟩ := join_empty isName
    rw [joined, parent?, openedAtEnd, segments] at parent
    simp only [List.reverse_nil, List.dropWhile_nil, relative, isName.nonempty] at parent
    rw [← Option.some.inj parent]
  · obtain ⟨first, front, rest, blank, before, after⟩ := exists_segments_join nonempty isName
    rw [parent?, openedAtEnd_join isName after] at parent
    obtain rfl := Option.some.inj parent
    rw [location_ofSegments, componentsOf_dropWhile_reverse, isAbsolute_join nonempty isName,
      location_of_segments before, componentsOf_append, componentsOf_blank blank, List.append_nil]
    · intro segment member
      suffices listed : segment ∈ base.segments from not_mem_of_mem_segments listed
      rw [before]
      rcases List.mem_cons.mp member with rfl | later
      · exact .head _
      · have inside := List.dropWhile_subset _ (List.mem_reverse.mp later)
        exact .tail _ (List.mem_append_left _ (List.mem_reverse.mp inside))
    · rw [isAbsolute_join nonempty isName]
      exact isAbsolute_iff nonempty before

theorem location_parent?_leads (parent : path.parent? = some directory) :
    directory.location <+: path.location := by
  obtain ⟨first, others, segments⟩ := exists_segments_eq_cons path
  rw [parent?, openedAtEnd, segments] at parent
  cases opened : others.reverse.dropWhile isBlankSegment with
  | nil =>
      simp only [opened] at parent
      split at parent
      next => cases parent
      next =>
        obtain rfl := Option.some.inj parent
        have empty : (⟨""⟩ : Path).location = [] := by decide
        rw [empty]
        exact List.nil_prefix
  | cons last above =>
      simp only [opened] at parent
      obtain rfl := Option.some.inj parent
      have listed : above.reverse ++ [last] = (others.reverse.dropWhile isBlankSegment).reverse := by
        simp [opened]
      have nonempty : path.text ≠ "" := by
        rintro empty
        obtain rfl : path = ⟨""⟩ := congrArg mk empty
        obtain ⟨-, rfl⟩ := List.cons.inj (segments.symm.trans (by decide : _ = [""]))
        cases opened
      have inside : ∀ segment ∈ above, segment ∈ others := fun segment member =>
        List.mem_reverse.mp (List.dropWhile_subset _ (opened ▸ List.mem_cons_of_mem _ member))
      have shown := componentsOf_dropWhile_reverse above.reverse
      rw [List.reverse_reverse] at shown
      rw [location_ofSegments, shown, location_of_segments segments,
        ← componentsOf_dropWhile_reverse others, ← listed, componentsOf_append,
        List.prefix_append_right_inj]
      · exact List.prefix_append _ _
      · intro segment member
        suffices segment ∈ path.segments from not_mem_of_mem_segments this
        rw [segments]
        rcases List.mem_cons.mp member with rfl | later
        · exact .head _
        · exact .tail _ (inside _ (List.dropWhile_subset _ (List.mem_reverse.mp later)))
      · exact isAbsolute_iff nonempty segments

theorem location_withExtension_join {extension : String} (isName : IsName name)
    (renamed : IsName ((cutAtDot name).1 ++ "." ++ extension)) :
    ((base.join name).withExtension extension).location =
      base.location ++ [.name ((cutAtDot name).1 ++ "." ++ extension)] := by
  have stem : (base.join name).stem? = some (cutAtDot name).1 := by
    rw [stem?, fileName?, location_join base isName, List.getLast?_concat]
    rfl
  by_cases nonempty : base.text = ""
  · obtain rfl : base = ⟨""⟩ := congrArg mk nonempty
    obtain ⟨joined, segments, -⟩ := join_empty isName
    have opened : (join ⟨""⟩ name).openedAtEnd = some ([], name) := by
      rw [joined, openedAtEnd, segments]
      rfl
    rw [withExtension, stem, opened]
    dsimp only
    rw [← (join_empty renamed).1, location_join _ renamed]
  · obtain ⟨first, front, rest, blank, before, after⟩ := exists_segments_join nonempty isName
    have listed : (((cutAtDot name).1 ++ "." ++ extension) :: front.reverse ++ [first]).reverse =
        first :: (front ++ [(cutAtDot name).1 ++ "." ++ extension]) := by simp
    rw [withExtension, stem, openedAtEnd_join isName after]
    dsimp only
    rw [listed, location_ofSegments, isAbsolute_join nonempty isName, componentsOf_append,
      componentsOf_name renamed, location_of_segments before, componentsOf_append,
      componentsOf_blank blank, List.append_nil, List.append_assoc]
    · intro segment member
      rw [← List.cons_append] at member
      rcases List.mem_append.mp member with earlier | last
      · suffices listed : segment ∈ base.segments from not_mem_of_mem_segments listed
        rw [before, ← List.cons_append]
        exact List.mem_append_left _ earlier
      · rw [List.mem_singleton.mp last]
        exact renamed.whole
    · rw [isAbsolute_join nonempty isName]
      exact isAbsolute_iff nonempty before

theorem location_append {letters : List Char} (nonempty : letters ≠ []) (more : List Char) :
    (⟨String.ofList (letters ++ '/' :: more)⟩ : Path).location =
      (⟨String.ofList letters⟩ : Path).location ++
        componentsOf ((Text.pieces '/' more).map String.ofList) := by
  obtain ⟨first, front, pieces⟩ := List.exists_cons_of_ne_nil (Text.pieces_ne_nil '/' letters)
  have before : (⟨String.ofList letters⟩ : Path).segments =
      String.ofList first :: front.map String.ofList := by
    simp [segments, Text.splitOn, pieces]
  have after : (⟨String.ofList (letters ++ '/' :: more)⟩ : Path).segments = String.ofList first ::
      (front.map String.ofList ++ (Text.pieces '/' more).map String.ofList) := by
    simp [segments, Text.splitOn, Text.pieces_append, pieces]
  have absolute : (⟨String.ofList (letters ++ '/' :: more)⟩ : Path).isAbsolute =
      (⟨String.ofList letters⟩ : Path).isAbsolute := by
    simp [isAbsolute, List.head?_append, List.head?_eq_some_head nonempty]
  rw [location_of_segments before, location_of_segments after, absolute, componentsOf_append,
    List.append_assoc]

theorem location_slash (letters : List Char) : (⟨String.ofList ('/' :: letters)⟩ : Path).location =
    .root :: componentsOf ((Text.pieces '/' letters).map String.ofList) := by
  have segments : (⟨String.ofList ('/' :: letters)⟩ : Path).segments =
      "" :: (Text.pieces '/' letters).map String.ofList := by
    simp [Path.segments, Text.splitOn, Text.pieces]
  have absolute : (⟨String.ofList ('/' :: letters)⟩ : Path).isAbsolute = true := by
    simp [isAbsolute]
  rw [location_of_segments segments, absolute, openingOf, if_pos rfl]
  rfl

theorem location_withoutEndSeparators (path : Path) :
    (withoutEndSeparators path).location = path.location := by
  have trims : ∀ reversed rest : List Char, rest ≠ [] → reversed.dropWhile (· = '/') = rest →
      (⟨String.ofList rest.reverse⟩ : Path).location =
        (⟨String.ofList reversed.reverse⟩ : Path).location := by
    intro reversed rest nonempty drops
    induction reversed with
    | nil => exact absurd drops.symm nonempty
    | cons letter letters ih =>
        by_cases slash : letter = '/'
        · subst slash
          rw [List.dropWhile_cons_of_pos (by simp)] at drops
          have more : letters ≠ [] := by
            rintro rfl
            exact nonempty drops.symm
          have blank : componentsOf ((Text.pieces '/' []).map String.ofList) = [] := rfl
          rw [ih drops, List.reverse_cons, location_append (by simpa using more), blank,
            List.append_nil]
        · rw [List.dropWhile_cons_of_neg (by simpa using slash)] at drops
          rw [drops]
  rw [withoutEndSeparators]
  split
  next => rfl
  next text nonempty =>
    have drops : path.text.toList.reverse.dropWhile (· = '/') =
        (path.text.toList.reverse.dropWhile (· = '/')).reverse.reverse := by simp
    rw [← List.reverse_reverse (List.reverse _), trims _ _ (by simpa using nonempty) drops]
    simp

/-! ## Where components lead -/

def placeFrom (home : Place) (path : Path) : Place := path.location.foldl Component.follow home

theorem foldl_follow_name (names : List String) (place : Place) :
    (names.map Component.name).foldl Component.follow place = place ++ names := by
  induction names generalizing place with
  | nil => simp
  | cons name names ih => simp [ih, Component.follow]

theorem placeFrom_of_location {names : List String}
    (location : path.location = base.location ++ names.map .name) (home : Place) :
    path.placeFrom home = base.placeFrom home ++ names := by
  rw [placeFrom, location, List.foldl_append, foldl_follow_name, placeFrom]

theorem follow_of_enter {above : Place} {segment : String}
    (enters : files.enter above segment = .ok place) :
    place = (componentsOf [segment]).foldl Component.follow above := by
  rw [enter] at enters
  split at enters
  next => cases enters
  next => cases enters
  next =>
    by_cases blank : segment = "" ∨ segment = "."
    · rw [if_pos (by simpa using blank)] at enters
      rw [componentsOf_blank (by simpa [isBlankSegment] using blank)]
      exact (Except.ok.inj enters).symm
    · rw [if_neg (by simpa using blank)] at enters
      have shown : isBlankSegment segment = false := by
        simpa [isBlankSegment] using blank
      have single : componentsOf [segment] = [.ofSegment segment] := by simp [componentsOf, shown]
      rw [single, Component.ofSegment]
      split at enters
      next up =>
        rw [if_pos up]
        exact (Except.ok.inj enters).symm
      next name =>
        rw [if_neg name]
        split at enters
        next => cases enters
        next => exact (Except.ok.inj enters).symm

theorem follow_of_foldlM_enter {segments : List String} {above : Place}
    (leads : segments.foldlM files.enter above = .ok place) :
    place = (componentsOf segments).foldl Component.follow above := by
  induction segments generalizing above with
  | nil => exact (Except.ok.inj leads).symm
  | cons segment segments ih =>
      rw [List.foldlM_cons, bind_eq_ok] at leads
      obtain ⟨next, enters, rest⟩ := leads
      rw [← List.singleton_append, componentsOf_append, List.foldl_append, ← follow_of_enter enters]
      exact ih rest

theorem foldl_follow_openingOf (first : String) (home : Place) :
    (openingOf false first).foldl Component.follow home =
      (componentsOf [first]).foldl Component.follow home := by
  by_cases empty : first = ""
  · simp [openingOf, componentsOf, isBlankSegment, empty]
  · by_cases current : first = "."
    · simp [openingOf, componentsOf, isBlankSegment, Component.follow, current]
    · simp [openingOf, componentsOf, isBlankSegment, empty, current]

theorem exists_prefix_of_steps (home : Place) {front : List String} (leads : front <+: steps path) :
    ∃ onTheWay, onTheWay <+: path.location ∧ onTheWay.foldl Component.follow home =
      (componentsOf front).foldl Component.follow (if path.isAbsolute then [] else home) := by
  obtain ⟨first, others, segments⟩ := exists_segments_eq_cons path
  rw [location_of_segments segments]
  rw [steps, segments] at leads
  split at leads
  next absolute =>
    obtain ⟨rest, rfl⟩ : front <+: others := leads
    rw [absolute, if_pos rfl, componentsOf_append]
    exact ⟨.root :: componentsOf front, ⟨componentsOf rest, rfl⟩, rfl⟩
  next relative =>
    rw [if_neg relative, Bool.eq_false_iff.mpr relative]
    cases front with
    | nil => exact ⟨[], List.nil_prefix, rfl⟩
    | cons segment front =>
        rw [List.cons_prefix_cons] at leads
        obtain ⟨rfl, rest, rfl⟩ := leads
        refine ⟨openingOf false segment ++ componentsOf front, ⟨componentsOf rest, ?_⟩, ?_⟩
        · rw [componentsOf_append, List.append_assoc]
        · rw [List.foldl_append, foldl_follow_openingOf, ← List.foldl_append, ← componentsOf_append]
          rfl

theorem foldl_follow_steps (home : Place) :
    (componentsOf (steps path)).foldl Component.follow (if path.isAbsolute then [] else home) =
      path.placeFrom home := by
  obtain ⟨first, others, segments⟩ := exists_segments_eq_cons path
  rw [placeFrom, location_of_segments segments, steps, segments, List.foldl_append]
  split
  next absolute =>
    rw [absolute]
    rfl
  next relative =>
    rw [Bool.eq_false_iff.mpr relative, foldl_follow_openingOf, ← List.foldl_append,
      ← componentsOf_append]
    rfl

theorem eq_placeFrom_of_placeOf (leads : files.placeOf path = .ok place) :
    place = path.placeFrom files.host.workingDirectory := by
  obtain ⟨-, leads⟩ := placeOf_eq_ok_iff.mp leads
  rw [follow_of_foldlM_enter leads, baseOf, foldl_follow_steps]

theorem isName_of_mem_location (member : .name name ∈ path.location) : IsName name := by
  obtain ⟨first, others, segments⟩ := exists_segments_eq_cons path
  have isName : ∀ segment ∈ path.segments, segment ≠ "" → segment ≠ "." →
      Component.name name = .ofSegment segment → IsName name := by
    intro segment listed nonempty current same
    rw [Component.ofSegment] at same
    split at same
    next => cases same
    next up =>
      injection same with same
      exact same ▸ ⟨nonempty, current, up, not_mem_of_mem_segments listed⟩
  rw [segments] at isName
  rw [location_of_segments segments, List.mem_append] at member
  rcases member with opens | follows
  · rw [openingOf] at opens
    split at opens
    next => simp at opens
    next =>
      split at opens
      next => simp at opens
      next nonempty =>
        split at opens
        next => simp at opens
        next current =>
          exact isName first (.head _) nonempty current (List.mem_singleton.mp opens)
  · rw [componentsOf, List.mem_map] at follows
    obtain ⟨segment, kept, same⟩ := follows
    obtain ⟨listed, shown⟩ := List.mem_filter.mp kept
    simp only [isBlankSegment, Bool.not_or, Bool.and_eq_true, Bool.not_eq_true',
      decide_eq_false_iff_not] at shown
    exact isName segment (.tail _ listed) shown.1 shown.2 same.symm

theorem isName_of_mem_placeFrom {home : Place} (named : ∀ name ∈ home, IsName name)
    (member : name ∈ path.placeFrom home) : IsName name := by
  have follows : ∀ (components : Location) (place : Place), (∀ name ∈ place, IsName name) →
      (∀ name, .name name ∈ components → IsName name) →
      ∀ name ∈ components.foldl Component.follow place, IsName name := by
    intro components
    induction components with
    | nil => exact fun _ named _ => named
    | cons component components ih =>
        intro place named each
        refine ih _ ?_ fun name later => each name (.tail _ later)
        cases component with
        | root => simp [Component.follow]
        | current => exact named
        | parent => exact fun name inside => named name (List.dropLast_subset _ inside)
        | name text =>
            intro name inside
            rcases List.mem_append.mp inside with earlier | last
            · exact named name earlier
            · rw [List.mem_singleton.mp last]
              exact each text (.head _)
  exact follows _ home named (fun _ => isName_of_mem_location) name member

end Path

end AbiBuild.Files
