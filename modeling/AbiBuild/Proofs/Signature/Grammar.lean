import Mathlib.Data.List.TakeWhile
import AbiBuild.Proofs.Collections
import AbiBuild.Signature.Parser

/-!
# The grammar of signatures

Which trees are written as signatures, and that reading accepts exactly their texts.  The text of a
tree is read back as that tree whatever follows it, and a tree that was read stands at the front of
the text.
-/

namespace AbiBuild.Signature

/-! ## Trees that can be written -/

def IsIdentifier (stops name : List Char) : Prop :=
  name ≠ [] ∧ ∀ stop ∈ stops, stop ∉ name

instance (stops name : List Char) : Decidable (IsIdentifier stops name) :=
  inferInstanceAs (Decidable (_ ∧ _))

mutual

def TypeSignature.WellFormed : TypeSignature → Prop
  | .primitive _ => True
  | .array element => element.WellFormed
  | .variable name => IsIdentifier [';'] name
  | .object outer nested => outer.WellFormed ∧ WellFormedNested nested

def Segment.WellFormed : Segment → Prop
  | .plain name => IsIdentifier ['<', '.', ';'] name
  | .generic name arguments => IsIdentifier ['<', '.', ';'] name ∧ WellFormedArguments arguments

def Argument.WellFormed : Argument → Prop
  | .wildcard => True
  | .bounded _ type => type.WellFormed

def WellFormedNested : List Segment → Prop
  | [] => True
  | segment :: others => segment.WellFormed ∧ WellFormedNested others

def WellFormedArguments : List Argument → Prop
  | [] => True
  | argument :: others => argument.WellFormed ∧ WellFormedArguments others

end

structure TypeParameter.WellFormed (parameter : TypeParameter) : Prop where
  isIdentifier : IsIdentifier [':'] parameter.name
  /-- Here a list of parameters would end. -/
  opens : parameter.name.head? ≠ some '>'
  bounds : ∀ bound ∈ parameter.bounds, bound.WellFormed

def WellFormedParameters : List TypeParameter → Prop
  | [] => True
  | parameter :: others =>
    parameter.WellFormed ∧ (parameter.bounds = [] → others = []) ∧ WellFormedParameters others

end Signature

structure Signature.WellFormed (signature : Signature) : Prop where
  parameters : ∀ parameters, signature.parameters = some parameters →
    Signature.WellFormedParameters parameters
  items : ∀ item ∈ signature.items, ∀ type ∈ item.types, type.WellFormed

namespace Signature

/-! ## Names -/

theorem identifier_append {stops name : List Char} (isIdentifier : IsIdentifier stops name)
    {stop : Char} (listed : stop ∈ stops) (rest : List Char) :
    identifier stops (name ++ stop :: rest) = .ok (name, stop :: rest) := by
  obtain ⟨nonempty, free⟩ := isIdentifier
  have inside : ∀ value ∈ name, (!stops.contains value) = true := by
    intro value member
    simpa using fun listed => free value listed member
  have takes : (name ++ stop :: rest).takeWhile (fun value => !stops.contains value) = name := by
    rw [List.takeWhile_append_of_pos inside]
    simp [listed]
  have drops : (name ++ stop :: rest).dropWhile (fun value => !stops.contains value) =
      stop :: rest := by
    rw [List.dropWhile_append_of_pos inside]
    simp [listed]
  simp only [identifier, takes, drops]
  simp [nonempty]

theorem identifier_eq_ok {stops text name rest : List Char}
    (reads : identifier stops text = .ok (name, rest)) :
    IsIdentifier stops name ∧ text = name ++ rest ∧ ∃ stop others, stop ∈ stops ∧
      rest = stop :: others := by
  simp only [identifier] at reads
  split at reads
  next => cases reads
  next whole =>
    obtain ⟨rfl, rfl⟩ := Prod.mk.inj (Except.ok.inj reads)
    simp only [Bool.or_eq_true, List.isEmpty_iff, not_or] at whole
    refine ⟨⟨whole.1, fun stop listed member => ?_⟩, List.takeWhile_append_dropWhile.symm, ?_⟩
    · simpa [listed] using List.mem_takeWhile_imp member
    · obtain ⟨stop, others, rest⟩ := List.exists_cons_of_ne_nil whole.2
      have first := List.head?_dropWhile_not (fun value => !stops.contains value) text
      rw [rest] at first ⊢
      exact ⟨stop, others, by simpa using first, rfl⟩

/-! ## Types -/

private theorem exists_render_eq_cons (type : TypeSignature) :
    ∃ first others, type.render = first :: others ∧ first ∉ ['<', '>', '*', '+', '-', ':', '(', ')', '^'] := by
  cases type with
  | primitive kind => exact ⟨kind.letter, [], rfl, by cases kind <;> decide⟩
  | array element => exact ⟨'[', _, rfl, by decide⟩
  | «variable» name => exact ⟨'T', _, rfl, by decide⟩
  | object outer nested => exact ⟨'L', _, rfl, by decide⟩

structure ReadsBack (count : Nat) : Prop where
  ofType : ∀ (type : TypeSignature) rest, type.WellFormed → 2 * type.render.length ≤ count →
    typeSignature count (type.render ++ rest) = .ok (type, rest)
  ofSegments : ∀ (outer : Segment) nested rest, outer.WellFormed → WellFormedNested nested →
    2 * (outer.render.length + (renderNested nested).length + 1) ≤ count →
    segments count (outer.render ++ (renderNested nested ++ ';' :: rest)) =
      .ok ((outer, nested), rest)
  ofArguments : ∀ arguments rest, WellFormedArguments arguments →
    2 * ((renderArguments arguments).length + 1) ≤ count →
    typeArguments count (renderArguments arguments ++ '>' :: rest) = .ok (arguments, rest)

namespace ReadsBack

variable {count : Nat} (reads : ReadsBack count)
include reads

theorem type_succ (type : TypeSignature) (rest : List Char) (wellFormed : type.WellFormed)
    (short : 2 * type.render.length ≤ count + 1) :
    typeSignature (count + 1) (type.render ++ rest) = .ok (type, rest) := by
  cases type with
  | primitive kind =>
      cases kind <;> rfl
  | array element =>
      simp only [TypeSignature.render, List.length_cons] at short
      simp only [TypeSignature.render, List.cons_append, typeSignature,
        reads.ofType element rest wellFormed (by omega), bind, Except.bind, pure, Except.pure]
  | «variable» name =>
      have named := identifier_append wellFormed (List.mem_singleton.mpr rfl) rest
      simp [TypeSignature.render, typeSignature, variableStops, named, bind, Except.bind, pure,
        Except.pure]
  | object outer nested =>
      obtain ⟨wellFormedOuter, wellFormedNested⟩ := wellFormed
      simp only [TypeSignature.render, List.length_cons, List.length_append, List.length_nil]
        at short
      simp [TypeSignature.render, typeSignature, bind, Except.bind, pure, Except.pure,
        reads.ofSegments outer nested rest wellFormedOuter wellFormedNested (by omega)]

theorem segments_succ (outer : Segment) (nested : List Segment) (rest : List Char)
    (wellFormed : outer.WellFormed) (wellFormedNested : WellFormedNested nested)
    (short : 2 * (outer.render.length + (renderNested nested).length + 1) ≤ count + 1) :
    segments (count + 1) (outer.render ++ (renderNested nested ++ ';' :: rest)) =
      .ok ((outer, nested), rest) := by
  -- What stops the name is told by what is nested, unless there are arguments.
  obtain ⟨stop, text, listed, follows, further⟩ : ∃ stop text, stop ∈ ['<', '.', ';'] ∧
      renderNested nested ++ ';' :: rest = stop :: text ∧
      ((stop = ';' ∧ nested = [] ∧ text = rest) ∨ (stop = '.' ∧ ∃ inner others,
        nested = inner :: others ∧ segments count text = .ok ((inner, others), rest))) := by
    cases nested with
    | nil => exact ⟨';', rest, by decide, rfl, .inl ⟨rfl, rfl, rfl⟩⟩
    | cons inner others =>
        obtain ⟨wellFormedInner, wellFormedOthers⟩ := wellFormedNested
        simp only [renderNested, List.length_cons, List.length_append] at short
        exact ⟨'.', _, by decide, by simp [renderNested], .inr ⟨rfl, inner, others, rfl,
          reads.ofSegments inner others rest wellFormedInner wellFormedOthers (by omega)⟩⟩
  rw [follows]
  cases outer with
  | plain name =>
      have named := identifier_append wellFormed listed text
      rcases further with ⟨rfl, rfl, rfl⟩ | ⟨rfl, inner, others, rfl, taken⟩ <;>
        simp_all [Segment.render, segments, segmentStops, bind, Except.bind, pure, Except.pure]
  | generic name arguments =>
      obtain ⟨wellFormedName, wellFormedArguments⟩ := wellFormed
      simp only [Segment.render, List.length_append, List.length_cons, List.length_nil] at short
      have named := identifier_append wellFormedName (by decide : '<' ∈ _)
        (renderArguments arguments ++ '>' :: stop :: text)
      have given := reads.ofArguments arguments (stop :: text) wellFormedArguments (by omega)
      rcases further with ⟨rfl, rfl, rfl⟩ | ⟨rfl, inner, others, rfl, taken⟩ <;>
        simp_all [Segment.render, segments, segmentStops, bind, Except.bind, pure, Except.pure]

theorem arguments_succ (arguments : List Argument) (rest : List Char)
    (wellFormed : WellFormedArguments arguments)
    (short : 2 * ((renderArguments arguments).length + 1) ≤ count + 1) :
    typeArguments (count + 1) (renderArguments arguments ++ '>' :: rest) =
      .ok (arguments, rest) := by
  cases arguments with
  | nil => rfl
  | cons argument others =>
      obtain ⟨wellFormedArgument, wellFormedOthers⟩ := wellFormed
      simp only [renderArguments, List.length_append] at short
      have further := reads.ofArguments others rest wellFormedOthers
      cases argument with
      | wildcard =>
          simp only [Argument.render, List.length_cons, List.length_nil] at short
          simp [renderArguments, Argument.render, typeArguments, further (by omega), bind,
            Except.bind, pure, Except.pure]
      | bounded bound type =>
          simp only [Argument.render, List.length_append] at short
          have first := reads.ofType type (renderArguments others ++ '>' :: rest) wellFormedArgument
            (by omega)
          obtain ⟨letter, letters, text, isLetter⟩ := exists_render_eq_cons type
          rw [text] at first short
          simp only [List.length_cons] at short
          simp only [List.mem_cons, not_or] at isLetter
          have further := further (by omega)
          cases bound <;>
            simp_all [renderArguments, Argument.render, Bound.render, typeArguments, bind,
              Except.bind, pure, Except.pure]

end ReadsBack

theorem readsBack (count : Nat) : ReadsBack count := by
  induction count with
  | zero =>
      refine ⟨fun type rest _ short => ?_, fun outer nested rest _ _ short => by omega,
        fun arguments rest _ short => by omega⟩
      obtain ⟨letter, letters, text, -⟩ := exists_render_eq_cons type
      simp [text] at short
  | succ count reads => exact ⟨reads.type_succ, reads.segments_succ, reads.arguments_succ⟩

theorem javaType_append (type : TypeSignature) (wellFormed : type.WellFormed) (rest : List Char) :
    javaType (type.render ++ rest) = .ok (type, rest) :=
  (readsBack _).ofType type rest wellFormed (by simp only [depthOf, List.length_append]; omega)

/-! ## Lists of types -/

theorem parameterTypes_append (types : List TypeSignature)
    (wellFormed : ∀ type ∈ types, type.WellFormed) (rest : List Char) (count : Nat)
    (enough : types.length < count) :
    parameterTypes count (types.flatMap (·.render) ++ ')' :: rest) = .ok (types, rest) := by
  induction types generalizing count with
  | nil =>
      obtain ⟨count, rfl⟩ := Nat.exists_eq_succ_of_ne_zero (by omega : count ≠ 0)
      rfl
  | cons type types ih =>
      obtain ⟨count, rfl⟩ := Nat.exists_eq_succ_of_ne_zero (by omega : count ≠ 0)
      rw [List.forall_mem_cons] at wellFormed
      have first := javaType_append type wellFormed.1 (types.flatMap (·.render) ++ ')' :: rest)
      have others := ih wellFormed.2 count (by simpa using enough)
      obtain ⟨letter, letters, text, isLetter⟩ := exists_render_eq_cons type
      simp only [List.mem_cons, not_or] at isLetter
      simp_all [parameterTypes, bind, Except.bind, pure, Except.pure]

theorem interfaceBounds_append (bounds : List TypeSignature)
    (wellFormed : ∀ bound ∈ bounds, bound.WellFormed) (rest : List Char)
    (stops : rest.head? ≠ some ':') (count : Nat) (enough : bounds.length ≤ count) :
    interfaceBounds count (bounds.flatMap (fun bound => ':' :: bound.render) ++ rest) =
      .ok (bounds, rest) := by
  induction bounds generalizing count with
  | nil =>
      change interfaceBounds count rest = .ok ([], rest)
      unfold interfaceBounds
      split
      next => simp at stops
      next => rfl
  | cons bound bounds ih =>
      obtain ⟨count, rfl⟩ := Nat.exists_eq_succ_of_ne_zero (by simp at enough; omega : count ≠ 0)
      rw [List.forall_mem_cons] at wellFormed
      have first := javaType_append bound wellFormed.1
        (bounds.flatMap (fun bound => ':' :: bound.render) ++ rest)
      have others := ih wellFormed.2 count (by simpa using enough)
      simp_all [interfaceBounds, bind, Except.bind, pure, Except.pure]

/-! ## Type parameters -/

theorem classBound_append (bound : Option TypeSignature)
    (wellFormed : ∀ type ∈ bound, type.WellFormed) (rest : List Char)
    (stops : bound = none → rest.head? = some ':' ∨ rest.head? = some '>') :
    classBound (bound.toList.flatMap (·.render) ++ rest) = .ok (bound, rest) := by
  cases bound with
  | none =>
      cases rest with
      | nil => simp at stops
      | cons letter rest =>
          simp at stops
          rcases stops with rfl | rfl <;> rfl
  | some type =>
      have first := javaType_append type (wellFormed type rfl) rest
      obtain ⟨letter, letters, text, isLetter⟩ := exists_render_eq_cons type
      simp only [List.mem_cons, not_or] at isLetter
      simp_all [classBound, bind, Except.bind, pure, Except.pure]

theorem TypeParameter.render_append (parameter : TypeParameter) (rest : List Char) :
    parameter.render ++ rest = parameter.name ++ ':' ::
      (parameter.classBound.toList.flatMap (·.render) ++
        (parameter.interfaceBounds.flatMap (fun bound => ':' :: bound.render) ++ rest)) := by
  simp [render]

private theorem head?_parameters {parameters : List TypeParameter}
    (wellFormed : WellFormedParameters parameters) (rest : List Char) :
    (parameters.flatMap (·.render) ++ '>' :: rest).head? ≠ some ':' := by
  cases parameters with
  | nil => simp
  | cons parameter parameters =>
      obtain ⟨nonempty, free⟩ := wellFormed.1.isIdentifier
      obtain ⟨letter, letters, text⟩ := List.exists_cons_of_ne_nil nonempty
      have other := free ':' (.head _)
      rw [text, List.mem_cons, not_or] at other
      simpa [TypeParameter.render, text] using Ne.symm other.1

theorem typeParameters_append (parameters : List TypeParameter)
    (wellFormed : WellFormedParameters parameters) (rest : List Char) (count : Nat)
    (enough : parameters.length < count) :
    typeParameters count (parameters.flatMap (·.render) ++ '>' :: rest) =
      .ok (parameters, rest) := by
  induction parameters generalizing count with
  | nil =>
      obtain ⟨count, rfl⟩ := Nat.exists_eq_succ_of_ne_zero (by omega : count ≠ 0)
      rfl
  | cons parameter parameters ih =>
      obtain ⟨count, rfl⟩ := Nat.exists_eq_succ_of_ne_zero (by omega : count ≠ 0)
      obtain ⟨own, last, wellFormedOthers⟩ := wellFormed
      have ends := head?_parameters wellFormedOthers rest
      have closes : parameters = [] → (parameters.flatMap (·.render) ++ '>' :: rest).head? =
          some '>' := by rintro rfl; rfl
      have others := ih wellFormedOthers count (by simpa using enough)
      rw [List.flatMap_cons, List.append_assoc, TypeParameter.render_append]
      generalize parameters.flatMap (·.render) ++ '>' :: rest = text at ends closes others ⊢
      obtain ⟨name, bound, bounds⟩ := parameter
      obtain ⟨isIdentifier, opens, wellFormedBounds⟩ := own
      simp only [TypeParameter.bounds, List.mem_append, Option.mem_toList] at wellFormedBounds
      have named := identifier_append isIdentifier (.head _)
        (bound.toList.flatMap (·.render) ++
          (bounds.flatMap (fun bound => ':' :: bound.render) ++ text))
      have first := classBound_append bound (fun type member => wellFormedBounds type (.inl member))
        (bounds.flatMap (fun bound => ':' :: bound.render) ++ text) (by
          rintro rfl
          cases bounds with
          | nil => exact .inr (by simpa using closes (last rfl))
          | cons bound bounds => exact .inl rfl)
      have further := interfaceBounds_append bounds
        (fun type member => wellFormedBounds type (.inr member)) text ends
        (bounds.flatMap (fun bound => ':' :: bound.render) ++ text).length (by
          have each := length_le_flatMap_of_pos (fun bound => ':' :: bound.render) bounds (by simp)
          rw [List.length_append]
          omega)
      obtain ⟨letter, letters, spelled⟩ := List.exists_cons_of_ne_nil isIdentifier.1
      dsimp only at named opens spelled
      subst spelled
      have opens : letter ≠ '>' := by simpa using opens
      simp_all [typeParameters, bind, Except.bind, pure, Except.pure]

/-! ## Whole signatures -/

theorem readItems_flatMap (items : List Item)
    (wellFormed : ∀ item ∈ items, ∀ type ∈ item.types, type.WellFormed) (count : Nat)
    (enough : items.length ≤ count) :
    readItems count (items.flatMap (·.render)) = .ok items := by
  induction items generalizing count with
  | nil => cases count <;> rfl
  | cons item items ih =>
      obtain ⟨count, rfl⟩ := Nat.exists_eq_succ_of_ne_zero (by simp at enough; omega : count ≠ 0)
      rw [List.forall_mem_cons] at wellFormed
      have others := ih wellFormed.2 count (by simpa using enough)
      obtain ⟨own, -⟩ := wellFormed
      rw [List.flatMap_cons]
      generalize items.flatMap (·.render) = text at others ⊢
      cases item with
      | plain type =>
          have first := javaType_append type (own type (.head _)) text
          obtain ⟨letter, letters, spelled, isLetter⟩ := exists_render_eq_cons type
          simp only [List.mem_cons, not_or] at isLetter
          simp_all [Item.render, readItems, bind, Except.bind, Functor.map, Except.map]
      | parameters types =>
          have enough := length_le_flatMap_of_pos (·.render) types fun type _ => by
            obtain ⟨letter, letters, spelled, -⟩ := exists_render_eq_cons type
            simp [spelled]
          have first := parameterTypes_append types own text
            ((types.flatMap (·.render) ++ ')' :: text).length + 1)
            (by rw [List.length_append]; omega)
          have spelled : (Item.parameters types).render ++ text =
              '(' :: (types.flatMap (·.render) ++ ')' :: text) := by simp [Item.render]
          rw [spelled]
          simp only [readItems, first, others, bind, Except.bind, Functor.map, Except.map]
      | throws type =>
          have first := javaType_append type (own type (.head _)) text
          simp [Item.render, readItems, first, others, bind, Except.bind, Functor.map, Except.map]

theorem length_le_flatMap_items (items : List Item) :
    items.length ≤ (items.flatMap (·.render)).length := by
  refine length_le_flatMap_of_pos _ items fun item _ => ?_
  cases item with
  | plain type =>
      obtain ⟨letter, letters, spelled, -⟩ := exists_render_eq_cons type
      simp [Item.render, spelled]
  | parameters types => simp [Item.render]
  | throws type => simp [Item.render]

theorem parseChars_render (signature : Signature) (wellFormed : signature.WellFormed) :
    parseChars signature.render = .ok signature := by
  obtain ⟨parameters, items⟩ := signature
  have read := readItems_flatMap items wellFormed.items (items.flatMap (·.render)).length
    (length_le_flatMap_items items)
  cases parameters with
  | none =>
      have opens : (items.flatMap (·.render)).head? ≠ some '<' := by
        cases items with
        | nil => simp
        | cons item items =>
            cases item with
            | plain type =>
                obtain ⟨letter, letters, spelled, isLetter⟩ := exists_render_eq_cons type
                simp_all [Item.render]
            | parameters types => simp [Item.render]
            | throws type => simp [Item.render]
      have spelled : render ⟨none, items⟩ = items.flatMap (·.render) := by simp [render]
      rw [spelled]
      unfold parseChars
      split
      next => simp_all
      next => simp only [read, bind, Except.bind, pure, Except.pure]
  | some parameters =>
      have taken := typeParameters_append parameters (wellFormed.parameters _ rfl)
        (items.flatMap (·.render))
        ((parameters.flatMap (·.render) ++ '>' :: items.flatMap (·.render)).length + 1)
        (by
          have each := length_le_flatMap_of_pos (·.render) parameters fun parameter _ => by
            simp only [TypeParameter.render, List.length_append, List.length_cons]
            omega
          rw [List.length_append]
          omega)
      have spelled : render ⟨some parameters, items⟩ =
          '<' :: (parameters.flatMap (·.render) ++ '>' :: items.flatMap (·.render)) := by
        simp [render]
      rw [spelled]
      simp only [parseChars, taken, read, bind, Except.bind, pure, Except.pure]

/-! ## What was read -/

structure OnlyReads (count : Nat) : Prop where
  ofType : ∀ {text type rest}, typeSignature count text = .ok (type, rest) →
    type.WellFormed ∧ text = type.render ++ rest
  ofSegments : ∀ {text outer nested rest}, segments count text = .ok ((outer, nested), rest) →
    outer.WellFormed ∧ WellFormedNested nested ∧
      text = outer.render ++ (renderNested nested ++ ';' :: rest)
  ofArguments : ∀ {text arguments rest}, typeArguments count text = .ok (arguments, rest) →
    WellFormedArguments arguments ∧ text = renderArguments arguments ++ '>' :: rest

namespace OnlyReads

variable {count : Nat} (only : OnlyReads count)
include only

theorem type_succ {text : List Char} {type : TypeSignature} {rest : List Char}
    (reads : typeSignature (count + 1) text = .ok (type, rest)) :
    type.WellFormed ∧ text = type.render ++ rest := by
  unfold typeSignature at reads
  split at reads
  next => contradiction
  next => contradiction
  next count' text bound =>
      obtain rfl : count' = count := by omega
      obtain ⟨⟨element, left⟩, taken, found⟩ := bind_eq_ok.mp reads
      obtain ⟨rfl, rfl⟩ := Prod.mk.inj (Except.ok.inj found)
      obtain ⟨wellFormed, rfl⟩ := only.ofType taken
      exact ⟨wellFormed, by simp [TypeSignature.render]⟩
  next text bound =>
      obtain ⟨⟨name, left⟩, taken, found⟩ := bind_eq_ok.mp reads
      obtain ⟨rfl, rfl⟩ := Prod.mk.inj (Except.ok.inj found)
      obtain ⟨isIdentifier, rfl, stop, others, listed, rfl⟩ := identifier_eq_ok taken
      obtain rfl := List.mem_singleton.mp listed
      exact ⟨isIdentifier, by simp [TypeSignature.render]⟩
  next count' text bound =>
      obtain rfl : count' = count := by omega
      obtain ⟨⟨⟨outer, nested⟩, left⟩, taken, found⟩ := bind_eq_ok.mp reads
      obtain ⟨rfl, rfl⟩ := Prod.mk.inj (Except.ok.inj found)
      obtain ⟨wellFormed, wellFormedNested, rfl⟩ := only.ofSegments taken
      exact ⟨⟨wellFormed, wellFormedNested⟩, by simp [TypeSignature.render]⟩
  next letter text bound =>
      split at reads
      next kind known =>
          obtain ⟨rfl, rfl⟩ := Prod.mk.inj (Except.ok.inj reads)
          exact ⟨trivial, by simp [TypeSignature.render, Primitive.letter_of_ofLetter? known]⟩
      next => contradiction

theorem segment_succ {name text : List Char} {segment : Segment} {rest : List Char}
    (isIdentifier : IsIdentifier segmentStops name)
    (reads : (match text with
      | '<' :: rest => do
        let (arguments, rest) ← typeArguments count rest
        pure (.generic name arguments, rest)
      | rest => pure (.plain name, rest) : Except Fault (Segment × List Char)) =
        .ok (segment, rest)) :
    segment.WellFormed ∧ name ++ text = segment.render ++ rest := by
  split at reads
  next text =>
      obtain ⟨⟨arguments, left⟩, taken, found⟩ := bind_eq_ok.mp reads
      obtain ⟨rfl, rfl⟩ := Prod.mk.inj (Except.ok.inj found)
      obtain ⟨wellFormed, rfl⟩ := only.ofArguments taken
      exact ⟨⟨isIdentifier, wellFormed⟩, by simp [Segment.render]⟩
  next =>
      obtain ⟨rfl, rfl⟩ := Prod.mk.inj (Except.ok.inj reads)
      exact ⟨isIdentifier, rfl⟩

theorem segments_succ {text : List Char} {outer : Segment} {nested : List Segment}
    {rest : List Char} (reads : segments (count + 1) text = .ok ((outer, nested), rest)) :
    outer.WellFormed ∧ WellFormedNested nested ∧
      text = outer.render ++ (renderNested nested ++ ';' :: rest) := by
  simp only [segments] at reads
  obtain ⟨⟨name, left⟩, named, reads⟩ := bind_eq_ok.mp reads
  obtain ⟨⟨segment, further⟩, taken, closes⟩ := bind_eq_ok.mp reads
  obtain ⟨isIdentifier, rfl, -⟩ := identifier_eq_ok named
  obtain ⟨wellFormed, spelled⟩ := only.segment_succ isIdentifier taken
  dsimp only at spelled closes
  rw [spelled]
  split at closes
  next text =>
      obtain ⟨⟨⟨inner, others⟩, left⟩, taken, found⟩ := bind_eq_ok.mp closes
      obtain ⟨⟨rfl, rfl⟩, rfl⟩ := Prod.mk.inj (Except.ok.inj found) |>.imp_left Prod.mk.inj
      obtain ⟨wellFormedInner, wellFormedOthers, rfl⟩ := only.ofSegments taken
      exact ⟨wellFormed, ⟨wellFormedInner, wellFormedOthers⟩, by simp [renderNested]⟩
  next text =>
      obtain ⟨⟨rfl, rfl⟩, rfl⟩ := Prod.mk.inj (Except.ok.inj closes) |>.imp_left Prod.mk.inj
      exact ⟨wellFormed, trivial, rfl⟩
  next => contradiction

theorem bounded_succ (bound : Bound) {text : List Char} {arguments : List Argument}
    {rest : List Char}
    (reads : (do
      let (type, rest) ← typeSignature count text
      let (others, rest) ← typeArguments count rest
      pure (.bounded bound type :: others, rest)) = Except.ok (arguments, rest)) :
    WellFormedArguments arguments ∧
      bound.render ++ text = renderArguments arguments ++ '>' :: rest := by
  obtain ⟨⟨type, left⟩, first, reads⟩ := bind_eq_ok.mp reads
  obtain ⟨⟨others, further⟩, taken, found⟩ := bind_eq_ok.mp reads
  obtain ⟨rfl, rfl⟩ := Prod.mk.inj (Except.ok.inj found)
  obtain ⟨wellFormed, rfl⟩ := only.ofType first
  obtain ⟨wellFormedOthers, rfl⟩ := only.ofArguments taken
  exact ⟨⟨wellFormed, wellFormedOthers⟩, by simp [renderArguments, Argument.render]⟩

theorem arguments_succ {text : List Char} {arguments : List Argument} {rest : List Char}
    (reads : typeArguments (count + 1) text = .ok (arguments, rest)) :
    WellFormedArguments arguments ∧ text = renderArguments arguments ++ '>' :: rest := by
  unfold typeArguments at reads
  split at reads
  next => contradiction
  next => contradiction
  next =>
      obtain ⟨rfl, rfl⟩ := Prod.mk.inj (Except.ok.inj reads)
      exact ⟨trivial, rfl⟩
  next count' text bound =>
      obtain rfl : count' = count := by omega
      obtain ⟨⟨others, left⟩, taken, found⟩ := bind_eq_ok.mp reads
      obtain ⟨rfl, rfl⟩ := Prod.mk.inj (Except.ok.inj found)
      obtain ⟨wellFormed, rfl⟩ := only.ofArguments taken
      exact ⟨⟨trivial, wellFormed⟩, by simp [renderArguments, Argument.render]⟩
  next count' text bound =>
      obtain rfl : count' = count := by omega
      exact only.bounded_succ .upper reads
  next count' text bound =>
      obtain rfl : count' = count := by omega
      exact only.bounded_succ .lower reads
  next count' text bound _ _ _ _ =>
      obtain rfl : count' = count := by omega
      exact only.bounded_succ .exact reads

end OnlyReads

theorem onlyReads (count : Nat) : OnlyReads count := by
  induction count with
  | zero => constructor <;> intros <;> contradiction
  | succ count only => exact ⟨only.type_succ, only.segments_succ, only.arguments_succ⟩

theorem javaType_eq_ok {text : List Char} {type : TypeSignature} {rest : List Char}
    (reads : javaType text = .ok (type, rest)) :
    type.WellFormed ∧ text = type.render ++ rest :=
  (onlyReads _).ofType reads

theorem parameterTypes_eq_ok {count : Nat} {text : List Char} {types : List TypeSignature}
    {rest : List Char} (reads : parameterTypes count text = .ok (types, rest)) :
    (∀ type ∈ types, type.WellFormed) ∧ text = types.flatMap (·.render) ++ ')' :: rest := by
  induction count generalizing text types with
  | zero => contradiction
  | succ count ih =>
      unfold parameterTypes at reads
      split at reads
      next => contradiction
      next =>
          obtain ⟨rfl, rfl⟩ := Prod.mk.inj (Except.ok.inj reads)
          exact ⟨by simp, rfl⟩
      next _ count' open_ bound =>
          obtain rfl : count' = count := by omega
          obtain ⟨⟨type, left⟩, first, reads⟩ := bind_eq_ok.mp reads
          obtain ⟨⟨others, further⟩, taken, found⟩ := bind_eq_ok.mp reads
          obtain ⟨rfl, rfl⟩ := Prod.mk.inj (Except.ok.inj found)
          obtain ⟨wellFormed, rfl⟩ := javaType_eq_ok first
          obtain ⟨wellFormedOthers, rfl⟩ := ih taken
          exact ⟨List.forall_mem_cons.mpr ⟨wellFormed, wellFormedOthers⟩, by simp⟩

theorem interfaceBounds_eq_ok {count : Nat} {text : List Char} {bounds : List TypeSignature}
    {rest : List Char} (reads : interfaceBounds count text = .ok (bounds, rest)) :
    (∀ bound ∈ bounds, bound.WellFormed) ∧
      text = bounds.flatMap (fun bound => ':' :: bound.render) ++ rest := by
  induction count generalizing text bounds with
  | zero =>
      obtain ⟨rfl, rfl⟩ := Prod.mk.inj (Except.ok.inj reads)
      exact ⟨by simp, rfl⟩
  | succ count ih =>
      unfold interfaceBounds at reads
      split at reads
      next count' text bound =>
          obtain rfl : count' = count := by omega
          obtain ⟨⟨type, left⟩, first, reads⟩ := bind_eq_ok.mp reads
          obtain ⟨⟨others, further⟩, taken, found⟩ := bind_eq_ok.mp reads
          obtain ⟨rfl, rfl⟩ := Prod.mk.inj (Except.ok.inj found)
          obtain ⟨wellFormed, rfl⟩ := javaType_eq_ok first
          obtain ⟨wellFormedOthers, rfl⟩ := ih taken
          exact ⟨List.forall_mem_cons.mpr ⟨wellFormed, wellFormedOthers⟩, by simp⟩
      next =>
          obtain ⟨rfl, rfl⟩ := Prod.mk.inj (Except.ok.inj reads)
          exact ⟨by simp, rfl⟩

theorem classBound_eq_ok {text : List Char} {bound : Option TypeSignature} {rest : List Char}
    (reads : classBound text = .ok (bound, rest)) :
    (∀ type ∈ bound, type.WellFormed) ∧ text = bound.toList.flatMap (·.render) ++ rest ∧
      (bound = none → rest.head? = some ':' ∨ rest.head? = some '>') := by
  unfold classBound at reads
  split at reads
  next =>
      obtain ⟨rfl, rfl⟩ := Prod.mk.inj (Except.ok.inj reads)
      exact ⟨by simp, rfl, fun _ => .inl rfl⟩
  next =>
      obtain ⟨rfl, rfl⟩ := Prod.mk.inj (Except.ok.inj reads)
      exact ⟨by simp, rfl, fun _ => .inr rfl⟩
  next =>
      obtain ⟨⟨type, left⟩, first, found⟩ := bind_eq_ok.mp reads
      obtain ⟨rfl, rfl⟩ := Prod.mk.inj (Except.ok.inj found)
      obtain ⟨wellFormed, rfl⟩ := javaType_eq_ok first
      exact ⟨by simpa using wellFormed, by simp, by simp⟩

private theorem head?_of_interfaceBounds_nil {text rest : List Char}
    (reads : interfaceBounds text.length text = .ok ([], rest)) : text.head? ≠ some ':' := by
  rintro opens
  obtain ⟨others, rfl⟩ := List.head?_eq_some_iff.mp opens
  obtain ⟨⟨type, left⟩, -, reads⟩ := bind_eq_ok.mp reads
  obtain ⟨⟨types, further⟩, -, found⟩ := bind_eq_ok.mp reads
  simp [pure, Except.pure] at found

private theorem eq_nil_of_head?_parameters {parameters : List TypeParameter} {rest : List Char}
    (wellFormed : WellFormedParameters parameters)
    (ends : (parameters.flatMap (·.render) ++ '>' :: rest).head? = some '>') :
    parameters = [] := by
  cases parameters with
  | nil => rfl
  | cons parameter parameters =>
      obtain ⟨letter, letters, text⟩ := List.exists_cons_of_ne_nil wellFormed.1.isIdentifier.1
      refine absurd ?_ wellFormed.1.opens
      simpa [TypeParameter.render, text] using ends

theorem typeParameters_eq_ok {count : Nat} {text : List Char} {parameters : List TypeParameter}
    {rest : List Char} (reads : typeParameters count text = .ok (parameters, rest)) :
    WellFormedParameters parameters ∧
      text = parameters.flatMap (·.render) ++ '>' :: rest := by
  induction count generalizing text parameters with
  | zero => contradiction
  | succ count ih =>
      unfold typeParameters at reads
      split at reads
      next => contradiction
      next =>
          obtain ⟨rfl, rfl⟩ := Prod.mk.inj (Except.ok.inj reads)
          exact ⟨trivial, rfl⟩
      next _ count' open_ bound =>
          obtain rfl : count' = count := by omega
          obtain ⟨⟨name, afterName⟩, named, reads⟩ := bind_eq_ok.mp reads
          obtain ⟨⟨bound, afterBound⟩, bounded, reads⟩ := bind_eq_ok.mp reads
          obtain ⟨⟨bounds, afterBounds⟩, further, reads⟩ := bind_eq_ok.mp reads
          obtain ⟨⟨others, left⟩, taken, found⟩ := bind_eq_ok.mp reads
          obtain ⟨rfl, rfl⟩ := Prod.mk.inj (Except.ok.inj found)
          obtain ⟨isIdentifier, rfl, stop, text, listed, rfl⟩ := identifier_eq_ok named
          obtain ⟨wellFormedBound, spelled, missing⟩ := classBound_eq_ok bounded
          obtain ⟨wellFormedBounds, rfl⟩ := interfaceBounds_eq_ok further
          obtain ⟨wellFormedOthers, rfl⟩ := ih taken
          obtain rfl := List.mem_singleton.mp listed
          refine ⟨⟨⟨isIdentifier, fun opens => ?_, ?_⟩, fun unbound => ?_, wellFormedOthers⟩, ?_⟩
          · obtain ⟨letter, letters, rfl⟩ := List.exists_cons_of_ne_nil isIdentifier.1
            obtain rfl : letter = '>' := by simpa using opens
            exact bound _ rfl
          · simp only [TypeParameter.bounds, List.mem_append, Option.mem_toList]
            rintro type (member | member)
            exacts [wellFormedBound type member, wellFormedBounds type member]
          · obtain ⟨unboundClass, rfl⟩ := List.append_eq_nil_iff.mp unbound
            obtain rfl := Option.toList_eq_nil_iff.mp unboundClass
            have ends := (missing rfl).resolve_left (head?_of_interfaceBounds_nil further)
            exact eq_nil_of_head?_parameters wellFormedOthers ends
          · rw [List.flatMap_cons, List.append_assoc, TypeParameter.render_append, ← spelled]
            rfl

theorem readItems_eq_ok {count : Nat} {text : List Char} {items : List Item}
    (reads : readItems count text = .ok items) :
    (∀ item ∈ items, ∀ type ∈ item.types, type.WellFormed) ∧
      text = items.flatMap (·.render) := by
  induction count generalizing text items with
  | zero =>
      unfold readItems at reads
      split at reads
      next =>
          obtain rfl := Except.ok.inj reads
          exact ⟨by simp, rfl⟩
      all_goals contradiction
  | succ count ih =>
      have front (item : Item) {text : List Char} {items : List Item}
          (wellFormed : ∀ type ∈ item.types, type.WellFormed)
          (reads : (item :: ·) <$> readItems count text = .ok items) :
          (∀ item ∈ items, ∀ type ∈ item.types, type.WellFormed) ∧
            item.render ++ text = items.flatMap (·.render) := by
        obtain ⟨others, taken, rfl⟩ := map_eq_ok.mp reads
        obtain ⟨wellFormedOthers, rfl⟩ := ih taken
        exact ⟨List.forall_mem_cons.mpr ⟨wellFormed, wellFormedOthers⟩, by simp⟩
      unfold readItems at reads
      split at reads
      next =>
          obtain rfl := Except.ok.inj reads
          exact ⟨by simp, rfl⟩
      next => contradiction
      next count' text same =>
          obtain rfl : count' = count := by omega
          obtain ⟨⟨types, left⟩, first, further⟩ := bind_eq_ok.mp reads
          obtain ⟨wellFormed, rfl⟩ := parameterTypes_eq_ok first
          simpa [Item.render] using front (.parameters types) wellFormed further
      next count' text same =>
          obtain rfl : count' = count := by omega
          obtain ⟨⟨type, left⟩, first, further⟩ := bind_eq_ok.mp reads
          obtain ⟨wellFormed, rfl⟩ := javaType_eq_ok first
          exact front (.throws type) (by simpa [Item.types] using wellFormed) further
      next _ count' _ _ _ same =>
          obtain rfl : count' = count := by omega
          obtain ⟨⟨type, left⟩, first, further⟩ := bind_eq_ok.mp reads
          obtain ⟨wellFormed, rfl⟩ := javaType_eq_ok first
          exact front (.plain type) (by simpa [Item.types] using wellFormed) further

theorem parseChars_eq_ok {text : List Char} {signature : Signature}
    (reads : parseChars text = .ok signature) :
    signature.WellFormed ∧ text = signature.render := by
  unfold parseChars at reads
  split at reads
  next text =>
      obtain ⟨⟨parameters, left⟩, taken, reads⟩ := bind_eq_ok.mp reads
      obtain ⟨items, read, found⟩ := bind_eq_ok.mp reads
      obtain rfl := Except.ok.inj found
      obtain ⟨wellFormed, rfl⟩ := typeParameters_eq_ok taken
      obtain ⟨wellFormedItems, rfl⟩ := readItems_eq_ok read
      exact ⟨⟨by simpa using wellFormed, wellFormedItems⟩, by simp [render]⟩
  next =>
      obtain ⟨items, read, found⟩ := bind_eq_ok.mp reads
      obtain rfl := Except.ok.inj found
      obtain ⟨wellFormedItems, rfl⟩ := readItems_eq_ok read
      exact ⟨⟨by simp, wellFormedItems⟩, by simp [render]⟩

theorem parse_eq_ok {text : String} {signature : Signature} :
    parse text = .ok signature ↔
      signature.WellFormed ∧ text = String.ofList signature.render := by
  constructor
  · intro reads
    obtain ⟨wellFormed, spelled⟩ := parseChars_eq_ok reads
    exact ⟨wellFormed, by rw [← spelled, String.ofList_toList]⟩
  · rintro ⟨wellFormed, rfl⟩
    rw [parse, String.toList_ofList]
    exact parseChars_render signature wellFormed

/-- The texts that are read are those of the trees of the grammar, and what is listed are the class
types of the tree, each where it closes. -/
theorem referencedTypes_eq_ok (text : String) (names : List String) :
    referencedTypes text = .ok names ↔
      ∃ signature : Signature, signature.WellFormed ∧ text = String.ofList signature.render ∧
        names = signature.classTypes := by
  unfold referencedTypes
  split
  next signature reads =>
      obtain ⟨wellFormed, spelled⟩ := parse_eq_ok.mp reads
      constructor
      · intro found
        exact ⟨signature, wellFormed, spelled, (Except.ok.inj found).symm⟩
      · rintro ⟨other, wellFormedOther, spelledOther, rfl⟩
        have same := parse_eq_ok.mpr ⟨wellFormedOther, spelledOther⟩
        rw [reads, Except.ok.injEq] at same
        rw [same]
  next fault fails =>
      constructor
      · intro found
        contradiction
      · rintro ⟨signature, wellFormed, spelled, -⟩
        rw [parse_eq_ok.mpr ⟨wellFormed, spelled⟩] at fails
        contradiction

example : referencedTypes "Lp/Outer<+Lp/A;*>.Inner<TT;>;" = .ok ["p/A", "p/Outer$Inner"] := by
  decide +kernel

end Signature

end AbiBuild
