import AbiBuild.Text.Utf8

/-!
# Type signatures

Descriptors and generic signatures share one grammar: optional type parameters, and then types,
parameter lists and clauses that name thrown types.  The class types of a signature are listed in
the order in which they close, so the arguments of a type come before the type itself.
-/

namespace AbiBuild.Signature

/-- The types written as one letter. -/
inductive Primitive
  | byte
  | char
  | double
  | float
  | int
  | long
  | short
  | boolean
  | void
  deriving DecidableEq, Repr

namespace Primitive

def letter : Primitive → Char
  | byte => 'B'
  | char => 'C'
  | double => 'D'
  | float => 'F'
  | int => 'I'
  | long => 'J'
  | short => 'S'
  | boolean => 'Z'
  | void => 'V'

def ofLetter? : Char → Option Primitive
  | 'B' => some byte
  | 'C' => some char
  | 'D' => some double
  | 'F' => some float
  | 'I' => some int
  | 'J' => some long
  | 'S' => some short
  | 'Z' => some boolean
  | 'V' => some void
  | _ => none

theorem letter_of_ofLetter? {value : Char} {kind : Primitive} (h : ofLetter? value = some kind) :
    kind.letter = value := by
  unfold ofLetter? at h
  split at h <;> cases h <;> rfl

end Primitive

/-- How an argument limits the types it stands for. -/
inductive Bound
  | exact
  | upper
  | lower
  deriving DecidableEq, Repr

def Bound.render : Bound → List Char
  | exact => []
  | upper => ['+']
  | lower => ['-']

mutual

inductive TypeSignature
  | primitive (kind : Primitive)
  | array (element : TypeSignature)
  | variable (name : List Char)
  /-- A class, and the classes nested in it that the signature steps down to. -/
  | object (outer : Segment) (nested : List Segment)

/-- One class name in a class type, with or without arguments. -/
inductive Segment
  | plain (name : List Char)
  | generic (name : List Char) (arguments : List Argument)

inductive Argument
  | wildcard
  | bounded (bound : Bound) (type : TypeSignature)

end

def Segment.name : Segment → List Char
  | plain name | generic name _ => name

mutual

def TypeSignature.render : TypeSignature → List Char
  | .primitive kind => [kind.letter]
  | .array element => '[' :: element.render
  | .variable name => 'T' :: name ++ [';']
  | .object outer nested => 'L' :: outer.render ++ renderNested nested ++ [';']

def Segment.render : Segment → List Char
  | .plain name => name
  | .generic name arguments => name ++ '<' :: renderArguments arguments ++ ['>']

def Argument.render : Argument → List Char
  | .wildcard => ['*']
  | .bounded bound type => bound.render ++ type.render

def renderNested : List Segment → List Char
  | [] => []
  | segment :: others => '.' :: segment.render ++ renderNested others

def renderArguments : List Argument → List Char
  | [] => []
  | argument :: others => argument.render ++ renderArguments others

end

/-- A nested class is named by its own name after those of the classes around it. -/
def className (outer : Segment) (nested : List Segment) : String :=
  String.ofList (outer.name ++ nested.flatMap fun segment => '$' :: segment.name)

mutual

def TypeSignature.classTypes : TypeSignature → List String
  | .primitive _ => []
  | .array element => element.classTypes
  | .variable _ => []
  | .object outer nested =>
    outer.classTypes ++ classTypesOfNested nested ++ [className outer nested]

def Segment.classTypes : Segment → List String
  | .plain _ => []
  | .generic _ arguments => classTypesOfArguments arguments

def Argument.classTypes : Argument → List String
  | .wildcard => []
  | .bounded _ type => type.classTypes

def classTypesOfNested : List Segment → List String
  | [] => []
  | segment :: others => segment.classTypes ++ classTypesOfNested others

def classTypesOfArguments : List Argument → List String
  | [] => []
  | argument :: others => argument.classTypes ++ classTypesOfArguments others

end

/-- A declared type parameter.  The class bound may be missing, interface bounds may follow. -/
structure TypeParameter where
  name : List Char
  classBound : Option TypeSignature
  interfaceBounds : List TypeSignature

namespace TypeParameter

def bounds (parameter : TypeParameter) : List TypeSignature :=
  parameter.classBound.toList ++ parameter.interfaceBounds

def render (parameter : TypeParameter) : List Char :=
  parameter.name ++ ':' :: (parameter.classBound.toList.flatMap (·.render)) ++
    parameter.interfaceBounds.flatMap fun bound => ':' :: bound.render

end TypeParameter

inductive Item
  | plain (type : TypeSignature)
  | parameters (types : List TypeSignature)
  | throws (type : TypeSignature)

namespace Item

def types : Item → List TypeSignature
  | plain type => [type]
  | parameters types => types
  | throws type => [type]

def render : Item → List Char
  | plain type => type.render
  | parameters types => '(' :: types.flatMap (·.render) ++ [')']
  | throws type => '^' :: type.render

end Item

end Signature

/-- A descriptor or generic signature. -/
structure Signature where
  parameters : Option (List Signature.TypeParameter)
  items : List Signature.Item

namespace Signature

def render (signature : Signature) : List Char :=
  (match signature.parameters with
    | none => []
    | some parameters => '<' :: parameters.flatMap (·.render) ++ ['>']) ++
    signature.items.flatMap (·.render)

/-- Every class type, once for each time it is written. -/
def classTypes (signature : Signature) : List String :=
  ((signature.parameters.getD []).flatMap (·.bounds) ++ signature.items.flatMap (·.types)).flatMap
    (·.classTypes)

end Signature

end AbiBuild
