import AbiBuild.Signature.Basic

/-!
# Reading signatures

A signature is read from left to right without looking back.  A fault says what is wrong and what
of the text was still unread, which gives its place.
-/

namespace AbiBuild.Signature

inductive Cause
  | unexpected (found : Char)
  | unexpectedEnd
  | unterminatedArguments
  | badIdentifier
  | missing (expected : Char)
  deriving DecidableEq, Repr

structure Fault where
  cause : Cause
  remaining : List Char
  deriving DecidableEq, Repr

def Cause.message : Cause → String
  | unexpected found =>
    "unexpected '" ++
      String.ofList ((String.utf8EncodeChar found).take 1 |>.map fun octet => Char.ofNat octet.toNat) ++
      "'"
  | unexpectedEnd => "unexpected end"
  | unterminatedArguments => "unterminated type arguments"
  | badIdentifier => "bad identifier"
  | missing expected => "expected '" ++ String.ofList [expected] ++ "'"

def Fault.message (signature : String) (fault : Fault) : String :=
  let place := signature.utf8ByteSize - (String.ofList fault.remaining).utf8ByteSize
  fault.cause.message ++ " at " ++ toString place ++ " in signature " ++ signature

def identifier (stops : List Char) (text : List Char) : Except Fault (List Char × List Char) :=
  let name := text.takeWhile fun value => !stops.contains value
  let rest := text.dropWhile fun value => !stops.contains value
  if name.isEmpty || rest.isEmpty then .error ⟨.badIdentifier, rest⟩ else .ok (name, rest)

def variableStops : List Char := [';']

def segmentStops : List Char := ['<', '.', ';']

mutual

/-- The count bounds the depth, here and below: every step down reads a character, or goes from an
argument to its type. -/
def typeSignature : Nat → List Char → Except Fault (TypeSignature × List Char)
  | 0, text => .error ⟨.unexpectedEnd, text⟩
  | _ + 1, [] => .error ⟨.unexpectedEnd, []⟩
  | count + 1, '[' :: rest => do
    let (element, rest) ← typeSignature count rest
    pure (.array element, rest)
  | _ + 1, 'T' :: rest => do
    let (name, rest) ← identifier variableStops rest
    pure (.variable name, rest.drop 1)
  | count + 1, 'L' :: rest => do
    let ((outer, nested), rest) ← segments count rest
    pure (.object outer nested, rest)
  | _ + 1, letter :: rest =>
    match Primitive.ofLetter? letter with
    | some kind => .ok (.primitive kind, rest)
    | none => .error ⟨.unexpected letter, letter :: rest⟩

def segments : Nat → List Char → Except Fault ((Segment × List Segment) × List Char)
  | 0, text => .error ⟨.badIdentifier, text⟩
  | count + 1, text => do
    let (name, rest) ← identifier segmentStops text
    let (segment, rest) ← (match rest with
      | '<' :: rest => do
        let (arguments, rest) ← typeArguments count rest
        pure (.generic name arguments, rest)
      | rest => pure (.plain name, rest) : Except Fault (Segment × List Char))
    match rest with
    | '.' :: rest => do
      let ((inner, others), rest) ← segments count rest
      pure ((segment, inner :: others), rest)
    | ';' :: rest => pure ((segment, []), rest)
    | rest => .error ⟨.missing ';', rest⟩

def typeArguments : Nat → List Char → Except Fault (List Argument × List Char)
  | 0, text => .error ⟨.unterminatedArguments, text⟩
  | _ + 1, [] => .error ⟨.unterminatedArguments, []⟩
  | _ + 1, '>' :: rest => .ok ([], rest)
  | count + 1, '*' :: rest => do
    let (others, rest) ← typeArguments count rest
    pure (.wildcard :: others, rest)
  | count + 1, '+' :: rest => do
    let (type, rest) ← typeSignature count rest
    let (others, rest) ← typeArguments count rest
    pure (.bounded .upper type :: others, rest)
  | count + 1, '-' :: rest => do
    let (type, rest) ← typeSignature count rest
    let (others, rest) ← typeArguments count rest
    pure (.bounded .lower type :: others, rest)
  | count + 1, text => do
    let (type, rest) ← typeSignature count text
    let (others, rest) ← typeArguments count rest
    pure (.bounded .exact type :: others, rest)

end

def depthOf (text : List Char) : Nat := 2 * text.length + 2

def javaType (text : List Char) : Except Fault (TypeSignature × List Char) :=
  typeSignature (depthOf text) text

def parameterTypes : Nat → List Char → Except Fault (List TypeSignature × List Char)
  | 0, text => .error ⟨.unexpectedEnd, text⟩
  | _ + 1, ')' :: rest => .ok ([], rest)
  | count + 1, text => do
    let (type, rest) ← javaType text
    let (others, rest) ← parameterTypes count rest
    pure (type :: others, rest)

def interfaceBounds : Nat → List Char → Except Fault (List TypeSignature × List Char)
  | count + 1, ':' :: rest => do
    let (type, rest) ← javaType rest
    let (others, rest) ← interfaceBounds count rest
    pure (type :: others, rest)
  | _, text => .ok ([], text)

def classBound (text : List Char) : Except Fault (Option TypeSignature × List Char) :=
  match text with
  | ':' :: _ | '>' :: _ => .ok (none, text)
  | text => do
    let (type, rest) ← javaType text
    pure (some type, rest)

def typeParameters : Nat → List Char → Except Fault (List TypeParameter × List Char)
  | 0, text => .error ⟨.badIdentifier, text⟩
  | _ + 1, '>' :: rest => .ok ([], rest)
  | count + 1, text => do
    let (name, rest) ← identifier [':'] text
    let (bound, rest) ← classBound (rest.drop 1)
    let (bounds, rest) ← interfaceBounds rest.length rest
    let (others, rest) ← typeParameters count rest
    pure (⟨name, bound, bounds⟩ :: others, rest)

def readItems : Nat → List Char → Except Fault (List Item)
  | _, [] => .ok []
  | 0, text => .error ⟨.unexpectedEnd, text⟩
  | count + 1, '(' :: rest => do
    let (types, rest) ← parameterTypes (rest.length + 1) rest
    (.parameters types :: ·) <$> readItems count rest
  | count + 1, '^' :: rest => do
    let (type, rest) ← javaType rest
    (.throws type :: ·) <$> readItems count rest
  | count + 1, text => do
    let (type, rest) ← javaType text
    (.plain type :: ·) <$> readItems count rest

def parseChars (text : List Char) : Except Fault Signature :=
  match text with
  | '<' :: rest => do
    let (parameters, rest) ← typeParameters (rest.length + 1) rest
    pure ⟨some parameters, ← readItems rest.length rest⟩
  | text => do pure ⟨none, ← readItems text.length text⟩

def parse (text : String) : Except Fault Signature :=
  parseChars text.toList

/-- The class types of a signature, or the fault as a text. -/
def referencedTypes (text : String) : Except String (List String) :=
  match parse text with
  | .ok signature => .ok signature.classTypes
  | .error fault => .error (fault.message text)

end AbiBuild.Signature
