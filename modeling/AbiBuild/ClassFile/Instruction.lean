import AbiBuild.ClassFile.Decoder

/-!
# Instructions

Code is a sequence of instructions of different lengths.  Of their operands only those are kept
that refer to constants or to other places in the code.
-/

namespace AbiBuild.ClassFile

inductive Instruction
  /-- Nothing that is kept. -/
  | plain
  /-- Loads the constant under an index, which may be a class. -/
  | loadsConstant (index : Nat)
  /-- Names the class under an index. -/
  | namesClass (index : Nat)
  /-- Accesses the field or calls the method under an index. -/
  | usesMember (index : Nat)
  /-- Continues elsewhere; the target fits two octets. -/
  | branches (target : Nat)
  /-- Continues elsewhere; nothing is known of the targets yet. -/
  | branchesFar (targets : List Int)
  deriving DecidableEq, Repr

namespace Instruction

/-- What follows an opcode. -/
inductive Form
  /-- Operands of a fixed length that are not kept. -/
  | fixed (size : Nat)
  | loads (width : Nat)
  | classIndex (trailing : Nat)
  | memberIndex
  | interfaceCall
  | dynamicCall
  | newArray
  | near
  | far
  | tableSwitch
  | lookupSwitch
  | wide
  | invalid
  deriving DecidableEq, Repr

def form (opcode : Nat) : Form :=
  if opcode < 16 then .fixed 0
  else if opcode = 16 then .fixed 1
  else if opcode = 17 then .fixed 2
  else if opcode = 18 then .loads 1
  else if opcode = 19 then .loads 2
  else if opcode = 20 then .fixed 2
  else if opcode ≤ 25 then .fixed 1
  else if opcode < 54 then .fixed 0
  else if opcode ≤ 58 then .fixed 1
  else if opcode < 132 then .fixed 0
  else if opcode = 132 then .fixed 2
  else if opcode < 153 then .fixed 0
  else if opcode ≤ 168 then .near
  else if opcode = 169 then .fixed 1
  else if opcode = 170 then .tableSwitch
  else if opcode = 171 then .lookupSwitch
  else if opcode < 178 then .fixed 0
  else if opcode ≤ 184 then .memberIndex
  else if opcode = 185 then .interfaceCall
  else if opcode = 186 then .dynamicCall
  else if opcode = 187 then .classIndex 0
  else if opcode = 188 then .newArray
  else if opcode = 189 then .classIndex 0
  else if opcode < 192 then .fixed 0
  else if opcode ≤ 193 then .classIndex 0
  else if opcode < 196 then .fixed 0
  else if opcode = 196 then .wide
  else if opcode = 197 then .classIndex 1
  else if opcode ≤ 199 then .near
  else if opcode ≤ 201 then .far
  else if opcode = 202 || opcode = 254 || opcode = 255 then .fixed 0
  else .invalid

def wideSize? (opcode : Nat) : Option Nat :=
  match form opcode with
  | .fixed 1 => if opcode = 16 then none else some 2
  | .fixed 2 => if opcode = 132 then some 4 else none
  | _ => none

def lastTargets (pairs : List (Int × Int)) : List Int :=
  (pairs.filterMap fun (key, _) => pairs.reverse.lookup key)

end Instruction

def offsetWithin (offset : Int) : Except Fault Nat :=
  if 0 ≤ offset && offset < 65536 then .ok offset.toNat else .error .codeOffset

namespace Decoder

open Instruction

def padding : Decoder Unit := do
  let place ← position
  skip ((4 - place % 4) % 4)

def switchTargets (start : Nat) (form : Form) : Decoder (List Int) := do
  padding
  let default ← signed 4
  let offsets ← match form with
    | .tableSwitch => do
      let low ← signed 4
      let high ← signed 4
      times (signed 4) (high - low + 1).toNat
    | _ => do
      let count ← signed 4
      lastTargets <$> times (do pure (← signed 4, ← signed 4)) count.toNat
  pure ((default :: offsets).map (start + ·))

def instruction : Decoder Instruction := do
  let start ← position
  let opcode ← u1
  match form opcode with
  | .fixed size => skip size *> pure .plain
  | .loads width => .loadsConstant <$> unsigned width
  | .classIndex trailing => do
    let index ← u2
    skip trailing
    pure (.namesClass index)
  | .memberIndex => .usesMember <$> u2
  | .interfaceCall => do
    let index ← u2
    skip 1
    if (← u1) ≠ 0 then throw (.instruction opcode)
    pure (.usesMember index)
  | .dynamicCall => do
    skip 2
    if (← u2) ≠ 0 then throw (.instruction opcode)
    pure .plain
  | .newArray => do
    let code ← u1
    if code < 4 || 11 < code then throw (.arrayTypeCode code)
    pure .plain
  | .near => do
    let target ← offsetWithin (start + (← signed 2))
    pure (.branches target)
  | .far => do
    let offset ← signed 4
    pure (.branchesFar [start + offset])
  | .tableSwitch => .branchesFar <$> switchTargets start .tableSwitch
  | .lookupSwitch => .branchesFar <$> switchTargets start .lookupSwitch
  | .wide => do
    let widened ← u1
    match wideSize? widened with
    | some size => skip size *> pure .plain
    | none => throw (.wideInstruction widened)
  | .invalid => throw (.instruction opcode)

/-- Instructions to the end, each with the place where it starts.  The count bounds their
number. -/
def instructions : Nat → Decoder (List (Nat × Instruction))
  | 0 => pure []
  | count + 1 => fun cursor =>
    if cursor.rest.isEmpty then .ok ([], cursor)
    else do
      let start ← offsetWithin cursor.position
      let (found, cursor) ← instruction cursor
      let (others, cursor) ← instructions count cursor
      pure ((start, found) :: others, cursor)

end Decoder

/-- The instructions of a method and the places where they start. -/
structure InstructionList where
  located : List (Nat × Instruction)
  deriving DecidableEq, Repr

namespace InstructionList

def instructions (code : InstructionList) : List Instruction :=
  code.located.map (·.2)

def starts (code : InstructionList) : List Nat :=
  code.located.map (·.1)

end InstructionList

def expectStart (starts : List Nat) (offset : Nat) : Except Fault Unit :=
  if starts.contains offset then .ok () else .error (.instructionOffset offset)

def expectTargets (starts : List Nat) : Instruction → Except Fault Unit
  | .branches target => expectStart starts target
  | .branchesFar targets => targets.forM fun target => do expectStart starts (← offsetWithin target)
  | _ => .ok ()

def InstructionList.ofBytes (bytes : Bytes) : Except Fault InstructionList := do
  let located ← (Decoder.instructions bytes.length).run bytes
  let starts := located.map (·.1)
  located.forM fun (_, instruction) => expectTargets starts instruction
  pure ⟨located⟩

end AbiBuild.ClassFile
