import AbiBuild.ClassFile.Decoder

/-!
# Frames of a stack map

A frame says what a verifier may assume at one place in code.  Only the places are kept: the first
one as it is written, each other one counted from the instruction after the one before.
-/

namespace AbiBuild.ClassFile.Decoder

def verificationType : Decoder Unit := do
  let tag ← u1
  if tag ≤ 6 then pure ()
  else if tag ≤ 8 then skip 2
  else throw (.verificationTag tag)

def frame : Decoder Nat := do
  let tag ← u1
  if tag < 64 then pure tag
  else if tag < 128 then verificationType *> pure (tag - 64)
  else if tag < 247 then throw (.frameType tag)
  else
    let distance ← u2
    if tag = 247 then verificationType
    else if tag = 255 then
      let _ ← table 2 verificationType
      let _ ← table 2 verificationType
    else discard (times verificationType (tag - 251))
    pure distance

def placesAfter (before : Nat) : List Nat → List Nat
  | [] => []
  | distance :: others =>
    let place := before + distance + 1
    place :: placesAfter place others

def framePlaces : List Nat → List Nat
  | [] => []
  | distance :: others => distance :: placesAfter distance others

def stackMap : Decoder (List Nat) := framePlaces <$> table 2 frame

end AbiBuild.ClassFile.Decoder
