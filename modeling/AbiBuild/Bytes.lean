/-!
# Octets

Files are lists of octets.  Multi-octet numbers are written most significant octet first in class
files and in MessagePack, least significant octet first in digests and compressed frames.
-/

namespace AbiBuild

/-! Powers are those of the core library, also where algebra offers its own. -/

attribute [instance (high), default_instance high] instPowNat

abbrev Bytes := List UInt8

namespace Bytes

def split? (count : Nat) (bytes : Bytes) : Option (Bytes × Bytes) :=
  if (bytes.take count).length = count then some (bytes.take count, bytes.drop count) else none

/-- The number written most significant octet first. -/
def toNatBE (bytes : Bytes) : Nat :=
  bytes.foldl (fun value octet => value * 256 + octet.toNat) 0

def toNatLE : Bytes → Nat
  | [] => 0
  | octet :: rest => octet.toNat + 256 * toNatLE rest

def ofNatLE : (width : Nat) → Nat → Bytes
  | 0, _ => []
  | width + 1, value => UInt8.ofNat (value % 256) :: ofNatLE width (value / 256)

def ofNatBE (width value : Nat) : Bytes :=
  (ofNatLE width value).reverse

theorem split?_append {count : Nat} {bytes taken rest : Bytes}
    (h : split? count bytes = some (taken, rest)) : bytes = taken ++ rest := by
  unfold split? at h
  split at h
  · simp only [Option.some.injEq, Prod.mk.injEq] at h
    rw [← h.1, ← h.2, List.take_append_drop]
  · cases h

theorem split?_length {count : Nat} {bytes taken rest : Bytes}
    (h : split? count bytes = some (taken, rest)) : taken.length = count := by
  unfold split? at h
  split at h
  next hlength =>
    simp only [Option.some.injEq, Prod.mk.injEq] at h
    rw [← h.1, hlength]
  next => cases h

theorem split?_of_append (taken rest : Bytes) :
    split? taken.length (taken ++ rest) = some (taken, rest) := by
  simp [split?]

@[simp] theorem length_ofNatLE (width value : Nat) :
    (ofNatLE width value).length = width := by
  induction width generalizing value with
  | zero => rfl
  | succ width ih => simp [ofNatLE, ih]

theorem toNatLE_ofNatLE (width value : Nat) :
    toNatLE (ofNatLE width value) = value % 256 ^ width := by
  induction width generalizing value with
  | zero => simp [ofNatLE, toNatLE, Nat.mod_one]
  | succ width ih =>
      simp only [ofNatLE, toNatLE, ih]
      rw [UInt8.toNat_ofNat', Nat.mod_mod, Nat.pow_succ, Nat.mul_comm (256 ^ width) 256,
        Nat.mod_mul]

def hexDigit (digit : Nat) : Char :=
  if digit < 10 then Char.ofNat (48 + digit) else Char.ofNat (87 + digit)

def hexText : (width : Nat) → Nat → String
  | 0, _ => ""
  | width + 1, value => (hexText width (value / 16)).push (hexDigit (value % 16))

end Bytes

end AbiBuild
