import AbiBuild.Bytes

/-!
# Reading off the front

A reader that takes its value off the front of any octets composes with the readers after it.
-/

namespace AbiBuild

theorem Bytes.toNatBE_ofNatBE (width value : Nat) :
    toNatBE (ofNatBE width value) = value % 256 ^ width := by
  have reversed : ∀ bytes : Bytes, toNatBE bytes.reverse = toNatLE bytes := by
    intro bytes
    induction bytes with
    | nil => rfl
    | cons octet rest ih =>
        rw [toNatBE] at ih ⊢
        rw [List.reverse_cons, List.foldl_append, ih, toNatLE, Nat.mul_comm, Nat.add_comm]
        rfl
  rw [ofNatBE, reversed, toNatLE_ofNatLE]

def Reads {α : Type} (read : StateT Bytes Option α) (bytes : Bytes) (value : α) : Prop :=
  ∀ rest, read (bytes ++ rest) = some (value, rest)

namespace Reads

variable {α β : Type} {read : StateT Bytes Option α} {next : α → StateT Bytes Option β}

protected theorem pure (value : α) : Reads (pure value) [] value := by
  intro rest
  rfl

theorem bind {first second : Bytes} {value : α} {result : β}
    (reads : Reads read first value) (continues : Reads (next value) second result) :
    Reads (read >>= next) (first ++ second) result := by
  intro rest
  have step := reads (second ++ rest)
  rw [← List.append_assoc] at step
  change (read (first ++ second ++ rest)).bind (fun found => next found.1 found.2) = _
  rw [step]
  exact continues rest

theorem bind_pure {bytes : Bytes} {value : α} {result : β} (reads : Reads read bytes value)
    (final : next value = Pure.pure result) : Reads (read >>= next) bytes result := by
  have last : Reads (next value) [] result := final ▸ Reads.pure result
  have step := reads.bind last
  rwa [List.append_nil] at step

theorem map {bytes : Bytes} {value : α} (reads : Reads read bytes value)
    (change : α → β) : Reads (change <$> read) bytes (change value) := by
  rw [map_eq_pure_bind]
  exact reads.bind_pure rfl

theorem split (taken : Bytes) :
    Reads (fun bytes => Bytes.split? taken.length bytes) taken taken :=
  fun rest => Bytes.split?_of_append taken rest

end Reads

end AbiBuild
