import AbiBuild.Proofs.Reads
import AbiBuild.Zstandard.Frame

/-!
# Content survives compression

A written frame holds its content in raw blocks, none longer than the window that its header names.
-/

namespace AbiBuild.Zstandard

theorem octets_suffix (taken : Bytes) : Reads (octets taken.length) taken taken :=
  Reads.split taken

theorem number_suffix (bytes : Bytes) : Reads (number bytes.length) bytes bytes.toNatLE :=
  (octets_suffix bytes).map Bytes.toNatLE

private theorem blockHead_suffix (last : Bool) {size : Nat} (small : size ≤ blockLimit) :
    Reads (number 3) (blockHead last size) (8 * size + last.toNat) := by
  have reads := number_suffix (blockHead last size)
  have bound : last.toNat ≤ 1 := Bool.toNat_le last
  simp only [blockHead, Bytes.length_ofNatLE, Bytes.toNatLE_ofNatLE] at reads
  simp only [blockLimit] at small
  rwa [Nat.mod_eq_of_lt (by omega)] at reads

private theorem block_suffix (last : Bool) {content : Bytes} (small : content.length ≤ blockLimit)
    {fuel : Nat} {memory : Memory} (after : Bytes) {result : Bytes}
    (continues : Reads (if last then pure (memory.write content).written.reverse else
      blocks blockLimit fuel (memory.write content)) after result) :
    Reads (blocks blockLimit (fuel + 1) memory)
      (blockHead last content.length ++ (content ++ after)) result := by
  have bound : last.toNat ≤ 1 := Bool.toNat_le last
  have size : (8 * content.length + last.toNat) / 8 = content.length := by omega
  have kind : (8 * content.length + last.toNat) / 2 % 4 = 0 := by omega
  have final : (8 * content.length + last.toNat) % 2 = last.toNat := by omega
  refine (blockHead_suffix last small).bind ?_
  dsimp only
  rw [size, kind, final, if_neg (by omega)]
  refine ((octets_suffix content).map memory.write).bind ?_
  cases last with
  | false => exact continues
  | true => exact continues

private theorem reverse_written (memory : Memory) (content : Bytes) :
    (memory.write content).written.reverse = memory.written.reverse ++ content := by
  simp [Memory.write]

private theorem lastBlock_suffix {content : Bytes} (small : content.length ≤ blockLimit)
    (fuel : Nat) (memory : Memory) :
    Reads (blocks blockLimit (fuel + 1) memory) (blockHead true content.length ++ content)
      (memory.written.reverse ++ content) := by
  have reads : Reads (blocks blockLimit (fuel + 1) memory) _
      (memory.write content).written.reverse := block_suffix true small [] (Reads.pure _)
  rwa [List.append_nil, reverse_written] at reads

private theorem rawBlocks_suffix (count : Nat) (content : Bytes)
    (short : content.length ≤ (count + 1) * blockLimit) {fuel : Nat} (enough : count < fuel)
    (memory : Memory) :
    Reads (blocks blockLimit fuel memory) (rawBlocks count content)
      (memory.written.reverse ++ content) := by
  induction count generalizing content fuel memory with
  | zero =>
      obtain ⟨fuel, rfl⟩ : ∃ left, fuel = left + 1 := ⟨fuel - 1, by omega⟩
      exact lastBlock_suffix (by omega) fuel memory
  | succ count ih =>
      obtain ⟨fuel, rfl⟩ : ∃ left, fuel = left + 1 := ⟨fuel - 1, by omega⟩
      rw [rawBlocks]
      split
      next small => exact lastBlock_suffix small fuel memory
      next long =>
        have full : (content.take blockLimit).length = blockLimit := by
          rw [List.length_take]
          omega
        have left : (content.drop blockLimit).length ≤ (count + 1) * blockLimit := by
          rw [List.length_drop]
          rw [Nat.succ_mul] at short
          omega
        have rest := ih (content.drop blockLimit) left (by omega : count < fuel)
          (memory.write (content.take blockLimit))
        rw [reverse_written, List.append_assoc, List.take_append_drop] at rest
        have reads := block_suffix false (by omega) _ rest
        rwa [full, ← List.append_assoc] at reads

private theorem length_le_rawBlocks (count : Nat) (content : Bytes) :
    content.length ≤ (rawBlocks count content).length := by
  induction count generalizing content with
  | zero => simp [rawBlocks]
  | succ count ih =>
      rw [rawBlocks]
      split
      next => simp
      next =>
        have rest := ih (content.drop blockLimit)
        simp only [List.length_drop, List.length_append, List.length_take] at rest ⊢
        omega

theorem length_le_compress (content : Bytes) : content.length ≤ (compress content).length := by
  have blocks := length_le_rawBlocks (content.length / blockLimit) content
  rw [compress, List.length_append]
  omega

private theorem header_suffix : Reads header [0x00, 0x38] ⟨blockLimit, none, false⟩ := by
  change Reads header ([0x00] ++ ([0x38] ++ [])) _
  refine (number_suffix [0x00]).bind ?_
  refine Reads.bind (((number_suffix [0x38]).map windowOf).map some) ?_
  exact (number_suffix []).bind_pure rfl

private theorem frame_compress (content : Bytes) {fuel : Nat}
    (enough : content.length / blockLimit < fuel) :
    Reads (frame fuel) (compress content) content := by
  rw [compress, List.append_assoc]
  refine (number_suffix frameMagic).bind ?_
  dsimp only
  rw [if_neg (by decide), if_pos rfl]
  refine header_suffix.bind (Reads.bind_pure (rawBlocks_suffix _ content ?_ enough .start) ?_)
  · have division := Nat.div_add_mod content.length blockLimit
    have remainder := Nat.mod_lt content.length (show 0 < blockLimit by decide)
    rw [Nat.succ_mul, Nat.mul_comm]
    omega
  · rfl

theorem decompress?_compress (content : Bytes) : decompress? (compress content) = some content := by
  have long : content.length / blockLimit < (compress content).length := by
    have short := Nat.div_le_self content.length blockLimit
    have blocks := length_le_rawBlocks (content.length / blockLimit) content
    simp only [compress, frameMagic, List.length_append, List.length_cons, List.length_nil]
    omega
  have reads := frame_compress content long []
  rw [List.append_nil] at reads
  rw [decompress?, frames, reads]
  rfl

end AbiBuild.Zstandard
