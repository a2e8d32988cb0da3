import AbiBuild.Text.Utf8

/-!
# Text survives UTF-8

The bounds that a lead octet sets on the octet after it let every encoded character pass.
-/

namespace AbiBuild.Text.Utf8

private theorem toNat_ofNat {value : Nat} (small : value < 256) :
    (UInt8.ofNat value).toNat = value := by
  rw [UInt8.toNat_ofNat', Nat.mod_eq_of_lt small]

private theorem ofNat_lt {value : Nat} (small : value < 256) (bound : UInt8) :
    UInt8.ofNat value < bound ↔ value < bound.toNat := by
  rw [UInt8.lt_iff_toNat_lt, toNat_ofNat small]

private theorem ofNat_eq {value : Nat} (small : value < 256) (octet : UInt8) :
    UInt8.ofNat value = octet ↔ value = octet.toNat := by
  rw [← UInt8.toNat_inj, toNat_ofNat small]

theorem decodeFrom_continue (decoded : List Char) (index taken owed value bits : Nat)
    (low high : UInt8) (rest : Bytes) (small : bits < 64) (above : low.toNat ≤ bits + 0x80)
    (below : bits + 0x80 ≤ high.toNat) :
    decodeFrom decoded index (some ⟨taken, owed, value, low, high⟩)
        (UInt8.ofNat (bits + 0x80) :: rest) =
      if owed = 1 then
        decodeFrom (Char.ofNat (value * 64 + bits) :: decoded) (index + taken + 1) none rest
      else
        decodeFrom decoded index
          (some ⟨taken + 1, owed - 1, value * 64 + bits, 0x80, 0xBF⟩) rest := by
  have octet : (UInt8.ofNat (bits + 0x80)).toNat = bits + 0x80 := toNat_ofNat (by omega)
  have within : (low ≤ UInt8.ofNat (bits + 0x80) && UInt8.ofNat (bits + 0x80) ≤ high) = true := by
    rw [Bool.and_eq_true, decide_eq_true_eq, decide_eq_true_eq, UInt8.le_iff_toNat_le,
      UInt8.le_iff_toNat_le, octet]
    exact ⟨above, below⟩
  have last : (bits + 0x80) % 64 = bits := by omega
  rw [decodeFrom, if_pos within, octet, last]

private theorem lead_ascii {value : Nat} (small : value < 0x80) :
    lead (UInt8.ofNat value) = .char (Char.ofNat value) := by
  have octet : value < 256 := by omega
  rw [lead, if_pos ((ofNat_lt octet 0x80).mpr small), toNat_ofNat octet]

private theorem lead_two {bits : Nat} (small : bits < 32) (notOverlong : 2 ≤ bits) :
    lead (UInt8.ofNat (bits + 0xC0)) = .opens ⟨1, 1, bits, 0x80, 0xBF⟩ := by
  have octet : bits + 0xC0 < 256 := by omega
  have last : (bits + 0xC0) % 32 = bits := by omega
  simp only [lead, ofNat_lt octet, toNat_ofNat octet, UInt8.reduceToNat, last]
  rw [if_neg (by omega), if_neg (by omega), if_pos (by omega)]

private theorem lead_three {bits : Nat} (small : bits < 16) :
    lead (UInt8.ofNat (bits + 0xE0)) = .opens ⟨1, 2, bits,
      if bits = 0 then 0xA0 else 0x80, if bits = 13 then 0x9F else 0xBF⟩ := by
  have octet : bits + 0xE0 < 256 := by omega
  have last : (bits + 0xE0) % 16 = bits := by omega
  simp only [lead, ofNat_lt octet, ofNat_eq octet, toNat_ofNat octet, UInt8.reduceToNat, last]
  rw [if_neg (by omega), if_neg (by omega), if_neg (by omega)]
  by_cases first : bits = 0
  · simp [first]
  · by_cases surrogate : bits = 13
    · simp [surrogate]
    · rw [if_neg (by omega), if_neg (by omega), if_pos (by omega), if_neg first,
        if_neg surrogate]

private theorem lead_four {bits : Nat} (small : bits ≤ 4) :
    lead (UInt8.ofNat (bits + 0xF0)) = .opens ⟨1, 3, bits,
      if bits = 0 then 0x90 else 0x80, if bits = 4 then 0x8F else 0xBF⟩ := by
  have octet : bits + 0xF0 < 256 := by omega
  have last : (bits + 0xF0) % 8 = bits := by omega
  simp only [lead, ofNat_lt octet, ofNat_eq octet, toNat_ofNat octet, UInt8.reduceToNat, last]
  rw [if_neg (by omega), if_neg (by omega), if_neg (by omega), if_neg (by omega),
    if_neg (by omega), if_neg (by omega)]
  by_cases first : bits = 0
  · simp [first]
  · by_cases final : bits = 4
    · simp [final]
    · rw [if_neg (by omega), if_pos (by omega), if_neg first, if_neg final]

private theorem decodeFrom_opens (decoded : List Char) (index : Nat) {octet : UInt8}
    {pending : Pending} (opens : lead octet = .opens pending) (rest : Bytes) :
    decodeFrom decoded index none (octet :: rest) = decodeFrom decoded index (some pending) rest := by
  rw [decodeFrom, opens]

private theorem toNat_bounds (char : Char) :
    char.toNat < 0x110000 ∧ ¬(0xD800 ≤ char.toNat ∧ char.toNat < 0xE000) := by
  have valid : char.toNat.isValidChar := char.valid
  rcases valid with below | ⟨above, last⟩
  · omega
  · omega

theorem decodeFrom_encodeChar (decoded : List Char) (index : Nat) (char : Char) (rest : Bytes) :
    ∃ next, decodeFrom decoded index none (String.utf8EncodeChar char ++ rest) =
      decodeFrom (char :: decoded) next none rest := by
  obtain ⟨inRange, noSurrogate⟩ := toNat_bounds char
  have same : Char.ofNat char.toNat = char := Char.ofNat_toNat char
  generalize hvalue : char.toNat = value at inRange noSurrogate same
  replace hvalue : char.val.toNat = value := hvalue
  unfold String.utf8EncodeChar
  simp only [hvalue]
  by_cases one : value ≤ 0x7f
  · refine ⟨index + 1, ?_⟩
    rw [if_pos one, List.singleton_append, decodeFrom, lead_ascii (by omega), same]
  · rw [if_neg one]
    by_cases two : value ≤ 0x7ff
    · have sum : value / 64 % 32 * 64 + value % 64 = value := by omega
      refine ⟨index + 1 + 1, ?_⟩
      rw [if_pos two, List.cons_append, List.singleton_append,
        decodeFrom_opens _ _ (lead_two (by omega) (by omega)),
        decodeFrom_continue _ _ _ _ _ _ _ _ _ (by omega) (by simp) (by simp; omega), if_pos rfl,
        sum, same]
    · rw [if_neg two]
      by_cases three : value ≤ 0xffff
      · have sum : (value / 4096 % 16 * 64 + value / 64 % 64) * 64 + value % 64 = value := by
          omega
        refine ⟨index + (1 + 1) + 1, ?_⟩
        rw [if_pos three, List.cons_append, List.cons_append, List.singleton_append,
          decodeFrom_opens _ _ (lead_three (by omega)),
          decodeFrom_continue _ _ _ _ _ _ _ _ _ (by omega) (by split <;> simp <;> omega)
            (by split <;> simp <;> omega), if_neg (by omega),
          decodeFrom_continue _ _ _ _ _ _ _ _ _ (by omega) (by simp) (by simp; omega), if_pos rfl,
          sum, same]
      · have sum : ((value / 262144 % 8 * 64 + value / 4096 % 64) * 64 + value / 64 % 64) * 64 +
            value % 64 = value := by omega
        refine ⟨index + (1 + 1 + 1) + 1, ?_⟩
        rw [if_neg three, List.cons_append, List.cons_append, List.cons_append,
          List.singleton_append, decodeFrom_opens _ _ (lead_four (by omega)),
          decodeFrom_continue _ _ _ _ _ _ _ _ _ (by omega) (by split <;> simp <;> omega)
            (by split <;> simp <;> omega), if_neg (by omega),
          decodeFrom_continue _ _ _ _ _ _ _ _ _ (by omega) (by simp) (by simp; omega),
          if_neg (by omega),
          decodeFrom_continue _ _ _ _ _ _ _ _ _ (by omega) (by simp) (by simp; omega), if_pos rfl,
          sum, same]

theorem decodeFrom_encodeChars (decoded : List Char) (index : Nat) (chars : List Char) :
    decodeFrom decoded index none (encodeChars chars) = .ok (decoded.reverse ++ chars) := by
  induction chars generalizing decoded index with
  | nil => simp [encodeChars, decodeFrom]
  | cons char chars ih =>
      obtain ⟨next, step⟩ := decodeFrom_encodeChar decoded index char (encodeChars chars)
      have split : encodeChars (char :: chars) =
          String.utf8EncodeChar char ++ encodeChars chars := List.flatMap_cons
      rw [split, step, ih, List.reverse_cons, List.append_assoc, List.singleton_append]

@[simp] theorem decode?_encode (text : String) : decode? (encode text) = some text := by
  have decoded : decode (encode text) = .ok text := by
    rw [decode, encode, decodeFrom_encodeChars]
    simp [Except.map]
  rw [decode?, decoded]

theorem encode_injective {left right : String} (same : encode left = encode right) :
    left = right := by
  have decoded := congrArg decode? same
  rw [decode?_encode, decode?_encode] at decoded
  exact Option.some.inj decoded

end AbiBuild.Text.Utf8
