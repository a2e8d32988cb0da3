import AbiBuild.MessagePack.Reader
import AbiBuild.MessagePack.Writer
import AbiBuild.Proofs.Collections
import AbiBuild.Proofs.Reads
import AbiBuild.Proofs.Text.Utf8

/-!
# Values survive MessagePack

Each written value is read back off the front of any octets, as long as its numbers and lengths have
a MessagePack form.
-/

namespace AbiBuild.MessagePack

/-! ## Octets and numbers -/

theorem octets_suffix (taken : Bytes) : Reads (octets taken.length) taken taken :=
  Reads.split taken

theorem number_suffix {width value : Nat} (small : value < 256 ^ width) :
    Reads (number width) (Bytes.ofNatBE width value) value := by
  have reads := octets_suffix (Bytes.ofNatBE width value)
  have length : (Bytes.ofNatBE width value).length = width := by simp [Bytes.ofNatBE]
  rw [length] at reads
  have mapped := reads.map Bytes.toNatBE
  rwa [Bytes.toNatBE_ofNatBE, Nat.mod_eq_of_lt small] at mapped

theorem octet_suffix (value : UInt8) : Reads (number 1) [value] value.toNat := by
  have reads := (octets_suffix [value]).map Bytes.toNatBE
  have alone : Bytes.toNatBE [value] = value.toNat := by simp [Bytes.toNatBE]
  rwa [alone] at reads

/-! ## Heads -/

private theorem smallHead_suffix (value : Nat) (small : value < 0xC0) :
    Reads head [UInt8.ofNat value] (smallHead value) := by
  have same : (UInt8.ofNat value).toNat = value := by
    rw [UInt8.toNat_ofNat', Nat.mod_eq_of_lt (by omega)]
  have reads := octet_suffix (UInt8.ofNat value)
  rw [same] at reads
  refine reads.bind_pure ?_
  split
  all_goals first | omega | rfl

theorem head_unsigned_suffix {value : Nat} (small : value < 2 ^ 64) :
    Reads head (encodeUnsigned value) (.unsigned value) := by
  unfold encodeUnsigned
  split
  next tiny =>
    have reads := smallHead_suffix value (by omega)
    rwa [smallHead, if_pos tiny] at reads
  next =>
    split
    next => exact (octet_suffix 0xCC).bind ((number_suffix (by omega)).map Head.unsigned)
    next =>
      split
      next => exact (octet_suffix 0xCD).bind ((number_suffix (by omega)).map Head.unsigned)
      next =>
        split
        next => exact (octet_suffix 0xCE).bind ((number_suffix (by omega)).map Head.unsigned)
        next => exact (octet_suffix 0xCF).bind ((number_suffix (by omega)).map Head.unsigned)

theorem head_array_suffix {size : Nat} (small : size < 2 ^ 32) :
    Reads head (encodeArrayHead size) (.array size) := by
  unfold encodeArrayHead
  split
  next tiny =>
    have reads := smallHead_suffix (0x90 + size) (by omega)
    rwa [smallHead, if_neg (by omega), if_neg (by omega), if_pos (by omega),
      Nat.add_sub_cancel_left] at reads
  next =>
    split
    next => exact (octet_suffix 0xDC).bind ((number_suffix (by omega)).map Head.array)
    next => exact (octet_suffix 0xDD).bind ((number_suffix (by omega)).map Head.array)

theorem head_map_suffix {size : Nat} (small : size < 2 ^ 32) :
    Reads head (encodeMapHead size) (.map size) := by
  unfold encodeMapHead
  split
  next tiny =>
    have reads := smallHead_suffix (0x80 + size) (by omega)
    rwa [smallHead, if_neg (by omega), if_pos (by omega),
      Nat.add_sub_cancel_left] at reads
  next =>
    split
    next => exact (octet_suffix 0xDE).bind ((number_suffix (by omega)).map Head.map)
    next => exact (octet_suffix 0xDF).bind ((number_suffix (by omega)).map Head.map)

theorem head_bool_suffix (value : Bool) : Reads head (encodeBool value) (.bool value) := by
  cases value with
  | false => exact (octet_suffix 0xC2).bind_pure rfl
  | true => exact (octet_suffix 0xC3).bind_pure rfl

theorem head_text_suffix {text : String} (small : (Text.Utf8.encode text).length < 2 ^ 32) :
    ∃ lengthHead, encodeText text = lengthHead ++ Text.Utf8.encode text ∧
      Reads head lengthHead (.text (Text.Utf8.encode text).length) := by
  refine ⟨_, rfl, ?_⟩
  split
  next tiny =>
    have reads := smallHead_suffix (0xA0 + (Text.Utf8.encode text).length) (by omega)
    rwa [smallHead, if_neg (by omega), if_neg (by omega), if_neg (by omega),
      if_pos (by omega), Nat.add_sub_cancel_left] at reads
  next =>
    split
    next => exact (octet_suffix 0xD9).bind ((number_suffix (by omega)).map Head.text)
    next =>
      split
      next => exact (octet_suffix 0xDA).bind ((number_suffix (by omega)).map Head.text)
      next => exact (octet_suffix 0xDB).bind ((number_suffix (by omega)).map Head.text)

theorem head_binary_suffix {octets : Bytes} (small : octets.length < 2 ^ 32) :
    ∃ lengthHead, encodeBinary octets = lengthHead ++ octets ∧
      Reads head lengthHead (.binary octets.length) := by
  refine ⟨_, rfl, ?_⟩
  split
  next => exact (octet_suffix 0xC4).bind ((number_suffix (by omega)).map Head.binary)
  next =>
    split
    next => exact (octet_suffix 0xC5).bind ((number_suffix (by omega)).map Head.binary)
    next => exact (octet_suffix 0xC6).bind ((number_suffix (by omega)).map Head.binary)

/-! ## Single values -/

theorem unsigned_suffix {bits value : Nat} (small : value < 2 ^ bits) (bounded : value < 2 ^ 64) :
    Reads (unsigned bits) (encodeUnsigned value) value := by
  refine (head_unsigned_suffix bounded).bind_pure ?_
  change (if value < 2 ^ bits then pure value else failure : Reader Nat) = pure value
  rw [if_pos small]

theorem bool_suffix (value : Bool) : Reads bool (encodeBool value) value :=
  (head_bool_suffix value).bind_pure rfl

theorem text_suffix {value : String} (small : (Text.Utf8.encode value).length < 2 ^ 32) :
    Reads text (encodeText value) value := by
  obtain ⟨lengthHead, written, reads⟩ := head_text_suffix small
  rw [written]
  refine reads.bind ((octets_suffix _).bind_pure ?_)
  rw [Text.Utf8.decode?_encode]

theorem binary_suffix {value : Bytes} (small : value.length < 2 ^ 32) :
    Reads binary (encodeBinary value) value := by
  obtain ⟨lengthHead, written, reads⟩ := head_binary_suffix small
  rw [written]
  exact reads.bind (octets_suffix value)

theorem choice_suffix {names : List String} {name : String} {index : Nat}
    (small : (Text.Utf8.encode name).length < 2 ^ 32)
    (found : names.findIdx? (fun other => Text.Utf8.encode other = Text.Utf8.encode name) =
      some index) :
    Reads (choice names) (encodeText name) index := by
  obtain ⟨lengthHead, written, reads⟩ := head_text_suffix small
  have chosen : Reads (position names) (encodeText name) (some index) := by
    rw [written]
    refine reads.bind ((octets_suffix _).bind_pure ?_)
    rw [found]
  intro rest
  have first : head (encodeText name ++ rest) = some (.text (Text.Utf8.encode name).length,
      Text.Utf8.encode name ++ rest) := by
    rw [written, List.append_assoc]
    exact reads _
  rw [choice, first]
  simp only [Option.bind_eq_bind, Option.bind_some]
  refine Reads.bind_pure chosen ?_ rest
  rfl

/-! ## Values of many parts -/

theorem times_suffix {α : Type} {read : Reader α} {encode : α → Bytes} {values : List α}
    (each : ∀ value ∈ values, Reads read (encode value) value) :
    Reads (times read values.length) (values.flatMap encode) values := by
  induction values with
  | nil => exact Reads.pure []
  | cons value values ih =>
      rw [List.forall_mem_cons] at each
      rw [List.flatMap_cons]
      exact each.1.bind ((ih each.2).bind_pure rfl)

theorem list_suffix {α : Type} {read : Reader α} {encode : α → Bytes} {values : List α}
    (small : values.length < 2 ^ 32) (each : ∀ value ∈ values, Reads read (encode value) value) :
    Reads (list read) (encodeList encode values) values :=
  (head_array_suffix small).bind (times_suffix each)

theorem pairs_suffix {α β : Type} {readKey : Reader α} {readValue : Reader β}
    {encodeKey : α → Bytes} {encodeValue : β → Bytes} {values : List (α × β)}
    (small : values.length < 2 ^ 32)
    (keys : ∀ value ∈ values, Reads readKey (encodeKey value.1) value.1)
    (contents : ∀ value ∈ values, Reads readValue (encodeValue value.2) value.2) :
    Reads (pairs readKey readValue) (encodePairs encodeKey encodeValue values) values := by
  refine (head_map_suffix small).bind (times_suffix ?_)
  rintro ⟨key, content⟩ member
  exact (keys _ member).bind ((contents _ member).bind_pure rfl)

theorem recordOf_suffix {α : Type} {depth : Nat} (names : List String) {start : α} (final : α)
    {readField : Nat → α → Reader α} {fields : Bytes} (small : names.length < 2 ^ 32)
    (reads : Reads ((List.range names.length).foldlM (fun record index => readField index record)
      start) fields final) :
    Reads (recordOf depth names start readField) (encodeArrayHead names.length ++ fields) final := by
  refine (head_array_suffix small).bind ?_
  dsimp only
  rwa [if_pos rfl]

/-! ## Lengths -/

theorem length_lt_encodeText (text : String) :
    (Text.Utf8.encode text).length < (encodeText text).length := by
  unfold encodeText
  dsimp only
  rw [List.length_append, Nat.lt_add_left_iff_pos, List.length_pos_iff]
  split
  · simp
  · split
    · simp
    · split <;> simp

theorem length_le_encodeBinary (octets : Bytes) : octets.length ≤ (encodeBinary octets).length := by
  simp [encodeBinary]

theorem encodeArrayHead_pos (size : Nat) : 0 < (encodeArrayHead size).length := by
  unfold encodeArrayHead
  split
  · simp
  · split <;> simp

end AbiBuild.MessagePack
