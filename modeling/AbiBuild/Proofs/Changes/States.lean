import AbiBuild.Proofs.Changes.Sources
import AbiBuild.Proofs.MessagePack.RoundTrip

/-!
# How sources stand to the last good build

Digests are read back as they were stored.  As long as different contents have different digests,
comparing these tells how each source stands between two trees.
-/

namespace AbiBuild.Changes

open Files MessagePack

/-! ## Digests -/

theorem getElem?_digestsOf {contents : List (String × Bytes)}
    (distinct : contents.Pairwise fun first second => first.1 ≠ second.1) (text : String)
    (digest : UInt64) : (digestsOf contents)[text]? = some digest ↔
      ∃ content, (text, content) ∈ contents ∧ Digest.Xxh3.digest content = digest := by
  rw [digestsOf, getElem?_ofList]
  · simp
  · rwa [List.pairwise_map]

theorem digestReader_suffix (digest : UInt64) :
    Reads digestReader (encodeDigest digest) digest := by
  have number : Reads (unsigned 64) (encodeDigest digest) digest.toNat :=
    unsigned_suffix digest.toNat_lt digest.toNat_lt
  have reads := number.map UInt64.ofNat
  rwa [UInt64.ofNat_toNat] at reads

/-- The stored form has room for the digests: their number and each path are below what it can
count. -/
def Storable (digests : SourceDigests) : Prop :=
  digests.toList.length < 2 ^ 32 ∧
    ∀ entry ∈ digests.toList, (Text.Utf8.encode entry.1).length < 2 ^ 32

theorem decodeState_of_storable {digests : SourceDigests} (storable : Storable digests) :
    decodeState digestsReader (encodeDigests digests) = some digests := by
  have reads : Reads digestsReader (encodeDigests digests) digests := by
    have each : Reads (pairs text digestReader) (encodeDigests digests) digests.toList :=
      pairs_suffix storable.1 (fun entry listed => text_suffix (storable.2 entry listed))
        fun entry _ => digestReader_suffix entry.2
    have whole := each.map (Std.ExtTreeMap.ofList · compare)
    rwa [ofList_toList] at whole
  have read := reads []
  rw [List.append_nil] at read
  rw [decodeState, read]
  rfl

theorem decodeState_encodeDigests {digests : SourceDigests}
    (short : (encodeDigests digests).length < 2 ^ 32) :
    decodeState digestsReader (encodeDigests digests) = some digests := by
  let octets := fun entry : String × UInt64 => encodeText entry.1 ++ encodeDigest entry.2
  have written : encodeDigests digests =
      encodeMapHead digests.toList.length ++ digests.toList.flatMap octets := rfl
  have entries := length_le_flatMap_of_pos octets digests.toList (by
    intro entry _
    have text := length_lt_encodeText entry.1
    rw [List.length_append]
    omega)
  rw [written, List.length_append] at short
  refine decodeState_of_storable ⟨by omega, fun entry listed => ?_⟩
  have part := length_le_flatMap octets listed
  have longer := length_lt_encodeText entry.1
  rw [List.length_append] at part
  omega

/-! ## States -/

variable {previous current : SourceDigests}

def stateNow (previous : SourceDigests) (entry : String × UInt64) : SourceState :=
  match previous[entry.1]? with
  | none => .added
  | some before => if before = entry.2 then .notChanged else .changed

def stateFor (previous current : SourceDigests) (text : String) : Option SourceState :=
  match current[text]? with
  | some digest => some (stateNow previous (text, digest))
  | none => if text ∈ previous then some .removed else none

theorem statesBetween_eq (previous current : SourceDigests) :
    statesBetween previous current =
      ((previous.toList.filter (·.1 ∉ current)).map fun entry =>
          (Files.Path.mk entry.1, SourceState.removed)).foldl
        (fun states (path, state) => states.put path state)
        ((current.toList.map fun entry => (Files.Path.mk entry.1, stateNow previous entry)).foldl
          (fun states (path, state) => states.put path state) ∅) := by
  have gone : ∀ (entries : List (String × UInt64)) (seen : PathMap SourceState),
      entries.foldl (fun (states : PathMap SourceState) entry =>
          if current.contains entry.1 then states
          else PathMap.put states ⟨entry.1⟩ .removed) seen =
        ((entries.filter (·.1 ∉ current)).map fun entry =>
          (Files.Path.mk entry.1, SourceState.removed)).foldl
            (fun states (path, state) => states.put path state) seen := by
    intro entries
    induction entries with
    | nil => exact fun _ => rfl
    | cons entry entries ih =>
        intro seen
        obtain ⟨path, digest⟩ := entry
        rw [List.foldl_cons, ih]
        by_cases there : path ∈ current
        · simp [there]
        · simp [there]
  rw [statesBetween, gone]
  congr 1
  rw [List.foldl_map]
  rfl

theorem mem_toList_iff {digests : SourceDigests} {text : String} :
    text ∈ digests ↔ ∃ digest, (text, digest) ∈ digests.toList := by
  simp only [Std.ExtTreeMap.mem_toList_iff_getElem?_eq_some]
  rw [Std.ExtTreeMap.mem_iff_isSome_getElem?, Option.isSome_iff_exists]

def Located (known : String → Prop) : Prop :=
  ∀ first second, known first → known second → first ≠ second →
    (Files.Path.mk first).location ≠ (Files.Path.mk second).location

theorem located_of_plain {known : String → Prop} (plain : ∀ text, known text → Path.Plain ⟨text⟩) :
    Located known := fun first second hfirst hsecond different same =>
  different (congrArg Path.text ((plain first hfirst).eq_of_location (plain second hsecond) same))

theorem pairwise_toList (digests : SourceDigests) :
    digests.toList.Pairwise fun first second => first.1 ≠ second.1 :=
  Std.ExtTreeMap.distinct_keys_toList.imp fun different => by
    rwa [Std.LawfulEqCmp.compare_eq_iff_eq] at different

theorem mem_of_mem_toList {digests : SourceDigests} {entry : String × UInt64}
    (listed : entry ∈ digests.toList) : entry.1 ∈ digests :=
  mem_toList_iff.mpr ⟨_, listed⟩

def statesNow (previous current : SourceDigests) : PathMap SourceState :=
  (current.toList.map fun entry => (Files.Path.mk entry.1, stateNow previous entry)).foldl
    (fun states (path, state) => states.put path state) ∅

section Located

variable (locations : Located fun text => text ∈ previous ∨ text ∈ current)
include locations

theorem mem_statesNow (entry : Path × SourceState) :
    entry ∈ (statesNow previous current).toList ↔
      entry ∈ current.toList.map fun entry => (Files.Path.mk entry.1, stateNow previous entry) := by
  rw [statesNow, PathMap.mem_toList_foldl_put]
  · rw [or_iff_left]
    intro listed
    have found := Std.ExtTreeMap.mem_toList_iff_getKey?_eq_some_and_getElem?_eq_some.mp listed
    simp at found
  · rw [List.pairwise_map]
    exact (pairwise_toList current).imp_of_mem fun hfirst hsecond =>
      locations _ _ (.inr (mem_of_mem_toList hfirst)) (.inr (mem_of_mem_toList hsecond))
  · simp

theorem not_mem_statesNow {entry : String × UInt64} (listed : entry ∈ previous.toList)
    (gone : entry.1 ∉ current) : Files.Path.mk entry.1 ∉ statesNow previous current := by
  intro member
  rw [Std.ExtTreeMap.mem_iff_isSome_getElem?, Option.isSome_iff_exists] at member
  obtain ⟨state, found⟩ := member
  obtain ⟨other, there, here⟩ := (PathMap.getElem?_eq_some_iff ..).mp found
  obtain ⟨now, listedNow, same⟩ := List.mem_map.mp ((mem_statesNow locations _).mp there)
  obtain ⟨rfl, -⟩ := Prod.mk.inj same
  refine locations now.1 entry.1 (.inr (mem_of_mem_toList listedNow))
    (.inl (mem_of_mem_toList listed)) ?_ here
  intro equal
  exact gone (equal ▸ mem_of_mem_toList listedNow)

theorem mem_statesBetween_of_located (path : Path) (state : SourceState) :
    (path, state) ∈ (statesBetween previous current).toList ↔
      stateFor previous current path.text = some state := by
  rw [statesBetween_eq, ← statesNow, PathMap.mem_toList_foldl_put, mem_statesNow locations]
  · simp only [List.mem_map, List.mem_filter, decide_eq_true_eq, Prod.mk.injEq, stateFor]
    cases now : current[path.text]? with
    | some digest =>
        rw [Option.some.injEq]
        constructor
        · rintro (⟨entry, ⟨-, absent⟩, rfl, rfl⟩ | ⟨entry, listed, rfl, rfl⟩)
          · exact absurd now (by simp [absent])
          · rw [Std.ExtTreeMap.mem_toList_iff_getElem?_eq_some] at listed
            rw [listed] at now
            rw [← Option.some.inj now]
        · rintro rfl
          exact .inr ⟨(path.text, digest), Std.ExtTreeMap.mem_toList_iff_getElem?_eq_some.mpr now,
            rfl, rfl⟩
    | none =>
        have absent : path.text ∉ current := by simpa using now
        rw [Option.ite_none_right_eq_some, Option.some.injEq, mem_toList_iff]
        constructor
        · rintro (⟨⟨text, digest⟩, ⟨listed, -⟩, rfl, rfl⟩ | ⟨entry, listed, rfl, -⟩)
          · exact ⟨⟨digest, listed⟩, rfl⟩
          · exact absurd (mem_of_mem_toList listed) absent
        · rintro ⟨⟨digest, listed⟩, rfl⟩
          exact .inl ⟨(path.text, digest), ⟨listed, absent⟩, rfl, rfl⟩
  · rw [List.pairwise_map]
    refine ((pairwise_toList previous).filter _).imp_of_mem fun hfirst hsecond => ?_
    exact locations _ _ (.inl (mem_of_mem_toList (List.mem_of_mem_filter hfirst)))
      (.inl (mem_of_mem_toList (List.mem_of_mem_filter hsecond)))
  · rintro _ listed
    obtain ⟨entry, kept, rfl⟩ := List.mem_map.mp listed
    rw [List.mem_filter, decide_eq_true_eq] at kept
    exact not_mem_statesNow locations kept.1 kept.2

end Located

theorem mem_statesBetween
    (plain : ∀ text, text ∈ previous ∨ text ∈ current → Path.Plain ⟨text⟩) (path : Path)
    (state : SourceState) : (path, state) ∈ (statesBetween previous current).toList ↔
      stateFor previous current path.text = some state :=
  mem_statesBetween_of_located (located_of_plain plain) path state

/-! ## Contents -/

inductive StandsBetween (before now : List (String × Bytes)) (text : String) : SourceState → Prop
  | added {content : Bytes} (fresh : ∀ old, (text, old) ∉ before)
      (present : (text, content) ∈ now) : StandsBetween before now text .added
  | removed {content : Bytes} (known : (text, content) ∈ before)
      (gone : ∀ new, (text, new) ∉ now) : StandsBetween before now text .removed
  | changed {old new : Bytes} (known : (text, old) ∈ before) (present : (text, new) ∈ now)
      (different : old ≠ new) : StandsBetween before now text .changed
  | notChanged {content : Bytes} (known : (text, content) ∈ before)
      (present : (text, content) ∈ now) : StandsBetween before now text .notChanged

theorem mem_digestsOf {contents : List (String × Bytes)} {text : String} :
    text ∈ digestsOf contents ↔ ∃ content, (text, content) ∈ contents := by
  rw [digestsOf, Std.ExtTreeMap.mem_ofList, List.map_map, List.contains_iff_mem, List.mem_map]
  constructor
  · rintro ⟨⟨_, content⟩, listed, rfl⟩
    exact ⟨content, listed⟩
  · rintro ⟨content, listed⟩
    exact ⟨_, listed, rfl⟩

theorem eq_of_mem_contents {contents : List (String × Bytes)}
    (distinct : contents.Pairwise fun first second => first.1 ≠ second.1) {text : String}
    {first second : Bytes} (hfirst : (text, first) ∈ contents)
    (hsecond : (text, second) ∈ contents) : first = second := by
  have found := (getElem?_ofList distinct text first).mpr hfirst
  rw [(getElem?_ofList distinct text second).mpr hsecond] at found
  exact (Option.some.inj found).symm

section Contents

variable {before now : List (String × Bytes)}
  (distinctBefore : before.Pairwise fun first second => first.1 ≠ second.1)
  (distinctNow : now.Pairwise fun first second => first.1 ≠ second.1)
  (apart : ∀ text old new, (text, old) ∈ before → (text, new) ∈ now →
    Digest.Xxh3.digest old = Digest.Xxh3.digest new → old = new)

theorem not_mem_digestsOf {contents : List (String × Bytes)} {text : String} :
    text ∉ digestsOf contents ↔ ∀ content, (text, content) ∉ contents := by
  rw [mem_digestsOf, not_exists]

include distinctBefore distinctNow apart

theorem stateNow_digestsOf {text : String} {content : Bytes} (present : (text, content) ∈ now)
    (state : SourceState) :
    stateNow (digestsOf before) (text, Digest.Xxh3.digest content) = state ↔
      StandsBetween before now text state := by
  rw [stateNow]
  cases hbefore : (digestsOf before)[text]? with
  | none =>
      have fresh := not_mem_digestsOf.mp (by simpa using hbefore)
      constructor
      · rintro rfl
        exact .added fresh present
      · rintro (⟨-, -⟩ | ⟨listed, -⟩ | ⟨listed, -, -⟩ | ⟨listed, -⟩)
        · rfl
        · exact absurd listed (fresh _)
        · exact absurd listed (fresh _)
        · exact absurd listed (fresh _)
  | some digest =>
      obtain ⟨old, listed, rfl⟩ := (getElem?_digestsOf distinctBefore _ _).mp hbefore
      dsimp only
      split
      next same =>
        obtain rfl := apart _ _ _ listed present same
        constructor
        · rintro rfl
          exact .notChanged listed present
        · rintro (⟨fresh, -⟩ | ⟨-, gone⟩ | ⟨known, there, different⟩ | ⟨-, -⟩)
          · exact absurd listed (fresh _)
          · exact absurd present (gone _)
          · rw [eq_of_mem_contents distinctBefore known listed,
              eq_of_mem_contents distinctNow there present] at different
            exact absurd rfl different
          · rfl
      next different =>
        constructor
        · rintro rfl
          exact .changed listed present fun same => different (by rw [same])
        · rintro (⟨fresh, -⟩ | ⟨-, gone⟩ | ⟨-, -, -⟩ | ⟨known, there⟩)
          · exact absurd listed (fresh _)
          · exact absurd present (gone _)
          · rfl
          · rw [eq_of_mem_contents distinctBefore listed known,
              eq_of_mem_contents distinctNow present there] at different
            exact absurd rfl different

theorem stateFor_digestsOf (text : String) (state : SourceState) :
    stateFor (digestsOf before) (digestsOf now) text = some state ↔
      StandsBetween before now text state := by
  rw [stateFor]
  cases hnow : (digestsOf now)[text]? with
  | none =>
      have missing := not_mem_digestsOf.mp (by simpa using hnow)
      rw [Option.ite_none_right_eq_some, Option.some.injEq, mem_digestsOf]
      constructor
      · rintro ⟨⟨content, listed⟩, rfl⟩
        exact .removed listed missing
      · rintro (⟨fresh, present⟩ | ⟨listed, -⟩ | ⟨listed, present, -⟩ | ⟨listed, present⟩)
        · exact absurd present (missing _)
        · exact ⟨⟨_, listed⟩, rfl⟩
        · exact absurd present (missing _)
        · exact absurd present (missing _)
  | some digest =>
      obtain ⟨content, present, rfl⟩ := (getElem?_digestsOf distinctNow _ _).mp hnow
      rw [Option.some.injEq]
      exact stateNow_digestsOf distinctBefore distinctNow apart present state

end Contents

theorem mem_statesBetween_digestsOf_of_located {before now : List (String × Bytes)}
    (distinctBefore : before.Pairwise fun first second => first.1 ≠ second.1)
    (distinctNow : now.Pairwise fun first second => first.1 ≠ second.1)
    (located : Located fun text => ∃ content, (text, content) ∈ before ∨ (text, content) ∈ now)
    (apart : ∀ text old new, (text, old) ∈ before → (text, new) ∈ now →
      Digest.Xxh3.digest old = Digest.Xxh3.digest new → old = new)
    (path : Path) (state : SourceState) :
    (path, state) ∈ (statesBetween (digestsOf before) (digestsOf now)).toList ↔
      StandsBetween before now path.text state := by
  have locations : Located fun text => text ∈ digestsOf before ∨ text ∈ digestsOf now := by
    simpa only [mem_digestsOf, exists_or] using located
  rw [mem_statesBetween_of_located locations]
  exact stateFor_digestsOf distinctBefore distinctNow apart path.text state

theorem mem_statesBetween_digestsOf {before now : List (String × Bytes)}
    (distinctBefore : before.Pairwise fun first second => first.1 ≠ second.1)
    (distinctNow : now.Pairwise fun first second => first.1 ≠ second.1)
    (plain : ∀ source, source ∈ before ∨ source ∈ now → Path.Plain ⟨source.1⟩)
    (apart : ∀ text old new, (text, old) ∈ before → (text, new) ∈ now →
      Digest.Xxh3.digest old = Digest.Xxh3.digest new → old = new)
    (path : Path) (state : SourceState) :
    (path, state) ∈ (statesBetween (digestsOf before) (digestsOf now)).toList ↔
      StandsBetween before now path.text state :=
  mem_statesBetween_digestsOf_of_located distinctBefore distinctNow
    (located_of_plain fun _ ⟨_, listed⟩ => plain _ listed) apart path state

end AbiBuild.Changes
