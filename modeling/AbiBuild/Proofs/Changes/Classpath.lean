import AbiBuild.Proofs.Changes.Detector
import AbiBuild.Proofs.Files.Pruning
import AbiBuild.Proofs.Files.Reading
import Mathlib.Data.List.Forall2

/-!
# What the octets of a class path tell

The octets that are digested for a class path are those of its records: one for each entry, and one for
each file below an entry.  Nothing stands between them.  So two class paths with the same octets are the
same, unless the records of one end inside those of the other.
-/

namespace AbiBuild.Changes

open Files FileSystem

/-! ## Records -/

inductive RecordKind
  /-- An entry that is a directory. -/
  | directory
  /-- An entry that is a file. -/
  | file
  /-- A file below an entry. -/
  | below
  deriving DecidableEq, Repr

structure Record where
  kind : RecordKind
  text : String
  content : Bytes
  deriving DecidableEq, Repr

namespace Record

def octets (record : Record) : Bytes := Text.Utf8.encode record.text ++ record.content

def ofWalked? (entry : Path × Entry) : Option Record :=
  match entry with
  | (path, .file content) => some ⟨.below, path.text, content⟩
  | (_, .directory) => none

theorem streamOfFile_eq (entry : Path × Entry) :
    streamOfFile entry = (ofWalked? entry).toList.flatMap octets := by
  rcases entry with ⟨path, content | _⟩
  · simp [streamOfFile, ofWalked?, octets]
  · rfl

end Record

def recordsOfEntry (files : FileSystem) (entry : Path) : List Record :=
  if files.isDirectory entry then
    ⟨.directory, entry.text, []⟩ ::
      ((files.walk (fun _ => true) entry).toOption.getD []).filterMap Record.ofWalked?
  else [⟨.file, entry.text, (files.read entry).toOption.getD []⟩]

def records (files : FileSystem) (classpath : List Path) : List Record :=
  classpath.flatMap (recordsOfEntry files)

def octetsOf (files : FileSystem) (classpath : List Path) : Bytes :=
  (records files classpath).flatMap Record.octets

section Octets

variable {files : FileSystem} {entry : Path}

/-- A class path entry that is there and can be read: a directory with all that is below it, or a file
with something in it. -/
def OnClasspath (files : FileSystem) (entry : Path) : Prop :=
  (files.isDirectory entry ∧ ∃ found, files.walk (fun _ => true) entry = .ok found) ∨
    ∃ content, files.read entry = .ok content ∧ content ≠ []

instance (files : FileSystem) (entry : Path) : Decidable (OnClasspath files entry) :=
  decidable_of_iff (files.isDirectory entry ∧ (files.walk (fun _ => true) entry).isOk ∨
      (files.read entry).toOption.any (· ≠ [])) <| by
    rw [OnClasspath]
    cases files.walk (fun _ => true) entry <;> cases files.read entry <;>
      simp [Except.isOk, Except.toBool, Except.toOption]

theorem OnClasspath.exists_walk (present : OnClasspath files entry)
    (isDirectory : files.isDirectory entry) :
    ∃ place, files.placeOf entry = .ok place ∧ files.entryAt? place = some .directory ∧
      files.walk (fun _ => true) entry = .ok ((([], .directory) :: files.below place).map
        fun reached => (reached.1.foldl Path.join entry, reached.2)) := by
  obtain ⟨place, leads, found⟩ := isDirectory_iff_entryAt?.mp isDirectory
  rcases present with ⟨-, walked, walks⟩ | ⟨content, reads, -⟩
  · obtain ⟨place', top, leads', here, -, rfl⟩ := walk_eq_ok_iff.mp walks
    obtain rfl := Except.ok.inj (leads.symm.trans leads')
    obtain rfl := Option.some.inj (found.symm.trans here)
    exact ⟨place, leads, found, walks⟩
  · obtain ⟨place', leads', here, -⟩ := read_eq_ok_iff_entryAt?.mp reads
    obtain rfl := Except.ok.inj (leads.symm.trans leads')
    cases found.symm.trans here

theorem OnClasspath.exists_read (present : OnClasspath files entry)
    (noDirectory : ¬files.isDirectory entry) : ∃ content, files.read entry = .ok content := by
  obtain ⟨content, reads, -⟩ := present.resolve_left fun walks => noDirectory walks.1
  exact ⟨content, reads⟩

theorem OnClasspath.exists_recordsOfEntry (present : OnClasspath files entry)
    (isDirectory : files.isDirectory entry) :
    ∃ place, files.placeOf entry = .ok place ∧ files.entryAt? place = some .directory ∧
      recordsOfEntry files entry = ⟨.directory, entry.text, []⟩ ::
        ((files.below place).map fun reached =>
          (reached.1.foldl Path.join entry, reached.2)).filterMap Record.ofWalked? := by
  obtain ⟨place, leads, found, walks⟩ := present.exists_walk isDirectory
  refine ⟨place, leads, found, ?_⟩
  rw [recordsOfEntry, if_pos isDirectory, walks]
  rfl

theorem flatMap_streamOfFile (found : List (Path × Entry)) :
    found.flatMap streamOfFile = (found.filterMap Record.ofWalked?).flatMap Record.octets := by
  induction found with
  | nil => rfl
  | cons entry found ih =>
      rw [List.flatMap_cons, ih, Record.streamOfFile_eq, List.filterMap_cons]
      cases Record.ofWalked? entry <;> simp

theorem streamOfEntry_eq (present : OnClasspath files entry) :
    streamOfEntry files entry = .ok ((recordsOfEntry files entry).flatMap Record.octets) := by
  by_cases isDirectory : files.isDirectory entry
  · obtain ⟨place, -, -, walks⟩ := present.exists_walk isDirectory
    rw [streamOfEntry, recordsOfEntry, if_pos isDirectory, if_pos isDirectory, walks,
      List.flatMap_cons, ← flatMap_streamOfFile]
    simp [Functor.map, Except.map, ok_bind, pure, Except.pure, Record.octets, Except.toOption]
  · obtain ⟨content, reads⟩ := present.exists_read isDirectory
    rw [streamOfEntry, if_neg isDirectory, recordsOfEntry, if_neg isDirectory,
      if_pos (isFile_of_read reads), reads]
    simp [ok_bind, pure, Except.pure, Record.octets, Except.toOption]

theorem classpathStream_eq {classpath : List Path}
    (present : ∀ entry ∈ classpath, OnClasspath files entry) :
    classpathStream files classpath = .ok (octetsOf files classpath) := by
  induction classpath with
  | nil =>
      rw [classpathStream, List.flatMapM_nil]
      rfl
  | cons entry classpath ih =>
      rw [List.forall_mem_cons] at present
      rw [classpathStream] at ih ⊢
      rw [List.flatMapM_cons, ih present.2, streamOfEntry_eq present.1]
      simp [ok_bind, pure, Except.pure, octetsOf, records]

end Octets

/-! ## Octets with two readings -/

def Grows : List Record → List Record → Prop :=
  List.SublistForall₂ fun less more => less.kind = more.kind ∧
    (Text.Utf8.encode less.text).length ≤ (Text.Utf8.encode more.text).length ∧
      less.content.length ≤ more.content.length

/-- The first record in which the two differ ends inside the other one, and not all that is different
is longer or more in the same one of the two. -/
structure Ambiguous (first second : List Record) : Prop where
  differ : ∃ front record other rest rest', first = front ++ record :: rest ∧
    second = front ++ other :: rest' ∧ record ≠ other ∧
      (record.octets <+: other.octets ∨ other.octets <+: record.octets)
  not_grows : ¬Grows first second
  not_shrinks : ¬Grows second first

section Separation

variable {first second : List Record}

/-- A record that says where it comes from. -/
def Record.Named (record : Record) : Prop := record.text ≠ ""

theorem Record.Named.octets_ne_nil {record : Record} (named : record.Named) :
    record.octets ≠ [] := by
  intro empty
  rw [octets, List.append_eq_nil_iff] at empty
  exact named (Text.Utf8.encode_injective (empty.1.trans rfl))

theorem Grows.length_le (grows : Grows first second) :
    (first.flatMap Record.octets).length ≤ (second.flatMap Record.octets).length := by
  induction grows with
  | nil => simp
  | cons pair rest ih =>
      simp only [List.flatMap_cons, List.length_append, Record.octets]
      omega
  | cons_right rest ih =>
      simp only [List.flatMap_cons, List.length_append]
      omega

theorem Grows.eq_of_octets (grows : Grows first second) (named : ∀ record ∈ second, record.Named)
    (same : first.flatMap Record.octets = second.flatMap Record.octets) : first = second := by
  induction grows with
  | @nil second =>
      cases second with
      | nil => rfl
      | cons record second =>
          have empty := (List.append_eq_nil_iff.mp same.symm).1
          exact absurd empty (named record (.head _)).octets_ne_nil
  | @cons less more first second pair rest ih =>
      have longer := Grows.length_le rest
      have lengths := congrArg List.length same
      simp only [List.flatMap_cons, List.length_append, Record.octets] at lengths
      obtain ⟨kind, text, content⟩ := pair
      obtain ⟨here, later⟩ := List.append_inj same
        (by simp only [Record.octets, List.length_append]; omega)
      obtain ⟨sameText, sameContent⟩ := List.append_inj here (by omega)
      have head : less = more := by
        rcases less with ⟨_, _, _⟩
        rcases more with ⟨_, _, _⟩
        dsimp only at kind sameText sameContent
        rw [kind, sameContent, Text.Utf8.encode_injective sameText]
      rw [head, ih (fun record member => named record (.tail _ member)) later]
  | @cons_right record first second rest ih =>
      have longer := Grows.length_le rest
      have lengths := congrArg List.length same
      have positive := List.length_pos_iff.mpr (named record (.head _)).octets_ne_nil
      simp only [List.flatMap_cons, List.length_append] at lengths
      omega

theorem exists_first_difference (named : ∀ record ∈ first, record.Named)
    (named' : ∀ record ∈ second, record.Named)
    (same : first.flatMap Record.octets = second.flatMap Record.octets) (different : first ≠ second) :
    ∃ front record other rest rest', first = front ++ record :: rest ∧
      second = front ++ other :: rest' ∧ record ≠ other ∧
        (record.octets <+: other.octets ∨ other.octets <+: record.octets) := by
  induction first generalizing second with
  | nil =>
      cases second with
      | nil => exact absurd rfl different
      | cons other second =>
          have empty := (List.append_eq_nil_iff.mp same.symm).1
          exact absurd empty (named' other (.head _)).octets_ne_nil
  | cons record first ih =>
      cases second with
      | nil =>
          have empty := (List.append_eq_nil_iff.mp same).1
          exact absurd empty (named record (.head _)).octets_ne_nil
      | cons other second =>
          rw [List.flatMap_cons, List.flatMap_cons] at same
          by_cases head : record = other
          · subst head
            rw [List.append_cancel_left_eq] at same
            obtain ⟨front, left, right, rest, rest', hfirst, hsecond, apart, inside⟩ :=
              ih (fun record member => named record (.tail _ member))
                (fun record member => named' record (.tail _ member)) same
                fun equal => different (by rw [equal])
            exact ⟨record :: front, left, right, rest, rest', by rw [hfirst]; rfl,
              by rw [hsecond]; rfl, apart, inside⟩
          · refine ⟨[], record, other, first, second, rfl, rfl, head, ?_⟩
            have inside : record.octets <+: other.octets ++ second.flatMap Record.octets :=
              ⟨_, same⟩
            exact List.prefix_or_prefix_of_prefix inside (List.prefix_append _ _)

theorem eq_or_ambiguous (named : ∀ record ∈ first, record.Named)
    (named' : ∀ record ∈ second, record.Named)
    (same : first.flatMap Record.octets = second.flatMap Record.octets) :
    first = second ∨ Ambiguous first second := by
  by_cases equal : first = second
  · exact .inl equal
  · refine .inr ⟨exists_first_difference named named' same equal, fun grows => ?_, fun grows => ?_⟩
    · exact equal (grows.eq_of_octets named' same)
    · exact equal (grows.eq_of_octets named same.symm).symm

end Separation

/-! ## What records tell of the entries -/

def FileBelow (files : FileSystem) (entry : Path) (names : Place) (content : Bytes) : Prop :=
  names ≠ [] ∧ ∃ place, files.placeOf entry = .ok place ∧
    files.entries[place ++ names]? = some (.file content)

inductive SameEntry (files other : FileSystem) (entry : Path) : Prop
  | file {content : Bytes} (reads : files.read entry = .ok content)
      (reads' : other.read entry = .ok content)
  | directory (isDirectory : files.isDirectory entry) (isDirectory' : other.isDirectory entry)
      (same : ∀ names content, FileBelow files entry names content ↔
        FileBelow other entry names content)

section Entries

variable {files other : FileSystem} {entry : Path} {classpath others : List Path}

theorem OnClasspath.text_ne (present : OnClasspath files entry) : entry.text ≠ "" := by
  rcases present with ⟨isDirectory, -⟩ | ⟨content, reads, -⟩
  · obtain ⟨place, leads, -⟩ := isDirectory_iff_entryAt?.mp isDirectory
    exact (placeOf_eq_ok_iff.mp leads).1.nonempty
  · obtain ⟨place, leads, -⟩ := read_eq_ok_iff_entryAt?.mp reads
    exact (placeOf_eq_ok_iff.mp leads).1.nonempty

theorem exists_recordsOfEntry (files : FileSystem) (entry : Path) : ∃ head rest,
    recordsOfEntry files entry = head :: rest ∧ head.text = entry.text ∧ head.kind ≠ .below ∧
      ∀ record ∈ rest, record.kind = .below := by
  rw [recordsOfEntry]
  split
  · refine ⟨_, _, rfl, rfl, nofun, fun record member => ?_⟩
    obtain ⟨⟨path, found⟩, -, same⟩ := List.mem_filterMap.mp member
    cases found with
    | directory => cases same
    | file content => rw [← Option.some.inj same]
  · exact ⟨_, _, rfl, rfl, nofun, by simp⟩

theorem mem_recordsOfEntry (wellFormed : files.WellFormed) (present : OnClasspath files entry)
    (isDirectory : files.isDirectory entry) {names : Place} (isName : ∀ name ∈ names, IsName name)
    (content : Bytes) :
    ⟨.below, (names.foldl Path.join entry).text, content⟩ ∈ recordsOfEntry files entry ↔
      FileBelow files entry names content := by
  obtain ⟨place, leads, -, listed⟩ := present.exists_recordsOfEntry isDirectory
  rw [listed, List.mem_cons, List.filterMap_map, List.mem_filterMap]
  constructor
  · rintro (own | ⟨⟨there, found⟩, listed, same⟩)
    · cases own
    · obtain ⟨nonempty, here⟩ := (mem_below _ _ _).mp listed
      cases found with
      | directory => cases same
      | file other =>
          obtain ⟨-, sameText, rfl⟩ := Record.mk.inj (Option.some.inj same)
          obtain rfl : there = names := Path.eq_of_location_foldl_join
            (wellFormed.isName_of_getElem? here) isName
            (congrArg Path.location (congrArg Files.Path.mk sameText))
          exact ⟨nonempty, place, leads, here⟩
  · rintro ⟨nonempty, place', leads', here⟩
    obtain rfl := Except.ok.inj (leads.symm.trans leads')
    exact .inr ⟨(names, .file content), (mem_below _ _ _).mpr ⟨nonempty, here⟩, rfl⟩

theorem sameEntry_of_records (wellFormed : files.WellFormed) (wellFormed' : other.WellFormed)
    (present : OnClasspath files entry) (present' : OnClasspath other entry)
    (same : recordsOfEntry files entry = recordsOfEntry other entry) :
    SameEntry files other entry := by
  by_cases isDirectory : files.isDirectory entry <;>
    by_cases isDirectory' : other.isDirectory entry
  · refine .directory isDirectory isDirectory' fun names content => ?_
    by_cases isName : ∀ name ∈ names, IsName name
    · rw [← mem_recordsOfEntry wellFormed present isDirectory isName, same,
        mem_recordsOfEntry wellFormed' present' isDirectory' isName]
    · refine iff_of_false ?_ ?_
      · rintro ⟨-, above, -, here⟩
        exact isName (wellFormed.isName_of_getElem? here)
      · rintro ⟨-, above, -, here⟩
        exact isName (wellFormed'.isName_of_getElem? here)
  · rw [recordsOfEntry, recordsOfEntry, if_pos isDirectory, if_neg isDirectory'] at same
    cases (List.cons.inj same).1
  · rw [recordsOfEntry, recordsOfEntry, if_neg isDirectory, if_pos isDirectory'] at same
    cases (List.cons.inj same).1
  · obtain ⟨content, reads⟩ := present.exists_read isDirectory
    obtain ⟨content', reads'⟩ := present'.exists_read isDirectory'
    rw [recordsOfEntry, recordsOfEntry, if_neg isDirectory, if_neg isDirectory', reads, reads'] at same
    obtain ⟨-, -, rfl⟩ := Record.mk.inj (List.cons.inj same).1
    exact .file reads reads'

private theorem append_inj_of_forall {α : Type} {holds : α → Prop} {front front' rest rest' : List α}
    (all : ∀ value ∈ front, holds value) (all' : ∀ value ∈ front', holds value)
    (ends : ∀ value ∈ rest.head?, ¬holds value) (ends' : ∀ value ∈ rest'.head?, ¬holds value)
    (same : front ++ rest = front' ++ rest') : front = front' ∧ rest = rest' := by
  induction front generalizing front' with
  | nil =>
      cases front' with
      | nil => exact ⟨rfl, same⟩
      | cons value front' =>
          rw [List.nil_append] at same
          exact absurd (all' value (.head _)) (ends value (by rw [same]; rfl))
  | cons value front ih =>
      rw [List.forall_mem_cons] at all
      cases front' with
      | nil =>
          rw [List.nil_append] at same
          exact absurd all.1 (ends' value (by rw [← same]; rfl))
      | cons value' front' =>
          rw [List.forall_mem_cons] at all'
          obtain ⟨rfl, later⟩ := List.cons.inj same
          obtain ⟨rfl, rfl⟩ := ih all.2 all'.2 later
          exact ⟨rfl, rfl⟩

theorem head?_records (files : FileSystem) (classpath : List Path) :
    ∀ record ∈ (records files classpath).head?, ¬record.kind = .below := by
  cases classpath with
  | nil => nofun
  | cons entry classpath =>
      obtain ⟨head, rest, split, -, own, -⟩ := exists_recordsOfEntry files entry
      rw [records, List.flatMap_cons, split]
      intro record first
      rw [← Option.some.inj first]
      exact own

theorem eq_of_records (wellFormed : files.WellFormed) (wellFormed' : other.WellFormed)
    (present : ∀ entry ∈ classpath, OnClasspath files entry)
    (present' : ∀ entry ∈ others, OnClasspath other entry)
    (same : records files classpath = records other others) :
    classpath = others ∧ ∀ entry ∈ classpath, SameEntry files other entry := by
  induction classpath generalizing others with
  | nil =>
      cases others with
      | nil => exact ⟨rfl, by simp⟩
      | cons entry others =>
          obtain ⟨head, rest, split, -⟩ := exists_recordsOfEntry other entry
          rw [records, records, List.flatMap_cons, split] at same
          cases same
  | cons entry classpath ih =>
      obtain ⟨head, rest, split, text, -, below⟩ := exists_recordsOfEntry files entry
      cases others with
      | nil =>
          rw [records, records, List.flatMap_cons, split] at same
          cases same
      | cons entry' others =>
          obtain ⟨head', rest', split', text', -, below'⟩ := exists_recordsOfEntry other entry'
          rw [List.forall_mem_cons] at present present'
          rw [records, records, List.flatMap_cons, List.flatMap_cons, split, split'] at same
          obtain ⟨rfl, following⟩ := List.cons.inj same
          obtain ⟨rfl, later⟩ := append_inj_of_forall below below' (head?_records files classpath)
            (head?_records other others) following
          obtain rfl : entry = entry' := congrArg Files.Path.mk (text.symm.trans text')
          obtain ⟨rfl, entries⟩ := ih present.2 present'.2 later
          refine ⟨rfl, List.forall_mem_cons.mpr ⟨?_, entries⟩⟩
          exact sameEntry_of_records wellFormed wellFormed' present.1 present'.1
            (split.trans split'.symm)

theorem text_foldl_join_ne {base : Path} (nonempty : base.text ≠ "") (names : List String) :
    (names.foldl Path.join base).text ≠ "" := by
  induction names generalizing base with
  | nil => exact nonempty
  | cons name names ih =>
      refine ih ?_
      rw [Path.join]
      split
      next slash =>
        rintro rfl
        cases slash
      next =>
        split <;> simp [nonempty]

theorem named_records (present : ∀ entry ∈ classpath, OnClasspath files entry) :
    ∀ record ∈ records files classpath, record.Named := by
  intro record member
  obtain ⟨entry, listed, member⟩ := List.mem_flatMap.mp member
  have nonempty := (present entry listed).text_ne
  by_cases isDirectory : files.isDirectory entry
  · obtain ⟨place, -, -, records⟩ := (present entry listed).exists_recordsOfEntry isDirectory
    rw [records, List.mem_cons, List.filterMap_map, List.mem_filterMap] at member
    rcases member with rfl | ⟨⟨there, walked⟩, -, same⟩
    · exact nonempty
    · cases walked with
      | directory => cases same
      | file content =>
          rw [← Option.some.inj same]
          exact text_foldl_join_ne nonempty there
  · rw [recordsOfEntry, if_neg isDirectory] at member
    rw [List.mem_singleton.mp member]
    exact nonempty

end Entries

/-! ## Answers of the detector -/

namespace Detector

variable {detector : Detector} {pair : RootPair} {world : World}

/-- Where the digest of the class path of a pair is kept. -/
def classpathFileOf (detector : Detector) (pair : RootPair) (files : FileSystem) : Path :=
  (detector.directoryOf pair files).join classpathFile

theorem ends_classpathChanged_octets (detector : Detector) (pair : RootPair) {classpath : List Path}
    (present : ∀ entry ∈ classpath, OnClasspath world.files entry) :
    Ends (detector.classpathChanged pair classpath) world
      (fun found _ => found =
        (decide (stored? digestReader world.files (detector.classpathFileOf pair world.files) ≠
            some (Digest.Xxh3.digest (octetsOf world.files classpath))),
          { detector with
            classpathDigest := some (Digest.Xxh3.digest (octetsOf world.files classpath)) }))
      (fun _ _ => False) := by
  simp only [classpathChanged, ends_bind, ends_consult, ends_stateDirectory, ends_pure,
    classpathStream_eq present, Except.mapError]
  refine (ends_readState digestReader _ world).imp ?_ fun _ _ => False.elim
  rintro previous next ⟨rfl, -⟩
  rfl

theorem ends_save_classpath {digest : UInt64} (computed : detector.classpathDigest = some digest) :
    Ends (detector.save pair) world
      (fun _ next => next.files.entryOf (detector.classpathFileOf pair world.files) =
        .ok (.file (encodeDigest digest))) (fun _ _ => True) := by
  simp only [save, ends_bind, ends_stateDirectory, ends_change, computed]
  rw [classpathFileOf]
  generalize detector.directoryOf pair world.files = directory
  refine (ends_true _ _).imp (fun _ made _ => ?_) fun _ _ _ => trivial
  refine (ends_replaceFile_entryOf _ _ made).imp (fun _ replaced found => ?_) fun _ _ _ => trivial
  cases detector.sourceDigests with
  | none => exact found
  | some digests =>
      have sources : IsName sourcesFile := by constructor <;> decide
      have own : IsName classpathFile := by constructor <;> decide
      have temporary : IsName ((Path.cutAtDot sourcesFile).1 ++ "." ++ "tmp") := by
        constructor <;> decide
      have lies : ∀ {path : Path} {name : String} (home : Place),
          path.location = directory.location ++ [.name name] →
            path.placeFrom home = directory.placeFrom home ++ [name] :=
        fun home location => Path.placeFrom_of_location location home
      have here := fun home => lies home (Path.location_join directory own)
      have there := fun home => lies home (Path.location_join directory sources)
      have beside := fun home => lies home (Path.location_withExtension_join sources temporary)
      simp only [ends_change]
      refine ((keepsReading_replaceFile (fun home => ?_) (fun home => ?_) _) replaced).imp
        (fun _ _ keeps => keeps.entryOf found) fun _ _ _ => trivial
      · rw [here, there, ne_eq, List.append_cancel_left_eq]
        decide
      · rw [here, beside, ne_eq, List.append_cancel_left_eq]
        decide

end Detector

/-- Both trees have the same entries in the same order. -/
def SameClasspath (files : FileSystem) (classpath : List Path) (other : FileSystem)
    (others : List Path) : Prop :=
  classpath = others ∧ ∀ entry ∈ classpath, SameEntry files other entry

/-- Class paths with the same octets are the same, unless the octets have two readings.  When a run has
asked about a class path and has saved its digests, a later run tells whether the octets are still the
same, provided that different octets do not share a digest. -/
theorem classpath_changes_are_seen {files other : FileSystem} {classpath others : List Path}
    (wellFormed : files.WellFormed) (wellFormed' : other.WellFormed)
    (present : ∀ entry ∈ classpath, OnClasspath files entry)
    (present' : ∀ entry ∈ others, OnClasspath other entry) :
    ∃ stream stream', classpathStream files classpath = .ok stream ∧
      classpathStream other others = .ok stream' ∧
      (stream = stream' → SameClasspath files classpath other others ∨
        Ambiguous (records files classpath) (records other others)) ∧
      ∀ (detector asked saver later : Detector) (pair : RootPair) (answer : Bool)
        (world checked saving saved now : World) (octets : Bytes),
        world.files = files → detector.classpathChanged pair classpath world =
          .ok (answer, asked) checked →
        saver.root = asked.root → saver.classpathDigest = asked.classpathDigest →
        saver.save pair saving = .ok () saved →
        now.files = other → later.root = detector.root →
        now.files.directory = saving.files.directory →
        saved.files.read (later.classpathFileOf pair now.files) = .ok octets →
        now.files.read (later.classpathFileOf pair now.files) = .ok octets →
        (Digest.Xxh3.digest stream = Digest.Xxh3.digest stream' → stream = stream') →
        Ends (later.classpathChanged pair others) now
          (fun found _ => found.1 = false ↔ stream = stream') (fun _ _ => False) := by
  refine ⟨_, _, classpathStream_eq present, classpathStream_eq present', fun same => ?_, ?_⟩
  · rcases eq_or_ambiguous (named_records present) (named_records present') same with same | ambiguous
    · exact .inl (eq_of_records wellFormed wellFormed' present present' same)
    · exact .inr ambiguous
  · rintro detector asked saver later pair answer world checked saving saved now octets rfl asks
      sameRoot sameDigest saves rfl laterRoot sameDirectory then' still different
    have found := (Detector.ends_classpathChanged_octets detector pair present).of_ok asks
    obtain ⟨-, rfl⟩ := Prod.mk.inj found
    have written := (Detector.ends_save_classpath sameDigest).of_ok saves
    have sameFile : later.classpathFileOf pair now.files = saver.classpathFileOf pair saving.files := by
      rw [Detector.classpathFileOf, Detector.classpathFileOf, Detector.directoryOf,
        Detector.directoryOf, laterRoot, sameRoot, sameDirectory]
    have stored : stored? digestReader now.files (later.classpathFileOf pair now.files) =
        some (Digest.Xxh3.digest (octetsOf world.files classpath)) := by
      have decoded := digestReader_suffix (Digest.Xxh3.digest (octetsOf world.files classpath)) []
      rw [List.append_nil] at decoded
      have held := entryOf_of_read then'
      rw [sameFile, written] at held
      rw [stored?, still, ← Entry.file.inj (Except.ok.inj held)]
      simp only [Except.toOption, Option.bind_some, decodeState, decoded]
      rfl
    refine (Detector.ends_classpathChanged_octets later pair present').imp ?_ fun _ _ => False.elim
    rintro found _ rfl
    rw [stored, decide_eq_false_iff_not, not_not, Option.some.injEq]
    exact ⟨different, congrArg _⟩

/-- A library of one directory and one file. -/
def library : World where
  files :=
    { entries := Std.ExtTreeMap.ofList
        [(["lib"], .directory), (["lib", "X.class"], .file [1]), (["lib.jar"], .file [2, 3])] compare
      host := { workingDirectory := [] } }

def libraryPath : List Path := [⟨"lib"⟩, ⟨"lib.jar"⟩]

def libraryPair : RootPair := ⟨⟨"src"⟩, ⟨"out"⟩⟩

/-- What a run knows once it has asked about the library. -/
def libraryDetector : Detector where
  root := ⟨"cache"⟩
  classpathDigest := some (Digest.Xxh3.digest (octetsOf library.files libraryPath))

def savedLibrary : World := stateAfter (libraryDetector.save libraryPair) library

/-- One octet of the file is another one. -/
def changedLibrary : World :=
  { savedLibrary with files := savedLibrary.files.setEntry ["lib.jar"] (.file [2, 4]) }

private theorem library_holds :
    returns (libraryDetector.save libraryPair) library ∧
    returns (libraryDetector.classpathChanged libraryPair libraryPath) library ∧
    library.files.WellFormed ∧ changedLibrary.files.WellFormed ∧
    (∀ entry ∈ libraryPath, OnClasspath library.files entry) ∧
    (∀ entry ∈ libraryPath, OnClasspath changedLibrary.files entry) ∧
    library.files.isDirectory ⟨"lib.jar"⟩ = false ∧
    (library.files.read ⟨"lib.jar"⟩).toOption = some [2, 3] ∧
    (changedLibrary.files.read ⟨"lib.jar"⟩).toOption = some [2, 4] ∧
    records library.files libraryPath =
      [⟨.directory, "lib", []⟩, ⟨.below, "lib/X.class", [1]⟩, ⟨.file, "lib.jar", [2, 3]⟩] ∧
    records changedLibrary.files libraryPath =
      [⟨.directory, "lib", []⟩, ⟨.below, "lib/X.class", [1]⟩, ⟨.file, "lib.jar", [2, 4]⟩] ∧
    changedLibrary.files.directory = library.files.directory ∧
    (changedLibrary.files.read (libraryDetector.classpathFileOf libraryPair changedLibrary.files)).toOption =
      some (encodeDigest (Digest.Xxh3.digest (octetsOf library.files libraryPath))) ∧
    (savedLibrary.files.read (libraryDetector.classpathFileOf libraryPair changedLibrary.files)).toOption =
      some (encodeDigest (Digest.Xxh3.digest (octetsOf library.files libraryPath))) ∧
    Digest.Xxh3.digest (octetsOf library.files libraryPath) ≠
      Digest.Xxh3.digest (octetsOf changedLibrary.files libraryPath) := by
  decide +kernel

/-- The octets of a file that was changed in place cannot be read in two ways, so a later run sees the
change. -/
theorem classpath_changes_are_seen_in_place :
    classpathStream library.files libraryPath ≠ classpathStream changedLibrary.files libraryPath ∧
      Ends (libraryDetector.classpathChanged libraryPair libraryPath) changedLibrary
        (fun found _ => found.1 = true) (fun _ _ => False) := by
  obtain ⟨saves, asks, wellFormed, wellFormed', present, present', isFile, reads, reads', before,
    after, directory, stored, stored', different⟩ := library_holds
  have reads := eq_ok_of_toOption reads
  have reads' := eq_ok_of_toOption reads'
  obtain ⟨_, saves⟩ := exists_of_returns saves
  obtain ⟨stream, stream', streams, streams', tells, answers⟩ :=
    classpath_changes_are_seen wellFormed wellFormed' present present'
  have apart : stream ≠ stream' := by
    intro same
    rcases tells same with ⟨-, entries⟩ | ambiguous
    · cases entries ⟨"lib.jar"⟩ (.tail _ (.head _)) with
      | file left right =>
          have same := (Except.ok.inj (left.symm.trans reads)).symm.trans
            (Except.ok.inj (right.symm.trans reads'))
          exact absurd same (by decide)
      | directory left => exact absurd left (by simp [isFile])
    · refine ambiguous.not_grows ?_
      rw [before, after]
      exact .cons ⟨rfl, le_rfl, le_rfl⟩ (.cons ⟨rfl, le_rfl, le_rfl⟩ (.cons ⟨rfl, le_rfl, le_rfl⟩ .nil))
  refine ⟨by rwa [streams, streams', ne_eq, Except.ok.injEq], ?_⟩
  obtain ⟨⟨answer, asked⟩, asks⟩ := exists_of_returns asks
  have found := (Detector.ends_classpathChanged_octets _ _ present).of_ok asks
  obtain ⟨-, rfl⟩ := Prod.mk.inj found
  refine (answers libraryDetector _ libraryDetector libraryDetector libraryPair answer
    library _ library savedLibrary changedLibrary _ rfl asks rfl rfl saves rfl rfl directory
    (eq_ok_of_toOption stored') (eq_ok_of_toOption stored) ?_).imp ?_ fun _ _ => False.elim
  · rw [classpathStream_eq present] at streams
    rw [classpathStream_eq present'] at streams'
    rw [← Except.ok.inj streams, ← Except.ok.inj streams']
    exact fun same => absurd same different
  · intro found _ told
    rw [← Bool.not_eq_false]
    exact fun silent => apart (told.mp silent)

end AbiBuild.Changes
