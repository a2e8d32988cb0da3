import AbiBuild.Proofs.Collections
import AbiBuild.Proofs.Files.Plain
import Mathlib.Data.List.Induction

/-!
# Where plain paths lead

A plain path leads to the place that its names spell, as far as there are directories on the way.  In
a tree whose entries lie in directories the way to an entry needs no further check.
-/

namespace AbiBuild.Files

def Entry.octets : Entry → Bytes
  | .file content => content
  | .directory => []

namespace FileSystem

open AbiBuild.Files.Path

variable {files : FileSystem} {path : Path}

/-- Every entry has names that lead to it, and lies in a directory. -/
structure WellFormed (files : FileSystem) : Prop where
  names : ∀ (place : Place) (entry : Entry), files.entries[place]? = some entry → ∀ name ∈ place, IsName name
  rooted : files.entries[([] : Place)]? = none
  parents : ∀ (place : Place) (name : String) (entry : Entry), files.entries[place ++ [name]]? = some entry →
    files.entryAt? place = some .directory

theorem entryAt?_of_ne_nil (files : FileSystem) {place : Place} (below : place ≠ []) :
    files.entryAt? place = files.entries[place]? := by
  cases place with
  | nil => exact absurd rfl below
  | cons name names => rfl

theorem WellFormed.entryAt?_of_prefix (wellFormed : files.WellFormed) {place rest : Place}
    {entry : Entry} (found : files.entries[place ++ rest]? = some entry) (further : rest ≠ []) :
    files.entryAt? place = some .directory := by
  induction rest using List.reverseRecOn generalizing entry with
  | nil => exact absurd rfl further
  | append_singleton rest name ih =>
      rw [← List.append_assoc] at found
      have above := wellFormed.parents _ _ _ found
      by_cases here : rest = []
      · rwa [here, List.append_nil] at above
      · rw [entryAt?_of_ne_nil files (by simp [here])] at above
        exact ih above here

theorem wellFormed_iff : files.WellFormed ↔ ∀ entry ∈ files.entries.toList, entry.1 ≠ [] ∧
    (∀ name ∈ entry.1, IsName name) ∧ files.entryAt? entry.1.dropLast = some .directory := by
  constructor
  · rintro wellFormed ⟨place, entry⟩ listed
    have found := Std.ExtTreeMap.mem_toList_iff_getElem?_eq_some.mp listed
    rcases List.eq_nil_or_concat place with rfl | ⟨front, last, rfl⟩
    · rw [wellFormed.rooted] at found
      cases found
    · rw [List.concat_eq_append] at found ⊢
      exact ⟨by simp, wellFormed.names _ _ found, by simpa using wellFormed.parents _ _ _ found⟩
  · intro each
    have entries : ∀ (place : Place) (entry : Entry), files.entries[place]? = some entry →
        (place, entry) ∈ files.entries.toList :=
      fun _ _ => Std.ExtTreeMap.mem_toList_iff_getElem?_eq_some.mpr
    refine ⟨fun place entry found => (each _ (entries place entry found)).2.1, ?_, ?_⟩
    · cases found : files.entries[([] : Place)]? with
      | none => rfl
      | some entry => exact absurd rfl (each _ (entries _ _ found)).1
    · intro place name entry found
      simpa using (each _ (entries _ _ found)).2.2

instance : Decidable files.WellFormed := decidable_of_iff _ wellFormed_iff.symm

instance : DecidableEq Host := fun first second =>
  decidable_of_iff (first.workingDirectory = second.workingDirectory ∧
      first.unreadable = second.unreadable) <| by
    cases first
    cases second
    simp

instance : DecidableEq FileSystem := fun first second =>
  decidable_of_iff (first.entries = second.entries ∧
      first.host = second.host ∧ first.refusals = second.refusals) <| by
    cases first
    cases second
    simp

def baseOf (files : FileSystem) (path : Path) : Place :=
  if path.isAbsolute then [] else files.host.workingDirectory

def placeFor (files : FileSystem) (path : Path) : Place := files.baseOf path ++ steps path

structure Passable (path : Path) : Prop where
  noZero : path.text.toList.contains (Char.ofNat 0) = false
  nonempty : path.text ≠ ""
  short : path.text.utf8ByteSize ≤ longestPath

theorem placeOf_eq_ok_iff {place : Place} : files.placeOf path = .ok place ↔
    Passable path ∧ (steps path).foldlM files.enter (files.baseOf path) = .ok place := by
  rw [placeOf, baseOf]
  split
  next zero =>
    exact iff_of_false nofun fun ⟨passable, _⟩ => Bool.false_ne_true (passable.noZero ▸ zero)
  next noZero =>
    split
    next empty => exact iff_of_false nofun fun ⟨passable, _⟩ => passable.nonempty empty
    next nonempty =>
      split
      next long =>
        exact iff_of_false nofun fun ⟨passable, _⟩ => absurd passable.short (Nat.not_le.mpr long)
      next short =>
        exact (and_iff_right ⟨by simpa using noZero, nonempty, Nat.not_lt.mp short⟩).symm

structure Fits (path : Path) : Prop where
  noZero : path.text.toList.contains (Char.ofNat 0) = false
  short : path.text.utf8ByteSize ≤ longestPath
  shortNames : ∀ name ∈ steps path, name.utf8ByteSize ≤ longestName

theorem enter_eq_ok {place next : Place} {name : String} (isName : IsName name) :
    files.enter place name = .ok next ↔ files.entryAt? place = some .directory ∧
      name.utf8ByteSize ≤ longestName ∧ next = place ++ [name] := by
  rw [enter]
  cases files.entryAt? place with
  | none => simp
  | some entry =>
      cases entry with
      | file content => simp
      | directory =>
          by_cases short : name.utf8ByteSize ≤ longestName
          · simp [isName.nonempty, isName.not_current, isName.not_parent, short, Nat.not_lt.mpr short,
              eq_comm]
          · simp [isName.nonempty, isName.not_current, isName.not_parent, short, Nat.lt_of_not_le short]

theorem foldlM_enter_eq_ok {names : List String} (plain : ∀ name ∈ names, IsName name)
    {base place : Place} :
    names.foldlM files.enter base = .ok place ↔ place = base ++ names ∧
      (∀ name ∈ names, name.utf8ByteSize ≤ longestName) ∧
      ∀ front name rest, names = front ++ name :: rest →
        files.entryAt? (base ++ front) = some .directory := by
  induction names generalizing base with
  | nil =>
      rw [List.foldlM_nil]
      simp [pure, Except.pure, eq_comm]
  | cons name names ih =>
      rw [List.forall_mem_cons] at plain
      rw [List.foldlM_cons, bind_eq_ok]
      simp only [enter_eq_ok plain.1, ih plain.2, List.forall_mem_cons]
      constructor
      · rintro ⟨next, ⟨here, short, rfl⟩, rfl, shortNames, directories⟩
        refine ⟨by simp, ⟨short, shortNames⟩, ?_⟩
        intro front other rest split
        rcases List.append_eq_cons_iff.mp split.symm with ⟨rfl, -⟩ | ⟨front, rfl, tail⟩
        · simpa using here
        · simpa using directories front other rest tail
      · rintro ⟨rfl, ⟨short, shortNames⟩, directories⟩
        refine ⟨base ++ [name], ⟨?_, short, rfl⟩, by simp, shortNames, ?_⟩
        · simpa using directories [] name names rfl
        · intro front other rest split
          simpa using directories (name :: front) other rest (by rw [split]; rfl)

theorem placeOf_eq_ok (plain : path.Plain) {place : Place} :
    files.placeOf path = .ok place ↔ Fits path ∧ place = files.placeFor path ∧
      ∀ front name rest, steps path = front ++ name :: rest →
        files.entryAt? (files.baseOf path ++ front) = some .directory := by
  rw [placeOf_eq_ok_iff, foldlM_enter_eq_ok plain.2]
  constructor
  · rintro ⟨passable, rfl, shortNames, directories⟩
    exact ⟨⟨passable.noZero, passable.short, shortNames⟩, rfl, directories⟩
  · rintro ⟨fits, rfl, directories⟩
    exact ⟨⟨fits.noZero, plain.1, fits.short⟩, rfl, fits.shortNames, directories⟩

theorem exists_enter_of_placeOf {place : Place} {segment : String}
    (last : (steps path).getLast? = some segment) (leads : files.placeOf path = .ok place) :
    ∃ above, files.enter above segment = .ok place := by
  obtain ⟨front, split⟩ := List.getLast?_eq_some_iff.mp last
  obtain ⟨-, leads⟩ := placeOf_eq_ok_iff.mp leads
  rw [split, List.foldlM_append, bind_eq_ok] at leads
  obtain ⟨above, -, enters⟩ := leads
  rw [List.foldlM_cons, bind_eq_ok] at enters
  obtain ⟨next, enters, same⟩ := enters
  exact ⟨above, by rw [enters, ← Except.ok.inj same]⟩

theorem getLast?_of_placeOf {place : Place} {name : String} (isName : IsName name)
    (last : (steps path).getLast? = some name) (leads : files.placeOf path = .ok place) :
    place.getLast? = some name := by
  obtain ⟨above, enters⟩ := exists_enter_of_placeOf last leads
  obtain ⟨-, -, rfl⟩ := (enter_eq_ok isName).mp enters
  simp

theorem missing_of_enter {place : Place} {name : String} (isName : IsName name)
    (fails : files.enter place name = .error .notFound) : files.entryAt? place = none := by
  rw [enter] at fails
  cases found : files.entryAt? place with
  | none => rfl
  | some entry =>
      rw [found] at fails
      cases entry with
      | file content => cases fails
      | directory =>
          by_cases long : name.utf8ByteSize > longestName <;>
            simp [isName.nonempty, isName.not_current, isName.not_parent, long] at fails

theorem missing_of_foldlM_enter {names : List String} (plain : ∀ name ∈ names, IsName name)
    {base : Place} (fails : names.foldlM files.enter base = .error .notFound) :
    ∃ front, front <+: names ∧ files.entryAt? (base ++ front) = none := by
  induction names generalizing base with
  | nil => cases fails
  | cons name names ih =>
      rw [List.forall_mem_cons] at plain
      rw [List.foldlM_cons] at fails
      cases entered : files.enter base name with
      | error fault =>
          rw [entered] at fails
          obtain rfl := Except.error.inj fails
          exact ⟨[], List.nil_prefix, by simpa using missing_of_enter plain.1 entered⟩
      | ok next =>
          rw [entered] at fails
          obtain ⟨-, -, rfl⟩ := (enter_eq_ok plain.1).mp entered
          obtain ⟨front, leads, missing⟩ := ih plain.2 fails
          exact ⟨name :: front, (List.prefix_cons_inj name).mpr leads, by simpa using missing⟩

theorem missing_of_placeOf (plain : path.Plain) (fails : files.placeOf path = .error .notFound) :
    ∃ place, place <+: files.placeFor path ∧ files.entryAt? place = none := by
  rw [placeOf, if_neg plain.1] at fails
  split at fails
  next => cases fails
  next =>
    split at fails
    next => cases fails
    next =>
      obtain ⟨front, leads, missing⟩ := missing_of_foldlM_enter plain.2 fails
      exact ⟨_, (List.prefix_append_right_inj _).mpr leads, missing⟩

theorem placeFor_ne_nil (plain : path.Plain) : files.placeFor path ≠ [] := by
  simp [placeFor, plain.steps_ne_nil]

theorem placeFor_join {directory : Path} (plain : directory.Plain) {name : String}
    (whole : '/' ∉ name.toList) :
    files.placeFor (directory.join name) = files.placeFor directory ++ [name] := by
  rw [placeFor, placeFor, baseOf, baseOf, plain.isAbsolute_join whole, plain.steps_join whole,
    List.append_assoc]

theorem placeOf_eq_placeFor (wellFormed : files.WellFormed) (plain : path.Plain) (fits : Fits path)
    {entry : Entry} (found : files.entries[files.placeFor path]? = some entry) :
    files.placeOf path = .ok (files.placeFor path) := by
  refine (placeOf_eq_ok plain).mpr ⟨fits, rfl, ?_⟩
  intro front name rest split
  rw [placeFor, split, ← List.append_assoc] at found
  exact wellFormed.entryAt?_of_prefix found (by simp)

theorem entryOf_eq_ok_iff {entry : Entry} : files.entryOf path = .ok entry ↔
    ∃ place, files.placeOf path = .ok place ∧ files.entryAt? place = some entry := by
  rw [entryOf, bind_eq_ok]
  refine exists_congr fun place => and_congr_right fun _ => ?_
  cases files.entryAt? place with
  | none => simp [throw, throwThe, MonadExceptOf.throw]
  | some other => simp [pure, Except.pure]

/-- The host lets everything be read. -/
def Legible (files : FileSystem) : Prop := files.host.unreadable = ∅

instance : Decidable files.Legible := inferInstanceAs (Decidable (_ = _))

theorem Legible.getElem? (legible : files.Legible) (place : Place) :
    files.host.unreadable[place]? = none := by
  rw [Legible] at legible
  rw [legible]
  simp

theorem Legible.congr {other : FileSystem} (legible : files.Legible)
    (same : other.host = files.host) : other.Legible := by
  rwa [Legible, same]

theorem mayRead_eq_ok {place : Place} {value : Unit} :
    files.mayRead place = .ok value ↔ files.host.unreadable[place]? = none := by
  rw [mayRead]
  cases files.host.unreadable[place]? <;> simp

/-- A path reads the file at the place that it leads to, where the host lets it. -/
theorem read_eq_ok_iff_entryAt? {content : Bytes} : files.read path = .ok content ↔
    ∃ place, files.placeOf path = .ok place ∧ files.entryAt? place = some (.file content) ∧
      files.host.unreadable[place]? = none := by
  rw [read, bind_eq_ok]
  refine exists_congr fun place => and_congr_right fun _ => ?_
  cases found : files.entryAt? place with
  | none => simp [throw, throwThe, MonadExceptOf.throw]
  | some entry =>
      dsimp only
      rw [bind_eq_ok]
      cases entry with
      | file other => simp [mayRead_eq_ok, pure, Except.pure, and_comm]
      | directory => simp [throw, throwThe, MonadExceptOf.throw]

theorem isDirectory_iff_entryOf :
    files.isDirectory path ↔ files.entryOf path = .ok .directory := by
  rw [isDirectory]
  split
  next found => simp [found]
  next other => simpa using other

theorem isDirectory_iff_entryAt? : files.isDirectory path ↔
    ∃ place, files.placeOf path = .ok place ∧ files.entryAt? place = some .directory :=
  isDirectory_iff_entryOf.trans entryOf_eq_ok_iff

theorem entryOf_eq_ok (wellFormed : files.WellFormed) (plain : path.Plain) {entry : Entry} :
    files.entryOf path = .ok entry ↔
      Fits path ∧ files.entries[files.placeFor path]? = some entry := by
  rw [entryOf_eq_ok_iff]
  constructor
  · rintro ⟨place, leads, found⟩
    obtain ⟨fits, rfl, -⟩ := (placeOf_eq_ok plain).mp leads
    rw [entryAt?_of_ne_nil files (placeFor_ne_nil plain)] at found
    exact ⟨fits, found⟩
  · rintro ⟨fits, found⟩
    refine ⟨files.placeFor path, placeOf_eq_placeFor wellFormed plain fits found, ?_⟩
    rw [entryAt?_of_ne_nil files (placeFor_ne_nil plain), found]

theorem read_eq_ok (wellFormed : files.WellFormed) (plain : path.Plain) {content : Bytes} :
    files.read path = .ok content ↔ Fits path ∧
      files.entries[files.placeFor path]? = some (.file content) ∧
        files.host.unreadable[files.placeFor path]? = none := by
  rw [read_eq_ok_iff_entryAt?, ← and_assoc, ← entryOf_eq_ok wellFormed plain, entryOf_eq_ok_iff]
  constructor
  · rintro ⟨place, leads, found, readable⟩
    obtain ⟨-, rfl, -⟩ := (placeOf_eq_ok plain).mp leads
    exact ⟨⟨_, leads, found⟩, readable⟩
  · rintro ⟨⟨place, leads, found⟩, readable⟩
    obtain ⟨-, rfl, -⟩ := (placeOf_eq_ok plain).mp leads
    exact ⟨_, leads, found, readable⟩

theorem pathExists_iff : files.pathExists path ↔ ∃ entry, files.entryOf path = .ok entry := by
  rw [pathExists]
  cases files.entryOf path <;> simp

theorem entryOf_of_read {content : Bytes} (reads : files.read path = .ok content) :
    files.entryOf path = .ok (.file content) := by
  obtain ⟨place, leads, found, -⟩ := read_eq_ok_iff_entryAt?.mp reads
  exact entryOf_eq_ok_iff.mpr ⟨place, leads, found⟩

theorem pathExists_of_read {content : Bytes} (reads : files.read path = .ok content) :
    files.pathExists path :=
  pathExists_iff.mpr ⟨_, entryOf_of_read reads⟩

theorem read_of_entryOf (legible : files.Legible) {content : Bytes}
    (found : files.entryOf path = .ok (.file content)) : files.read path = .ok content := by
  obtain ⟨place, leads, here⟩ := entryOf_eq_ok_iff.mp found
  exact read_eq_ok_iff_entryAt?.mpr ⟨place, leads, here, legible.getElem? place⟩

theorem isFile_iff : files.isFile path ↔ ∃ content, files.entryOf path = .ok (.file content) := by
  rw [isFile]
  split
  next content found => simp [found]
  next other => simpa using other

theorem isFile_of_read {content : Bytes} (reads : files.read path = .ok content) :
    files.isFile path :=
  isFile_iff.mpr ⟨content, entryOf_of_read reads⟩

theorem isFile_iff_entryAt? : files.isFile path ↔ ∃ place content,
    files.placeOf path = .ok place ∧ files.entryAt? place = some (.file content) := by
  rw [isFile_iff, exists_comm]
  exact exists_congr fun content => entryOf_eq_ok_iff

/-! ## What lies below a place -/

theorem mem_below (place there : Place) (entry : Entry) :
    (there, entry) ∈ files.below place ↔
      there ≠ [] ∧ files.entries[place ++ there]? = some entry := by
  rw [below, List.mem_filterMap]
  constructor
  · rintro ⟨⟨full, other⟩, listed, cut⟩
    rw [Std.ExtTreeMap.mem_toList_iff_getElem?_eq_some] at listed
    dsimp only at cut
    split at cut
    next inside =>
      rw [Bool.and_eq_true, List.isPrefixOf_iff_prefix, bne_iff_ne] at inside
      obtain ⟨⟨rest, rfl⟩, further⟩ := inside
      obtain ⟨rfl, rfl⟩ := Prod.mk.inj (Option.some.inj cut)
      rw [List.drop_left]
      refine ⟨?_, listed⟩
      rintro rfl
      exact further (List.append_nil place)
    next => cases cut
  · rintro ⟨further, found⟩
    refine ⟨(place ++ there, entry), Std.ExtTreeMap.mem_toList_iff_getElem?_eq_some.mpr found, ?_⟩
    have inside : (place.isPrefixOf (place ++ there) && place ++ there != place) = true := by
      simp [List.isPrefixOf_iff_prefix, further]
    dsimp only
    rw [if_pos inside, List.drop_left]

theorem WellFormed.isName_of_getElem? (wellFormed : files.WellFormed) {place names : Place}
    {entry : Entry} (here : files.entries[place ++ names]? = some entry) :
    ∀ name ∈ names, IsName name :=
  fun name member => wellFormed.names _ _ here name (List.mem_append_right _ member)

theorem pairwise_below (files : FileSystem) (place : Place) :
    (files.below place).Pairwise fun first second => first.1 ≠ second.1 := by
  rw [below, List.pairwise_filterMap]
  refine Std.ExtTreeMap.distinct_keys_toList.imp ?_
  rintro ⟨first, entry⟩ ⟨second, other⟩ different ⟨there, _⟩ cut ⟨there', _⟩ cut' same
  dsimp only at cut cut' same
  split at cut
  next inside =>
    split at cut'
    next inside' =>
      rw [Bool.and_eq_true, List.isPrefixOf_iff_prefix] at inside inside'
      obtain ⟨⟨rest, rfl⟩, -⟩ := inside
      obtain ⟨⟨rest', rfl⟩, -⟩ := inside'
      obtain ⟨rfl, -⟩ := Prod.mk.inj (Option.some.inj cut)
      obtain ⟨rfl, -⟩ := Prod.mk.inj (Option.some.inj cut')
      rw [List.drop_left, List.drop_left] at same
      refine different (Std.LawfulEqCmp.compare_eq_iff_eq.mpr ?_)
      rw [same]
    next => cases cut'
  next => cases cut

theorem exists_of_mem_names {path : Path} {names : List String} {name : String}
    (listed : files.names path = .ok names) (member : name ∈ names) :
    ∃ place entry, files.entries[place ++ [name]]? = some entry := by
  obtain ⟨place, -, rest⟩ := bind_eq_ok.mp listed
  cases found : files.entryAt? place with
  | none =>
      rw [found] at rest
      cases rest
  | some entry =>
      rw [found] at rest
      cases entry with
      | file content => cases rest
      | directory =>
          obtain ⟨-, -, rest⟩ := bind_eq_ok.mp rest
          rw [← Except.ok.inj rest] at member
          obtain ⟨⟨there, entry⟩, inside, single⟩ := List.mem_filterMap.mp member
          have present := (mem_below place there entry).mp inside
          dsimp only at single
          split at single
          next other =>
            obtain rfl := Option.some.inj single
            exact ⟨place, entry, present.2⟩
          next => cases single

theorem mem_names (wellFormed : files.WellFormed) {path : Path} {names : List String}
    (listed : files.names path = .ok names) : ∀ name ∈ names, IsName name := by
  intro name member
  obtain ⟨place, entry, found⟩ := exists_of_mem_names listed member
  exact wellFormed.names _ entry found _ (by simp)

theorem Fits.of_join {directory : Path} (plain : directory.Plain) {name : String}
    (whole : '/' ∉ name.toList) (fits : Fits (directory.join name)) : Fits directory := by
  have last := getLast?_ne_slash plain.getLast?_segments
  have text : (directory.join name).text = directory.text ++ "/" ++ name := by
    rw [Path.join, if_neg (head?_ne_slash whole), if_neg (by simp [plain.1, last])]
  refine ⟨?_, ?_, ?_⟩
  · have free := fits.noZero
    rw [text, String.toList_append, String.toList_append] at free
    simp only [List.contains_eq_mem, List.mem_append, decide_eq_false_iff_not, not_or] at free ⊢
    exact free.1.1
  · have short := fits.short
    rw [text, String.utf8ByteSize_append, String.utf8ByteSize_append] at short
    omega
  · intro step member
    refine fits.shortNames step ?_
    rw [plain.steps_join whole]
    exact List.mem_append_left _ member

theorem exists_mem_names (wellFormed : files.WellFormed) {directory : Path}
    (plain : directory.Plain) (readable : files.host.unreadable[files.placeFor directory]? = none)
    {name : String} (isName : IsName name) {entry : Entry}
    (found : files.entryOf (directory.join name) = .ok entry) :
    ∃ names, files.names directory = .ok names ∧ name ∈ names := by
  obtain ⟨fits, found⟩ := (entryOf_eq_ok wellFormed (plain.join isName)).mp found
  rw [placeFor_join plain isName.whole] at found
  have above := wellFormed.parents _ _ _ found
  have leads : files.placeOf directory = .ok (files.placeFor directory) := by
    rw [entryAt?_of_ne_nil files (placeFor_ne_nil plain)] at above
    exact placeOf_eq_placeFor wellFormed plain (fits.of_join plain isName.whole) above
  have listed : files.mayRead (files.placeFor directory) = .ok () :=
    mayRead_eq_ok.mpr readable
  refine ⟨_, by rw [FileSystem.names, leads]; simp only [bind, Except.bind, above, listed]; rfl, ?_⟩
  exact List.mem_filterMap.mpr ⟨([name], entry), (mem_below _ _ _).mpr ⟨by simp, found⟩, rfl⟩

end FileSystem

end AbiBuild.Files
