import AbiBuild.Proofs.Files.Calls
import Mathlib.Data.List.Infix

/-!
# Where nothing is in the way

A path is open when the host can take it and no file stands on the way to it.  A host that refuses
nothing then makes directories and removes trees without fail, and every place afterwards is known.
-/

namespace AbiBuild.Files.FileSystem

open AbiBuild.Files.Path

variable {files : FileSystem} {path : Path}

/-- The host refuses nothing. -/
structure Calm (files : FileSystem) : Prop where
  wellFormed : files.WellFormed
  refusals : files.refusals = []
  legible : files.Legible

structure Open (path : Path) (files : FileSystem) : Prop where
  plain : path.Plain
  fits : Fits path
  base : files.entryAt? (files.baseOf path) = some .directory
  way : ∀ place content, place <+: files.placeFor path → place ≠ files.placeFor path →
    files.entryAt? place ≠ some (.file content)

structure TakesFile (path : Path) (files : FileSystem) : Prop extends Open path files where
  leaf : files.entryAt? (files.placeFor path) ≠ some .directory

structure TakesDirectory (path : Path) (files : FileSystem) : Prop extends Open path files where
  leaf : ∀ content, files.entryAt? (files.placeFor path) ≠ some (.file content)

structure Becomes (before after : FileSystem) (entryAt? : Place → Option Entry) : Prop where
  host : after.host = before.host
  calm : after.Calm
  entries : ∀ place, after.entryAt? place = entryAt? place

/-! ## Deciding what is open -/

theorem not_file_iff {found : Option Entry} :
    (∀ content, found ≠ some (.file content)) ↔ found = none ∨ found = some .directory := by
  cases found with
  | none => simp
  | some entry => cases entry <;> simp

instance (found : Option Entry) : Decidable (∀ content, found ≠ some (.file content)) :=
  decidable_of_iff _ not_file_iff.symm

instance (path : Path) : Decidable (Fits path) :=
  decidable_of_iff (path.text.toList.contains (Char.ofNat 0) = false ∧
      path.text.utf8ByteSize ≤ longestPath ∧
      ∀ name ∈ steps path, name.utf8ByteSize ≤ longestName) <| by
    constructor
    · rintro ⟨noZero, short, shortNames⟩
      exact ⟨noZero, short, shortNames⟩
    · exact fun fits => ⟨fits.noZero, fits.short, fits.shortNames⟩

instance : Decidable files.Calm :=
  decidable_of_iff (files.WellFormed ∧ files.refusals = [] ∧ files.Legible) <| by
    constructor
    · rintro ⟨wellFormed, refusals, legible⟩
      exact ⟨wellFormed, refusals, legible⟩
    · exact fun calm => ⟨calm.wellFormed, calm.refusals, calm.legible⟩

theorem open_iff : Open path files ↔ path.Plain ∧ Fits path ∧
    files.entryAt? (files.baseOf path) = some .directory ∧
    ∀ place ∈ (files.placeFor path).inits, place ≠ files.placeFor path →
      ∀ content, files.entryAt? place ≠ some (.file content) := by
  simp only [List.mem_inits]
  constructor
  · exact fun opens => ⟨opens.plain, opens.fits, opens.base,
      fun place leads further content => opens.way place content leads further⟩
  · rintro ⟨plain, fits, base, way⟩
    exact ⟨plain, fits, base, fun place content leads further => way place leads further content⟩

instance : Decidable (Open path files) := decidable_of_iff _ open_iff.symm

instance : Decidable (TakesFile path files) :=
  decidable_of_iff (Open path files ∧ files.entryAt? (files.placeFor path) ≠ some .directory) <| by
    constructor
    · rintro ⟨opens, leaf⟩
      exact ⟨opens, leaf⟩
    · exact fun takes => ⟨takes.toOpen, takes.leaf⟩

instance : Decidable (TakesDirectory path files) :=
  decidable_of_iff (Open path files ∧
      ∀ content, files.entryAt? (files.placeFor path) ≠ some (.file content)) <| by
    constructor
    · rintro ⟨opens, leaf⟩
      exact ⟨opens, leaf⟩
    · exact fun takes => ⟨takes.toOpen, takes.leaf⟩

instance (first second : Path) : Decidable (Apart files first second) :=
  decidable_of_iff (¬files.placeFor first <+: files.placeFor second ∧
      ¬files.placeFor second <+: files.placeFor first) <| by
    constructor
    · rintro ⟨left, right⟩
      exact ⟨left, right⟩
    · exact fun apart => ⟨apart.left, apart.right⟩

theorem forall_place_iff {first second : FileSystem} {outside : Place → Prop} :
    (∀ place, outside place → second.entryAt? place = first.entryAt? place) ↔
      ∀ place ∈ first.entries.keys ++ second.entries.keys,
        outside place → second.entryAt? place = first.entryAt? place := by
  refine ⟨fun same place _ => same place, fun same place holds => ?_⟩
  by_cases listed : place ∈ first.entries.keys ++ second.entries.keys
  · exact same place listed holds
  · rw [List.mem_append, Std.ExtTreeMap.mem_keys, Std.ExtTreeMap.mem_keys, not_or] at listed
    by_cases root : place = []
    · rw [root]
      rfl
    · rw [entryAt?_of_ne_nil _ root, entryAt?_of_ne_nil _ root,
        Std.ExtTreeMap.getElem?_eq_none listed.1, Std.ExtTreeMap.getElem?_eq_none listed.2]

/-! ## Trees with the same entries -/

theorem eq_of_entryAt? {first second : FileSystem} (calm : first.Calm) (calm' : second.Calm)
    (directory : second.host = first.host)
    (same : ∀ place, second.entryAt? place = first.entryAt? place) : second = first := by
  have entries : second.entries = first.entries := by
    refine Std.ExtTreeMap.ext_getElem? fun place => ?_
    by_cases root : place = []
    · rw [root, calm'.wellFormed.rooted, calm.wellFormed.rooted]
    · rw [← entryAt?_of_ne_nil _ root, ← entryAt?_of_ne_nil _ root, same]
  cases first
  cases second
  simp only [mk.injEq]
  exact ⟨entries, directory, calm'.refusals.trans calm.refusals.symm⟩

theorem WellFormed.entryAt?_below (wellFormed : files.WellFormed) {place below : Place}
    (inside : place <+: below) (different : below ≠ place)
    (free : files.entryAt? place ≠ some .directory) : files.entryAt? below = none := by
  obtain ⟨rest, rfl⟩ := inside
  have further : rest ≠ [] := by
    rintro rfl
    exact different (List.append_nil place)
  rw [entryAt?_of_ne_nil _ (by simp [further])]
  cases found : files.entries[place ++ rest]? with
  | none => rfl
  | some entry => exact absurd (wellFormed.entryAt?_of_prefix found further) free

theorem WellFormed.directory_of_prefix (wellFormed : files.WellFormed) {place above : Place}
    (leads : above <+: place) (directory : files.entryAt? place = some .directory) :
    files.entryAt? above = some .directory := by
  by_cases same : above = place
  · rwa [same]
  · by_contra other
    rw [wellFormed.entryAt?_below leads (Ne.symm same) other] at directory
    cases directory

theorem Calm.attempt (calm : files.Calm) (change : FileSystem → Except IoFault FileSystem) :
    FileSystem.attempt change files = match change files with
      | .ok changed => .ok () changed
      | .error fault => .error fault files := by
  have same : { files with refusals := files.refusals.drop 1 } = files := by
    obtain ⟨entries, directory, refusals⟩ := files
    obtain rfl : refusals = [] := calm.refusals
    rfl
  rw [FileSystem.attempt, same, calm.refusals]
  rfl

theorem Calm.becomes (calm : files.Calm) {entryAt? : Place → Option Entry}
    (same : ∀ place, files.entryAt? place = entryAt? place) : Becomes files files entryAt? :=
  ⟨rfl, calm, same⟩

theorem Becomes.trans {before middle after : FileSystem} {first second : Place → Option Entry}
    (begins : Becomes before middle first) (ends : Becomes middle after second) :
    Becomes before after second :=
  ⟨ends.host.trans begins.host, ends.calm, ends.entries⟩

theorem Becomes.congr {before after : FileSystem} {first second : Place → Option Entry}
    (becomes : Becomes before after first) (same : ∀ place, first place = second place) :
    Becomes before after second :=
  ⟨becomes.host, becomes.calm, fun place => (becomes.entries place).trans (same place)⟩

/-! ## Where open paths lead -/

theorem dropLast_placeFor (files : FileSystem) (plain : path.Plain) : ∃ last, IsName last ∧
    files.placeFor path = (files.placeFor path).dropLast ++ [last] ∧
      files.baseOf path <+: (files.placeFor path).dropLast := by
  rcases List.eq_nil_or_concat (steps path) with empty | ⟨front, last, split⟩
  · exact absurd empty plain.steps_ne_nil
  · rw [List.concat_eq_append] at split
    refine ⟨last, plain.2 last (by simp [split]), ?_, ?_⟩ <;>
      simp [placeFor, split, ← List.append_assoc]

theorem isDirectory_iff (wellFormed : files.WellFormed) (plain : path.Plain) :
    files.isDirectory path ↔ Fits path ∧ files.entryAt? (files.placeFor path) = some .directory := by
  rw [entryAt?_of_ne_nil _ (placeFor_ne_nil plain), ← entryOf_eq_ok wellFormed plain,
    isDirectory_iff_entryOf]

theorem foldlM_enter_of_open {names : List String} (plain : ∀ name ∈ names, IsName name)
    (short : ∀ name ∈ names, name.utf8ByteSize ≤ longestName) {base : Place}
    (way : ∀ front content, front <+: names → front ≠ names →
      files.entryAt? (base ++ front) ≠ some (.file content)) :
    names.foldlM files.enter base = .ok (base ++ names) ∨
      names.foldlM files.enter base = .error .notFound := by
  induction names generalizing base with
  | nil => exact .inl (by simp [pure, Except.pure])
  | cons name names ih =>
      rw [List.forall_mem_cons] at plain short
      have here := fun content => way [] content List.nil_prefix (by simp)
      rw [List.append_nil] at here
      rw [List.foldlM_cons]
      cases found : files.entryAt? base with
      | none => exact .inr (by simp [enter, found, bind, Except.bind])
      | some entry =>
          cases entry with
          | file content => exact absurd found (here content)
          | directory =>
              have enters := (enter_eq_ok plain.1).mpr ⟨found, short.1, rfl⟩
              rw [enters]
              have goesOn := @ih plain.2 short.2 (base ++ [name]) fun front content leads different => by
                rw [List.append_assoc]
                exact way (name :: front) content ((List.prefix_cons_inj name).mpr leads)
                  (by simpa using different)
              rwa [List.append_assoc] at goesOn

namespace Open

variable (opens : Open path files)
include opens

theorem placeOf : files.placeOf path = .ok (files.placeFor path) ∨
    files.placeOf path = .error .notFound := by
  rw [FileSystem.placeOf, if_neg (by simpa using opens.fits.noZero), if_neg opens.plain.1,
    if_neg (Nat.not_lt.mpr opens.fits.short)]
  change (steps path).foldlM files.enter (files.baseOf path) = _ ∨
    (steps path).foldlM files.enter (files.baseOf path) = _
  refine foldlM_enter_of_open opens.plain.2 opens.fits.shortNames fun front content leads further =>
    opens.way _ content ((List.prefix_append_right_inj _).mpr leads) ?_
  simpa [placeFor] using further

theorem placeOf_of_parent (wellFormed : files.WellFormed)
    (above : files.entryAt? (files.placeFor path).dropLast = some .directory) :
    files.placeOf path = .ok (files.placeFor path) := by
  refine (placeOf_eq_ok opens.plain).mpr ⟨opens.fits, rfl, ?_⟩
  intro front name rest split
  refine wellFormed.directory_of_prefix ?_ above
  rw [placeFor, split, ← List.append_assoc]
  rw [List.dropLast_append_of_ne_nil (by simp)]
  exact List.prefix_append _ _

theorem parent_of_placeOf (leads : files.placeOf path = .ok (files.placeFor path)) :
    files.entryAt? (files.placeFor path).dropLast = some .directory := by
  obtain ⟨-, above, name, split, -, directory⟩ := exists_parent_of_placeOf opens.plain leads
  rwa [split, List.dropLast_concat]

theorem parent_of_single (one : (steps path).length = 1) :
    files.entryAt? (files.placeFor path).dropLast = some .directory := by
  obtain ⟨name, only⟩ := List.length_eq_one_iff.mp one
  rw [placeFor, only, List.dropLast_concat]
  exact opens.base

end Open

/-! ## Single changes -/

theorem entryAt?_setEntry {place : Place} (below : place ≠ []) (entry : Entry) (other : Place) :
    (files.setEntry place entry).entryAt? other =
      if place = other then some entry else files.entryAt? other := by
  by_cases root : other = []
  · subst root
    rw [if_neg below]
    rfl
  · rw [entryAt?_of_ne_nil _ root, entryAt?_of_ne_nil _ root, getElem?_setEntry]

theorem entryAt?_dropEntry {place : Place} (below : place ≠ []) (other : Place) :
    (files.dropEntry place).entryAt? other =
      if place = other then none else files.entryAt? other := by
  by_cases root : other = []
  · subst root
    rw [if_neg below]
    rfl
  · rw [entryAt?_of_ne_nil _ root, entryAt?_of_ne_nil _ root, getElem?_dropEntry]

theorem entryAt?_dropTree {place : Place} (below : place ≠ []) (other : Place) :
    (files.dropTree place).entryAt? other =
      if place <+: other then none else files.entryAt? other := by
  by_cases root : other = []
  · subst root
    rw [if_neg (by simpa using below)]
    rfl
  · rw [entryAt?_of_ne_nil _ root, entryAt?_of_ne_nil _ root, getElem?_dropTree]

/-! ## Making directories -/

def paved (files : FileSystem) (place other : Place) : Option Entry :=
  if other <+: place then some .directory else files.entryAt? other

theorem becomes_paved_of_directory (calm : files.Calm) {place : Place}
    (directory : files.entryAt? place = some .directory) :
    Becomes files files (files.paved place) := by
  refine calm.becomes fun other => ?_
  rw [paved]
  split
  next leads => exact calm.wellFormed.directory_of_prefix leads directory
  next => rfl

theorem TakesDirectory.missing (takes : TakesDirectory path files) (wellFormed : files.WellFormed)
    (absent : ¬files.isDirectory path) : files.entryAt? (files.placeFor path) = none := by
  cases found : files.entryAt? (files.placeFor path) with
  | none => rfl
  | some entry =>
      cases entry with
      | file content => exact absurd found (takes.leaf content)
      | directory =>
          exact absurd ((isDirectory_iff wellFormed takes.plain).mpr ⟨takes.fits, found⟩) absent

theorem madeDirectory_of_missing (plain : path.Plain)
    (leads : files.placeOf path = .ok (files.placeFor path))
    (missing : files.entryAt? (files.placeFor path) = none) :
    files.madeDirectory path = .ok (files.setEntry (files.placeFor path) .directory) :=
  madeDirectory_eq_ok_iff.mpr ⟨_, by rw [plain.withoutEndSeparators_eq, leads], missing, rfl⟩

theorem makeMissing_of_parent (calm : files.Calm) (takes : TakesDirectory path files)
    (above : files.entryAt? (files.placeFor path).dropLast = some .directory) :
    ∃ next, makeMissing path files = .ok () next ∧
      Becomes files next (files.paved (files.placeFor path)) := by
  by_cases there : files.isDirectory path
  · refine ⟨files, ?_, becomes_paved_of_directory calm
      ((isDirectory_iff calm.wellFormed takes.plain).mp there).2⟩
    simp only [makeMissing, bind, EStateM.bind, inspect, there, if_true]
    rfl
  have leads := takes.placeOf_of_parent calm.wellFormed above
  have missing := takes.missing calm.wellFormed there
  obtain ⟨last, isName, split, -⟩ := dropLast_placeFor files takes.plain
  have below : files.placeFor path ≠ [] := placeFor_ne_nil takes.plain
  refine ⟨files.setEntry (files.placeFor path) .directory, ?_, rfl, ⟨?_, calm.refusals, calm.legible⟩, ?_⟩
  · simp only [makeMissing, bind, EStateM.bind, inspect, there]
    rw [if_neg Bool.false_ne_true, makeDirectory, calm.attempt,
      madeDirectory_of_missing takes.plain leads missing]
  · rw [split]
    refine calm.wellFormed.setEntry above isName ?_
    rw [← split, ← entryAt?_of_ne_nil _ below, missing]
    simp
  · intro other
    rw [entryAt?_setEntry below, paved]
    by_cases same : files.placeFor path = other
    · rw [if_pos same, if_pos (same ▸ List.prefix_refl _)]
    rw [if_neg same]
    by_cases leadsOn : other <+: files.placeFor path
    · rw [if_pos leadsOn]
      rw [split] at leadsOn same
      rcases List.prefix_concat_iff.mp leadsOn with here | further
      · exact absurd here.symm same
      · exact calm.wellFormed.directory_of_prefix further above
    · rw [if_neg leadsOn]

theorem Open.mono {before after : FileSystem} (opens : Open path before)
    (directory : after.host = before.host)
    (base : after.entryAt? (before.baseOf path) = some .directory)
    (noFile : ∀ place content, place <+: before.placeFor path → place ≠ before.placeFor path →
      after.entryAt? place = some (.file content) →
        ∃ old, before.entryAt? place = some (.file old)) : Open path after where
  plain := opens.plain
  fits := opens.fits
  base := by
    rw [baseOf, directory]
    exact base
  way place content := by
    rw [placeFor_congr directory]
    intro leads further found
    obtain ⟨old, found⟩ := noFile place content leads further found
    exact opens.way place old leads further found

def NoNewFile (files : FileSystem) (entries : Place → Option Entry) : Prop :=
  ∀ place content, entries place = some (.file content) →
    files.entryAt? place = some (.file content)

section Becomes

variable {before after : FileSystem} {entries : Place → Option Entry}
  (became : Becomes before after entries) (noNewFile : before.NoNewFile entries)
include became noNewFile

theorem Open.becomes (opens : Open path before)
    (base : entries (before.baseOf path) = some .directory) : Open path after := by
  refine opens.mono became.host (by rw [became.entries, base]) ?_
  intro place content _ _ found
  rw [became.entries] at found
  exact ⟨content, noNewFile place content found⟩

theorem TakesDirectory.becomes (takes : TakesDirectory path before)
    (base : entries (before.baseOf path) = some .directory) : TakesDirectory path after where
  toOpen := takes.toOpen.becomes became noNewFile base
  leaf content found := by
    rw [placeFor_congr became.host, became.entries] at found
    exact takes.leaf content (noNewFile _ _ found)

theorem TakesFile.becomes (takes : TakesFile path before)
    (base : entries (before.baseOf path) = some .directory)
    (leaf : entries (before.placeFor path) ≠ some .directory) : TakesFile path after where
  toOpen := takes.toOpen.becomes became noNewFile base
  leaf := by rwa [placeFor_congr became.host, became.entries]

end Becomes

theorem prefix_baseOf (files : FileSystem) (path : Path) :
    files.baseOf path <+: files.placeFor path :=
  List.prefix_append _ _

theorem noNewFile_paved (files : FileSystem) (place : Place) :
    files.NoNewFile (files.paved place) := by
  intro other content found
  rw [paved] at found
  split at found
  · cases found
  · exact found

theorem Open.base_paved (opens : Open path files) (place : Place) :
    files.paved place (files.baseOf path) = some .directory := by
  rw [paved, opens.base, ite_self]

theorem Open.parent {base : Path} {name : String} (plain : base.Plain) (isName : IsName name)
    (opens : Open (base.join name) files) : TakesDirectory base files := by
  have place : files.placeFor (base.join name) = files.placeFor base ++ [name] :=
    placeFor_join plain isName.whole
  have further : files.placeFor base ≠ files.placeFor (base.join name) := by simp [place]
  have leads : files.placeFor base <+: files.placeFor (base.join name) :=
    place ▸ List.prefix_append _ _
  refine ⟨⟨plain, opens.fits.of_join plain isName.whole, ?_, ?_⟩, ?_⟩
  · have sameBase : files.baseOf (base.join name) = files.baseOf base := by
      rw [baseOf, baseOf, plain.isAbsolute_join isName.whole]
    exact sameBase ▸ opens.base
  · intro other content above different
    refine opens.way other content (above.trans leads) ?_
    rintro rfl
    exact different (above.eq_of_length_le leads.length_le)
  · exact fun content => opens.way _ content leads further

theorem makeDirectoriesWithin_of_open {count : Nat} (calm : files.Calm)
    (takes : TakesDirectory path files) (enough : (steps path).length ≤ count + 1) :
    ∃ next, makeDirectoriesWithin count path files = .ok () next ∧
      Becomes files next (files.paved (files.placeFor path)) := by
  induction count generalizing path with
  | zero =>
      have one : (steps path).length = 1 := by
        have some' := List.length_pos_of_ne_nil takes.plain.steps_ne_nil
        omega
      rw [makeDirectoriesWithin, if_neg takes.plain.1]
      exact makeMissing_of_parent calm takes (takes.parent_of_single one)
  | succ count ih =>
      rw [makeDirectoriesWithin, if_neg takes.plain.1]
      by_cases there : files.isDirectory path
      · refine ⟨files, ?_, becomes_paved_of_directory calm
          ((isDirectory_iff calm.wellFormed takes.plain).mp there).2⟩
        simp only [bind, EStateM.bind, inspect, there, if_true]
        rfl
      simp only [bind, EStateM.bind, inspect, there, Bool.false_eq_true, if_false]
      rcases takes.placeOf with leads | missing
      · rw [madeDirectory_of_missing takes.plain leads (takes.missing calm.wellFormed there)]
        exact makeMissing_of_parent calm takes (takes.parent_of_placeOf leads)
      have fails : files.madeDirectory path = .error .notFound := by
        rw [madeDirectory, takes.plain.withoutEndSeparators_eq, missing]
        rfl
      rw [fails]
      rcases takes.plain.exists_eq_join_or_single with ⟨base, name, plain, isName, rfl⟩ | ⟨⟨name, only⟩, -⟩
      · have above := takes.parent plain isName
        have place : files.placeFor (base.join name) = files.placeFor base ++ [name] :=
          placeFor_join plain isName.whole
        have shorter : (steps base).length ≤ count + 1 := by
          rw [plain.steps_join isName.whole, List.length_append] at enough
          simpa using enough
        rw [plain.parent?_join isName]
        obtain ⟨middle, makes, becomes⟩ := ih above shorter
        simp only [EStateM.bind, makes]
        have places := placeFor_congr becomes.host
        obtain ⟨next, makesLast, becomesLast⟩ := makeMissing_of_parent becomes.calm
          (takes.becomes becomes (noNewFile_paved _ _) (takes.base_paved _)) (by
            rw [places, place, List.dropLast_concat, becomes.entries, paved,
              if_pos (List.prefix_refl _)])
        refine ⟨next, makesLast, (becomes.trans becomesLast).congr fun other => ?_⟩
        rw [paved, paved, places, becomes.entries, paved]
        by_cases leads : other <+: files.placeFor (base.join name)
        · rw [if_pos leads, if_pos leads]
        · rw [if_neg leads, if_neg leads, if_neg]
          exact fun further => leads (further.trans (place ▸ List.prefix_append _ _))
      · have above := takes.parent_of_single (by rw [only]; rfl)
        rw [takes.placeOf_of_parent calm.wellFormed above] at missing
        cases missing

theorem makeDirectories_of_open (calm : files.Calm) (takes : TakesDirectory path files) :
    ∃ next, makeDirectories path files = .ok () next ∧
      Becomes files next (files.paved (files.placeFor path)) := by
  refine makeDirectoriesWithin_of_open calm takes ?_
  rw [steps]
  split
  · rw [List.length_drop]
    omega
  · omega

theorem makeParent_of_open (calm : files.Calm) (opens : Open path files) :
    ∃ next, (match path.parent? with
        | some parent => makeDirectories parent
        | none => pure ()) files = .ok () next ∧
      Becomes files next (files.paved (files.placeFor path).dropLast) := by
  rcases opens.plain.exists_eq_join_or_single with ⟨base, name, plain, isName, rfl⟩ | ⟨⟨name, only⟩, top⟩
  · rw [plain.parent?_join isName, placeFor_join plain isName.whole, List.dropLast_concat]
    exact makeDirectories_of_open calm (opens.parent plain isName)
  · have above := opens.parent_of_single (by rw [only]; rfl)
    refine ⟨files, ?_, becomes_paved_of_directory calm above⟩
    rw [top]
    refine makeDirectoriesWithin_top _ ?_ files
    split
    · exact .inr rfl
    · exact .inl rfl

/-! ## Writing -/

theorem write_of_open {name : String} {content : Bytes} (calm : files.Calm) (opens : Open path files)
    (isName : IsName name) (fits : Fits (path.join name))
    (directory : files.entryAt? (files.placeFor path) = some .directory)
    (missing : files.entryAt? (files.placeFor (path.join name)) = none) :
    write (path.join name) content files =
      .ok () (files.setEntry (files.placeFor (path.join name)) (.file content)) := by
  have plain := opens.plain.join isName
  have place : files.placeFor (path.join name) = files.placeFor path ++ [name] :=
    placeFor_join opens.plain isName.whole
  have unitOpens : Open (path.join name) files := by
    refine ⟨plain, fits, ?_, fun other old leads further found => ?_⟩
    · rw [baseOf, opens.plain.isAbsolute_join isName.whole]
      exact opens.base
    · rw [place] at leads further
      rcases List.prefix_concat_iff.mp leads with same | above
      · exact further same
      · rw [calm.wellFormed.directory_of_prefix above directory] at found
        cases found
  have named : (steps (path.join name)).getLast? ≠ some "" := fun last =>
    (plain.2 _ (List.mem_of_getLast? last)).nonempty rfl
  have leads := unitOpens.placeOf_of_parent calm.wellFormed (by
    rw [place, List.dropLast_concat, directory])
  rw [write, calm.attempt,
    placedFile_eq_ok_iff.mpr ⟨_, leads, by simp [missing], fun _ => named, rfl⟩]

/-! ## Removing -/

/-- The entries without those at or below a place. -/
def cleared (files : FileSystem) (place other : Place) : Option Entry :=
  if place <+: other then none else files.entryAt? other

theorem noNewFile_cleared (files : FileSystem) (place : Place) :
    files.NoNewFile (files.cleared place) := by
  intro other content found
  rw [cleared] at found
  split at found
  · cases found
  · exact found

theorem Open.base_cleared (opens : Open path files) {place : Place}
    (outside : ¬place <+: files.baseOf path) :
    files.cleared place (files.baseOf path) = some .directory := by
  rw [cleared, if_neg outside, opens.base]

theorem becomes_cleared_of_missing (calm : files.Calm) {place : Place}
    (missing : files.entryAt? place = none) : Becomes files files (files.cleared place) := by
  refine calm.becomes fun other => ?_
  rw [cleared]
  split
  next inside =>
    by_cases same : other = place
    · rw [same, missing]
    · exact calm.wellFormed.entryAt?_below inside same (by simp [missing])
  next => rfl

theorem removeTree_of_directory (calm : files.Calm) (opens : Open path files)
    (directory : files.entryAt? (files.placeFor path) = some .directory) :
    ∃ next, removeTree path files = .ok () next ∧
      Becomes files next (files.cleared (files.placeFor path)) := by
  have below : files.placeFor path ≠ [] := placeFor_ne_nil opens.plain
  have found : files.entries[files.placeFor path]? = some .directory := by
    rw [← entryAt?_of_ne_nil _ below, directory]
  have emptied : files.emptied path = .ok (files.dropBelow (files.placeFor path)) :=
    emptied_eq_ok_iff.mpr
      ⟨_, placeOf_eq_placeFor calm.wellFormed opens.plain opens.fits found, directory, rfl⟩
  have calm' : (files.dropBelow (files.placeFor path)).Calm :=
    ⟨calm.wellFormed.dropBelow _, calm.refusals, calm.legible⟩
  have still : (files.dropBelow (files.placeFor path)).entries[files.placeFor path]? =
      some .directory := by
    rw [getElem?_dropBelow, if_neg (by simp), found]
  have leads := placeOf_eq_placeFor calm'.wellFormed opens.plain opens.fits still
  have removed : (files.dropBelow (files.placeFor path)).withoutDirectory path =
      .ok ((files.dropBelow (files.placeFor path)).dropTree (files.placeFor path)) := by
    have named : ∀ name, (steps path).getLast? = some name → IsName name :=
      fun name last => opens.plain.2 name (List.mem_of_getLast? last)
    refine withoutDirectory_eq_ok_iff.mpr ⟨_, leads, ?_, ?_, rfl⟩ <;>
      rw [opens.plain.withoutEndSeparators_eq] <;> intro last
    · exact (named _ last).not_current rfl
    · exact (named _ last).not_parent rfl
  refine ⟨(files.dropBelow (files.placeFor path)).dropTree (files.placeFor path), ?_, rfl,
    ⟨calm'.wellFormed.dropTree _, calm.refusals, calm.legible⟩, fun other => ?_⟩
  · rw [removeTree]
    simp only [bind, EStateM.bind, calm.attempt, emptied, calm'.attempt, removed]
  · rw [entryAt?_dropTree below, cleared]
    split
    next => rfl
    next outside =>
      by_cases root : other = []
      · rw [root]
        rfl
      · rw [entryAt?_of_ne_nil _ root, entryAt?_of_ne_nil _ root, getElem?_dropBelow,
          if_neg fun inside => outside inside.1]

theorem removeTree_of_open (calm : files.Calm) (takes : TakesDirectory path files) :
    ∃ next, ignoreMissing (removeTree path) files = .ok () next ∧
      Becomes files next (files.cleared (files.placeFor path)) := by
  by_cases there : files.isDirectory path
  · obtain ⟨next, removes, becomes⟩ := removeTree_of_directory calm takes.toOpen
      ((isDirectory_iff calm.wellFormed takes.plain).mp there).2
    exact ⟨next, by rw [ignoreMissing, removes], becomes⟩
  have missing := takes.missing calm.wellFormed there
  refine ⟨files, ?_, becomes_cleared_of_missing calm missing⟩
  have fails : files.emptied path = .error .notFound := by
    rw [emptied]
    rcases takes.placeOf with leads | nowhere
    · rw [leads]
      simp only [bind, Except.bind, missing]
      rfl
    · rw [nowhere]
      rfl
  simp only [ignoreMissing, removeTree, bind, EStateM.bind, calm.attempt, fails]

def renewed (files : FileSystem) (place other : Place) : Option Entry :=
  if other <+: place then some .directory else files.cleared place other

theorem noNewFile_renewed (files : FileSystem) (place : Place) :
    files.NoNewFile (files.renewed place) := by
  intro other content found
  rw [renewed] at found
  split at found
  · cases found
  · exact files.noNewFile_cleared place other content found

theorem not_prefix_baseOf (plain : path.Plain) :
    ¬files.placeFor path <+: files.baseOf path := by
  intro inside
  have short := inside.length_le
  rw [placeFor, List.length_append] at short
  have long := List.length_pos_of_ne_nil plain.steps_ne_nil
  omega

theorem recreateDirectory_of_open (calm : files.Calm) (takes : TakesDirectory path files) :
    ∃ next, recreateDirectory path files = .ok () next ∧
      Becomes files next (files.renewed (files.placeFor path)) := by
  have exists_iff : files.pathExists path ↔ files.isDirectory path := by
    rw [isDirectory_iff calm.wellFormed takes.plain, pathExists_iff]
    simp only [entryOf_eq_ok calm.wellFormed takes.plain,
      ← entryAt?_of_ne_nil files (placeFor_ne_nil takes.plain)]
    constructor
    · rintro ⟨entry, fits, found⟩
      cases entry with
      | file content => exact absurd found (takes.leaf content)
      | directory => exact ⟨fits, found⟩
    · rintro ⟨fits, found⟩
      exact ⟨_, fits, found⟩
  obtain ⟨middle, removes, becomes⟩ : ∃ middle,
      (if files.pathExists path then removeTree path else pure ()) files = .ok () middle ∧
        Becomes files middle (files.cleared (files.placeFor path)) := by
    by_cases there : files.isDirectory path
    · rw [if_pos (exists_iff.mpr there)]
      exact removeTree_of_directory calm takes.toOpen
        ((isDirectory_iff calm.wellFormed takes.plain).mp there).2
    · rw [if_neg (mt exists_iff.mp there)]
      exact ⟨files, rfl, becomes_cleared_of_missing calm (takes.missing calm.wellFormed there)⟩
  have places := placeFor_congr becomes.host
  have takes' : TakesDirectory path middle := takes.becomes becomes (files.noNewFile_cleared _)
    (takes.base_cleared (not_prefix_baseOf takes.plain))
  obtain ⟨next, makes, becomes'⟩ := makeDirectories_of_open becomes.calm takes'
  refine ⟨next, ?_, (becomes.trans becomes').congr fun other => ?_⟩
  · have first : recreateDirectory path files = EStateM.bind
        (if files.pathExists path then removeTree path else pure ())
        (fun _ => makeDirectories path) files := by
      rw [recreateDirectory]
      simp only [bind, EStateM.bind, inspect]
      split <;> rfl
    rw [first]
    simp only [EStateM.bind, removes, makes]
  · rw [paved, renewed, places, becomes.entries]

def without (files : FileSystem) (place other : Place) : Option Entry :=
  if place = other then none else files.entryAt? other

theorem noNewFile_without (files : FileSystem) (place : Place) :
    files.NoNewFile (files.without place) := by
  intro other content found
  rw [without] at found
  split at found
  · cases found
  · exact found

theorem Open.base_without (opens : Open path files) {place : Place}
    (leaf : files.entryAt? place ≠ some .directory) :
    files.without place (files.baseOf path) = some .directory := by
  rw [without, if_neg, opens.base]
  rintro rfl
  exact leaf opens.base

theorem removeFile_of_open (calm : files.Calm) (takes : TakesFile path files) : ∃ next,
    (removeFile path files = .ok () next ∨ removeFile path files = .error .notFound next) ∧
      Becomes files next (files.without (files.placeFor path)) := by
  have below : files.placeFor path ≠ [] := placeFor_ne_nil takes.plain
  rw [removeFile, calm.attempt]
  cases found : files.entryAt? (files.placeFor path) with
  | none =>
      refine ⟨files, .inr ?_, calm.becomes fun other => ?_⟩
      · have fails : files.withoutFile path = .error .notFound := by
          rw [withoutFile]
          rcases takes.placeOf with leads | nowhere
          · rw [leads]
            simp only [bind, Except.bind, found]
            rfl
          · rw [nowhere]
            rfl
        rw [fails]
      · rw [without]
        split
        next same => rw [← same, found]
        next => rfl
  | some entry =>
      cases entry with
      | directory => exact absurd found takes.leaf
      | file content =>
          have here : files.entries[files.placeFor path]? = some (.file content) := by
            rw [← entryAt?_of_ne_nil _ below, found]
          have removed : files.withoutFile path = .ok (files.dropEntry (files.placeFor path)) :=
            withoutFile_eq_ok_iff.mpr ⟨_, content,
              placeOf_eq_placeFor calm.wellFormed takes.plain takes.fits here, found, rfl⟩
          refine ⟨files.dropEntry (files.placeFor path), .inl (by rw [removed]), rfl,
            ⟨calm.wellFormed.dropEntry (by simp [here]), calm.refusals, calm.legible⟩,
            fun other => entryAt?_dropEntry below other⟩

end AbiBuild.Files.FileSystem
