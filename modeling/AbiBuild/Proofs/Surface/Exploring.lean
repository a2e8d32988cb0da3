import AbiBuild.Proofs.Abi
import AbiBuild.Proofs.Surface.Occurrences
import AbiBuild.Proofs.Surface.Privacy
import Mathlib.Order.Bounds.Basic

/-!
# Exploring nested classes

The tables of nested classes may refer to each other in circles, list their own class, or list classes
whose files are missing or hold a class of another name.  Each name is looked up once all the same,
and the names that are found are the least set that the tables of its own members do not lead out of.
-/

namespace AbiBuild.Surface

open ClassFile Files FileSystem

variable {files : FileSystem} {directory : Path} {root : String}

/-! ## What the tables list -/

def ListsNested (root : String) (unit : ClassFile) (nested : String) : Prop :=
  ∃ own lines line, classAt unit.pool unit.thisIndex = .ok own ∧
    .innerClasses lines ∈ unit.attributes ∧ line ∈ lines ∧
    classAt unit.pool line.classIndex = .ok nested ∧ nested ≠ own ∧
    (root ++ "$").toList <+: nested.toList

def FoundAt (files : FileSystem) (directory : Path) (name : String) (unit : ClassFile) : Prop :=
  ∃ content, files.read (nestedPath directory name) = .ok content ∧
    ClassFile.ofBytes content = .ok unit

def Missing (files : FileSystem) (directory : Path) (name : String) : Prop :=
  files.read (nestedPath directory name) = .error .notFound

def Legible (unit : ClassFile) : Prop :=
  ∃ name table mentions, Reveals unit name table mentions

structure Closed (files : FileSystem) (directory : Path) (root : String) (start : ClassFile)
    (names : Set String) : Prop where
  byStart : ∀ nested, ListsNested root start nested → nested ∈ names
  byMember : ∀ name ∈ names, ∀ unit, FoundAt files directory name unit →
    ∀ nested, ListsNested root unit nested → nested ∈ names

theorem ListsNested.ne_root {unit : ClassFile} {nested : String}
    (lists : ListsNested root unit nested) : nested ≠ root := by
  obtain ⟨-, -, -, -, -, -, -, -, below⟩ := lists
  rintro rfl
  have longer := below.length_le
  rw [String.toList_append, List.length_append] at longer
  have separator : "$".toList.length = 1 := rfl
  omega

theorem mem_innerClassEntries {unit : ClassFile} {line : InnerClass} :
    line ∈ unit.attributes.flatMap innerClassEntries ↔
      ∃ lines, Attribute.innerClasses lines ∈ unit.attributes ∧ line ∈ lines := by
  rw [List.mem_flatMap]
  constructor
  · rintro ⟨part, member, listed⟩
    cases part <;> first | exact ⟨_, member, listed⟩ | exact absurd listed List.not_mem_nil
  · rintro ⟨lines, member, listed⟩
    exact ⟨_, member, listed⟩

theorem Reveals.mem_nestedIn {unit : ClassFile} {name : String} {table : List NestedClass}
    {mentions : List Mention} (reveals : Reveals unit name table mentions) {nested : String} :
    nested ∈ NestedClass.nestedIn table root name ↔ ListsNested root unit nested := by
  simp only [NestedClass.nestedIn, List.mem_filter, List.mem_map, Bool.and_eq_true,
    decide_eq_true_eq, List.isPrefixOf_iff_prefix]
  constructor
  · rintro ⟨⟨entry, listed, rfl⟩, other, below⟩
    obtain ⟨line, member, reads⟩ := exists_of_mem_results reveals.lists listed
    obtain ⟨lines, attached, inside⟩ := mem_innerClassEntries.mp member
    exact ⟨name, lines, line, reveals.isNamed, attached, inside, (nestedClassOf_eq_ok reads).1, other,
      below⟩
  · rintro ⟨own, lines, line, isNamed, attached, inside, there, other, below⟩
    obtain rfl := Except.ok.inj (reveals.isNamed.symm.trans isNamed)
    obtain ⟨entry, listed, reads⟩ :=
      exists_of_mem_values reveals.lists (mem_innerClassEntries.mpr ⟨lines, attached, inside⟩)
    obtain rfl := Except.ok.inj ((nestedClassOf_eq_ok reads).1.symm.trans there)
    exact ⟨⟨entry, listed, rfl⟩, other, below⟩

theorem mem_append_unseen {seen names : List String} {name : String} :
    name ∈ seen ++ unseen root seen names ↔ name ∈ seen ∨ (name ∈ names ∧ name ≠ root) := by
  induction names generalizing seen with
  | nil => simp [unseen]
  | cons first names ih =>
      rw [unseen]
      split
      next old =>
        rw [ih, List.mem_cons]
        rw [Bool.or_eq_true, decide_eq_true_eq, List.contains_iff_mem] at old
        refine or_congr_right' fun new => and_congr_left fun other => ?_
        have different : name ≠ first := by
          rintro rfl
          exact old.elim other new
        simp [different]
      next new =>
        have nonroot : first ≠ root := by
          rintro rfl
          simp at new
        rw [List.append_cons, ih, List.mem_append, List.mem_singleton, List.mem_cons, or_assoc]
        refine or_congr_right ?_
        constructor
        · rintro (rfl | ⟨later, other⟩)
          · exact ⟨.inl rfl, nonroot⟩
          · exact ⟨.inr later, other⟩
        · rintro ⟨rfl | later, other⟩
          · exact .inl rfl
          · exact .inr ⟨later, other⟩

theorem loadNested_eq_some_iff {name : String} {loaded : LoadedUnit} :
    loadNested files directory name = .ok (some loaded) ↔
      loaded.path = nestedPath directory name ∧ FoundAt files directory name loaded.unit := by
  rw [loadNested_eq_some]
  constructor
  · rintro ⟨content, reads, decodes⟩
    obtain ⟨there, decodes⟩ := decodeUnit_eq_ok.mp decodes
    exact ⟨there, content, reads, decodes⟩
  · rintro ⟨there, content, reads, decodes⟩
    exact ⟨content, reads, decodeUnit_eq_ok.mpr ⟨there, decodes⟩⟩

theorem exists_loadNested_eq_ok {name : String} :
    (∃ found, loadNested files directory name = .ok found) ↔
      Missing files directory name ∨ ∃ unit, FoundAt files directory name unit := by
  constructor
  · rintro ⟨found, loads⟩
    cases found with
    | none => exact .inl (loadNested_eq_none.mp loads)
    | some loaded => exact .inr ⟨loaded.unit, (loadNested_eq_some_iff.mp loads).2⟩
  · rintro (missing | ⟨unit, found⟩)
    · exact ⟨none, loadNested_eq_none.mpr missing⟩
    · exact ⟨some ⟨nestedPath directory name, unit⟩, loadNested_eq_some_iff.mpr ⟨rfl, found⟩⟩

/-! ## Runs without a bound -/

def revealed (unit : ClassFile) : Except UnitFault (List NestedClass × String × List Mention) := do
  let name ← classAt unit.pool unit.thisIndex
  let table ← nestedClasses unit
  let mentions ← classMentions unit (NestedClass.marksPrivate table name)
  pure (table, name, mentions)

theorem revealed_eq_ok {unit : ClassFile} {name : String} {table : List NestedClass}
    {mentions : List Mention} :
    revealed unit = .ok (table, name, mentions) ↔ Reveals unit name table mentions := by
  simp only [revealed, bind_eq_ok]
  constructor
  · rintro ⟨name', isNamed, table', lists, mentions', mentioned, same⟩
    obtain ⟨rfl, rfl, rfl⟩ := by simpa using Except.ok.inj same
    exact ⟨isNamed, lists, mentioned⟩
  · exact fun reveals => ⟨_, reveals.isNamed, _, reveals.lists, _, reveals.mentions, rfl⟩

theorem Reveals.unique {unit : ClassFile} {name name' : String} {table table' : List NestedClass}
    {mentions mentions' : List Mention} (reveals : Reveals unit name table mentions)
    (reveals' : Reveals unit name' table' mentions') :
    name = name' ∧ table = table' ∧ mentions = mentions' := by
  have same := Except.ok.inj
    ((revealed_eq_ok.mpr reveals).symm.trans (revealed_eq_ok.mpr reveals'))
  simp only [Prod.mk.injEq] at same
  exact ⟨same.2.1, same.1, same.2.2⟩

namespace Gathered

def newNames (gathered : Gathered) (root : String) (table : List NestedClass) (name : String) :
    List String :=
  unseen root gathered.nested (NestedClass.nestedIn table root name)

def adding (gathered : Gathered) (root : String) (table : List NestedClass) (name : String)
    (mentions : List Mention) : Gathered where
  owners := NestedClass.addOwners gathered.owners table
  nested := gathered.nested ++ gathered.newNames root table name
  mentions := gathered.mentions ++ mentions

end Gathered

theorem gather_eq (loaded : LoadedUnit) (gathered : Gathered) :
    gather files directory root loaded gathered =
      malformed loaded.path (revealed loaded.unit) >>= fun (table, name, mentions) =>
        (fun found : List (Option LoadedUnit) =>
          (found.flatMap Option.toList, gathered.adding root table name mentions)) <$>
          (gathered.newNames root table name).mapM (loadNested files directory) := by
  simp only [gather, discover_eq]
  rfl

def lookedUp {α ε : Type} (load : String → Except ε α) : List String → List String
  | [] => []
  | name :: names =>
    match load name with
    | .ok _ => name :: lookedUp load names
    | .error _ => [name]

theorem lookedUp_goesOn {α ε : Type} (load : String → Except ε α) (names : List String) :
    lookedUp load names <+: names := by
  induction names with
  | nil => exact List.prefix_rfl
  | cons name names ih =>
      rw [lookedUp]
      cases load name with
      | ok found => exact (List.prefix_cons_inj name).mpr ih
      | error error => exact List.prefix_append [name] names

/-- A run over all waiting units with the units it visits and the names it looks up, both in order,
and what it ends with.  Nothing bounds its length. -/
inductive Explores (files : FileSystem) (directory : Path) (root : String) :
    List LoadedUnit → Gathered → List LoadedUnit → List String → Except BuildError Gathered → Prop
  | done (gathered : Gathered) : Explores files directory root [] gathered [] [] (.ok gathered)
  | illegible {loaded : LoadedUnit} {waiting : List LoadedUnit} {gathered : Gathered}
      {error : BuildError}
      (fails : malformed loaded.path (revealed loaded.unit) = .error error) :
      Explores files directory root (loaded :: waiting) gathered [loaded] [] (.error error)
  | blocked {loaded : LoadedUnit} {waiting : List LoadedUnit} {gathered : Gathered} {name : String}
      {table : List NestedClass} {mentions : List Mention} {error : BuildError}
      (reveals : Reveals loaded.unit name table mentions)
      (fails : (gathered.newNames root table name).mapM (loadNested files directory) =
        .error error) :
      Explores files directory root (loaded :: waiting) gathered [loaded]
        (lookedUp (loadNested files directory) (gathered.newNames root table name)) (.error error)
  | step {loaded : LoadedUnit} {waiting : List LoadedUnit} {gathered : Gathered} {name : String}
      {table : List NestedClass} {mentions : List Mention} {found : List (Option LoadedUnit)}
      {visited : List LoadedUnit} {lookups : List String} {outcome : Except BuildError Gathered}
      (reveals : Reveals loaded.unit name table mentions)
      (finds : (gathered.newNames root table name).mapM (loadNested files directory) = .ok found)
      (rest : Explores files directory root (waiting ++ found.flatMap Option.toList)
        (gathered.adding root table name mentions) visited lookups outcome) :
      Explores files directory root (loaded :: waiting) gathered (loaded :: visited)
        (gathered.newNames root table name ++ lookups) outcome

section Runs

variable {waiting visited : List LoadedUnit} {gathered : Gathered} {lookups : List String}
  {outcome : Except BuildError Gathered}

theorem Explores.unique {visited' : List LoadedUnit} {lookups' : List String}
    {outcome' : Except BuildError Gathered}
    (run : Explores files directory root waiting gathered visited lookups outcome)
    (run' : Explores files directory root waiting gathered visited' lookups' outcome') :
    visited' = visited ∧ lookups' = lookups ∧ outcome' = outcome := by
  induction run generalizing visited' lookups' with
  | done gathered =>
      cases run'
      exact ⟨rfl, rfl, rfl⟩
  | illegible fails =>
      cases run' with
      | illegible fails' =>
          obtain rfl := Except.error.inj (fails'.symm.trans fails)
          exact ⟨rfl, rfl, rfl⟩
      | blocked reveals _ | step reveals _ _ =>
          rw [revealed_eq_ok.mpr reveals] at fails
          cases fails
  | blocked reveals fails =>
      cases run' with
      | illegible fails' =>
          rw [revealed_eq_ok.mpr reveals] at fails'
          cases fails'
      | blocked reveals' fails' =>
          obtain ⟨rfl, rfl, rfl⟩ := reveals.unique reveals'
          obtain rfl := Except.error.inj (fails'.symm.trans fails)
          exact ⟨rfl, rfl, rfl⟩
      | step reveals' finds' _ =>
          obtain ⟨rfl, rfl, rfl⟩ := reveals.unique reveals'
          rw [fails] at finds'
          cases finds'
  | step reveals finds rest ih =>
      cases run' with
      | illegible fails' =>
          rw [revealed_eq_ok.mpr reveals] at fails'
          cases fails'
      | blocked reveals' fails' =>
          obtain ⟨rfl, rfl, rfl⟩ := reveals.unique reveals'
          rw [fails'] at finds
          cases finds
      | step reveals' finds' rest' =>
          obtain ⟨rfl, rfl, rfl⟩ := reveals.unique reveals'
          obtain rfl := Except.ok.inj (finds.symm.trans finds')
          obtain ⟨rfl, rfl, rfl⟩ := ih rest'
          exact ⟨rfl, rfl, rfl⟩

theorem Bounded.exists_explores {count : Nat} (bounded : Bounded files root count waiting gathered) :
    ∃ visited lookups, Explores files directory root waiting gathered visited lookups
      (gatherAll files directory root count waiting gathered) := by
  induction count generalizing waiting gathered with
  | zero =>
      obtain rfl := bounded.waiting_eq_nil
      exact ⟨[], [], .done gathered⟩
  | succ count ih =>
      cases waiting with
      | nil => exact ⟨[], [], .done gathered⟩
      | cons loaded waiting =>
          rw [gatherAll]
          cases reads : malformed loaded.path (revealed loaded.unit) with
          | error error =>
              have fails : gather files directory root loaded gathered = .error error := by
                rw [gather_eq, reads, error_bind]
              rw [fails]
              exact ⟨_, _, .illegible reads⟩
          | ok parts =>
              obtain ⟨table, name, mentions⟩ := parts
              have reveals := revealed_eq_ok.mp (mapError_eq_ok.mp reads)
              cases finds : (gathered.newNames root table name).mapM (loadNested files directory) with
              | error error =>
                  have fails : gather files directory root loaded gathered = .error error := by
                    rw [gather_eq, reads, ok_bind]
                    simp only [finds]
                    rfl
                  rw [fails]
                  exact ⟨_, _, .blocked reveals finds⟩
              | ok found =>
                  have advances : gather files directory root loaded gathered =
                      .ok (found.flatMap Option.toList, gathered.adding root table name mentions) :=
                    gather_eq_ok.mpr ⟨_, _, _, found, reveals, finds, rfl, rfl⟩
                  rw [advances]
                  obtain ⟨visited, lookups, rest⟩ := ih (bounded.step advances)
                  exact ⟨_, _, .step reveals finds rest⟩

theorem Explores.nodup (run : Explores files directory root waiting gathered visited lookups outcome)
    (distinct : gathered.nested.Nodup) : (gathered.nested ++ lookups).Nodup := by
  induction run with
  | done gathered | illegible fails => simpa using distinct
  | @blocked loaded waiting gathered name table mentions error reveals fails =>
      have all : (gathered.nested ++ gathered.newNames root table name).Nodup :=
        nodup_append_unseen _ distinct
      exact all.sublist (List.Sublist.append_left (lookedUp_goesOn _ _).sublist _)
  | step reveals finds rest ih =>
      have later := ih (nodup_append_unseen _ distinct)
      rwa [← List.append_assoc]

theorem Reveals.listsNested {loaded : LoadedUnit} {name nested : String} {table : List NestedClass}
    {mentions : List Mention} (reveals : Reveals loaded.unit name table mentions)
    (member : nested ∈ gathered.newNames root table name) : ListsNested root loaded.unit nested :=
  reveals.mem_nestedIn.mp (mem_of_mem_unseen member)

theorem mem_found {names : List String} {found : List (Option LoadedUnit)} {loaded : LoadedUnit}
    (finds : names.mapM (loadNested files directory) = .ok found) :
    loaded ∈ found.flatMap Option.toList ↔ ∃ name ∈ names,
      loaded.path = nestedPath directory name ∧ FoundAt files directory name loaded.unit := by
  simp only [List.mem_flatMap, Option.mem_toList, ← loadNested_eq_some_iff]
  constructor
  · rintro ⟨_, listed, rfl⟩
    exact exists_of_mem_results finds listed
  · rintro ⟨name, member, loads⟩
    obtain ⟨result, listed, loads'⟩ := exists_of_mem_values finds member
    obtain rfl := Except.ok.inj (loads.symm.trans loads')
    exact ⟨_, listed, rfl⟩

theorem FoundAt.unique {name : String} {unit unit' : ClassFile}
    (found : FoundAt files directory name unit) (found' : FoundAt files directory name unit') :
    unit = unit' := by
  obtain ⟨content, reads, decodes⟩ := found
  obtain ⟨content', reads', decodes'⟩ := found'
  obtain rfl := Except.ok.inj (reads.symm.trans reads')
  exact Except.ok.inj (decodes.symm.trans decodes')

/-! ## What a run leads to -/

section Within

variable {names : Set String}
  (closed : ∀ name ∈ names, ∀ unit, FoundAt files directory name unit →
    ∀ nested, ListsNested root unit nested → nested ∈ names)

include closed

theorem Explores.lookups_subset
    (run : Explores files directory root waiting gathered visited lookups outcome)
    (inside : ∀ loaded ∈ waiting, ∀ nested, ListsNested root loaded.unit nested → nested ∈ names) :
    ∀ name ∈ lookups, name ∈ names := by
  induction run with
  | done | illegible => exact fun name member => absurd member List.not_mem_nil
  | blocked reveals fails =>
      intro name member
      exact inside _ (.head _) name (reveals.listsNested ((lookedUp_goesOn _ _).subset member))
  | @step loaded waiting gathered name table mentions found visited lookups outcome reveals finds rest
      ih =>
      rw [List.forall_mem_cons] at inside
      have new : ∀ nested ∈ gathered.newNames root table name, nested ∈ names :=
        fun nested member => inside.1 nested (reveals.listsNested member)
      rw [List.forall_mem_append]
      refine ⟨new, ih ?_⟩
      rw [List.forall_mem_append]
      refine ⟨inside.2, fun loaded member => ?_⟩
      obtain ⟨name, listed, -, found⟩ := (mem_found finds).mp member
      exact closed name (new name listed) loaded.unit found

theorem Explores.exists_eq_ok
    (readable : ∀ name ∈ names, Missing files directory name ∨
      ∃ unit, FoundAt files directory name unit ∧ Legible unit)
    (run : Explores files directory root waiting gathered visited lookups outcome)
    (legible : ∀ loaded ∈ waiting, Legible loaded.unit)
    (inside : ∀ loaded ∈ waiting, ∀ nested, ListsNested root loaded.unit nested → nested ∈ names) :
    ∃ last, outcome = .ok last := by
  induction run with
  | done gathered => exact ⟨gathered, rfl⟩
  | illegible fails =>
      obtain ⟨name, table, mentions, reveals⟩ := legible _ (.head _)
      rw [revealed_eq_ok.mpr reveals] at fails
      cases fails
  | @blocked loaded waiting gathered name table mentions error reveals fails =>
      have loads : ∀ nested ∈ gathered.newNames root table name,
          ∃ found, loadNested files directory nested = .ok found := by
        intro nested member
        have within := inside _ (.head _) nested (reveals.listsNested member)
        refine exists_loadNested_eq_ok.mpr ((readable nested within).imp_right ?_)
        exact fun ⟨unit, found, isLegible⟩ => ⟨unit, found⟩
      obtain ⟨found, finds⟩ := exists_mapM_eq_ok loads
      rw [fails] at finds
      cases finds
  | @step loaded waiting gathered name table mentions found visited lookups outcome reveals finds rest
      ih =>
      rw [List.forall_mem_cons] at legible inside
      have new : ∀ nested ∈ gathered.newNames root table name, nested ∈ names :=
        fun nested member => inside.1 nested (reveals.listsNested member)
      refine ih (List.forall_mem_append.mpr ⟨legible.2, fun loaded member => ?_⟩)
        (List.forall_mem_append.mpr ⟨inside.2, fun loaded member => ?_⟩)
      · obtain ⟨name, listed, -, found⟩ := (mem_found finds).mp member
        rcases readable name (new name listed) with missing | ⟨unit, found', isLegible⟩
        · obtain ⟨content, reads, -⟩ := found
          cases reads.symm.trans missing
        · exact found.unique found' ▸ isLegible
      · obtain ⟨name, listed, -, found⟩ := (mem_found finds).mp member
        exact closed name (new name listed) loaded.unit found

end Within

/-- What a run that succeeds has done: it looked up each name that a visited unit lists, and visited
each unit that it found there. -/
structure Completes (files : FileSystem) (directory : Path) (root : String)
    (waiting : List LoadedUnit) (gathered : Gathered) (visited : List LoadedUnit)
    (lookups : List String) (last : Gathered) : Prop where
  nested : last.nested = gathered.nested ++ lookups
  visits : ∀ loaded, loaded ∈ visited ↔ loaded ∈ waiting ∨ ∃ name ∈ lookups,
    loaded.path = nestedPath directory name ∧ FoundAt files directory name loaded.unit
  loads : ∀ name ∈ lookups, Missing files directory name ∨ ∃ unit, FoundAt files directory name unit
  legible : ∀ loaded ∈ visited, Legible loaded.unit
  lists : ∀ loaded ∈ visited, ∀ nested, ListsNested root loaded.unit nested → nested ∈ last.nested

theorem Explores.completes {last : Gathered}
    (run : Explores files directory root waiting gathered visited lookups (.ok last)) :
    Completes files directory root waiting gathered visited lookups last := by
  generalize ends : Except.ok last = outcome at run
  induction run with
  | done gathered =>
      obtain rfl := Except.ok.inj ends
      exact ⟨by simp, by simp, by simp, by simp, by simp⟩
  | illegible | blocked => cases ends
  | @step loaded waiting gathered name table mentions found visited lookups outcome reveals finds rest
      ih =>
      have later := ih ends
      have nested : last.nested = gathered.nested ++ (gathered.newNames root table name ++ lookups) :=
        later.nested.trans (List.append_assoc _ _ _)
      refine ⟨nested, fun other => ?_, ?_, ?_, ?_⟩
      · rw [List.mem_cons, later.visits, List.mem_append, mem_found finds, List.mem_cons]
        simp only [List.mem_append, or_and_right, exists_or, or_assoc]
      · refine List.forall_mem_append.mpr ⟨fun nested member => ?_, later.loads⟩
        obtain ⟨result, -, loads⟩ := exists_of_mem_values finds member
        exact exists_loadNested_eq_ok.mp ⟨result, loads⟩
      · exact List.forall_mem_cons.mpr ⟨⟨_, _, _, reveals⟩, later.legible⟩
      · refine List.forall_mem_cons.mpr ⟨fun nested lists => ?_, later.lists⟩
        rw [later.nested]
        refine List.mem_append_left _ (mem_append_unseen.mpr (.inr ?_))
        exact ⟨reveals.mem_nestedIn.mpr lists, lists.ne_root⟩

end Runs

/-! ## Whole surfaces -/

inductive Discoverable (files : FileSystem) (directory : Path) (root : String) (start : ClassFile) :
    String → Prop
  | byStart {nested : String} (lists : ListsNested root start nested) :
      Discoverable files directory root start nested
  | byMember {name nested : String} {unit : ClassFile}
      (member : Discoverable files directory root start name)
      (found : FoundAt files directory name unit) (lists : ListsNested root unit nested) :
      Discoverable files directory root start nested

theorem isLeast_discoverable (start : ClassFile) :
    IsLeast {names | Closed files directory root start names}
      {name | Discoverable files directory root start name} := by
  refine ⟨⟨fun _ => .byStart, fun _ member _ found _ => .byMember member found⟩, ?_⟩
  intro names closed name discoverable
  induction discoverable with
  | byStart lists => exact closed.byStart _ lists
  | byMember _ found lists ih => exact closed.byMember _ ih _ found _ lists

abbrev homeOf (path : Path) : Path := path.parent?.getD ⟨""⟩

/-- The class file at the path, and the name that it gives itself. -/
structure StartsAt (files : FileSystem) (path : Path) (root : String) (start : ClassFile) : Prop where
  stored : ∃ content, files.read path = .ok content ∧ ClassFile.ofBytes content = .ok start
  isNamed : classAt start.pool start.thisIndex = .ok root

def Gathered.surface (gathered : Gathered) (root : String) (start : ClassFile) : SourceAbi :=
  { SourceAbi.ofTypes root (gathered.types root false) (gathered.types root true) with
    sourceFileName := sourceFileName start
    innerClassNames := Names.ofList gathered.nested }

section Surfaces

variable {path : Path} {start : ClassFile}

theorem StartsAt.read_eq (starts : StartsAt files path root start) :
    Surface.read files path = (·.surface root start) <$>
      gatherAll files (homeOf path) root (unitBound files) [⟨path, start⟩] {} := by
  obtain ⟨⟨content, reads, decodes⟩, isNamed⟩ := starts
  have loads : decodeUnit path content = .ok ⟨path, start⟩ := decodeUnit_eq_ok.mpr ⟨rfl, decodes⟩
  rw [Surface.read, reads, Except.mapError, ok_bind, loads, ok_bind, malformed, isNamed,
    Except.mapError, ok_bind, bind_pure_comp]
  rfl

theorem StartsAt.exists_run (starts : StartsAt files path root start) : ∃ visited lookups,
    Explores files (homeOf path) root [⟨path, start⟩] {} visited lookups
      (gatherAll files (homeOf path) root (unitBound files) [⟨path, start⟩] {}) := by
  obtain ⟨⟨content, reads, decodes⟩, -⟩ := starts
  have bounded : Bounded files root (unitBound files) [⟨path, start⟩] {} :=
    bounded_unitBound (isStored_of_read reads decodes)
  exact bounded.exists_explores

theorem exists_startsAt {abi : SourceAbi} (reads : Surface.read files path = .ok abi) :
    ∃ root start, StartsAt files path root start := by
  obtain ⟨content, loaded, root, gathered, found, decodes, isNamed, -⟩ := read_eq_ok.mp reads
  exact ⟨root, loaded.unit, ⟨content, found, (decodeUnit_eq_ok.mp decodes).2⟩, isNamed⟩

/-- How the nested classes of the class file at a path are explored. -/
structure ExploredFrom (files : FileSystem) (path : Path) (root : String) (start : ClassFile)
    (visited : List LoadedUnit) (lookups : List String) (outcome : Except BuildError Gathered) :
    Prop where
  /-- The units and lookups are those of a run that nothing bounds. -/
  run : Explores files (homeOf path) root [⟨path, start⟩] {} visited lookups outcome
  only : ∀ visited' lookups' outcome',
    Explores files (homeOf path) root [⟨path, start⟩] {} visited' lookups' outcome' →
      visited' = visited ∧ lookups' = lookups ∧ outcome' = outcome
  answer : Surface.read files path = (·.surface root start) <$> outcome
  once : lookups.Nodup
  /-- Also a run that fails looks up nothing else. -/
  within : ∀ name ∈ lookups, Discoverable files (homeOf path) root start name
  least : ∀ abi, Surface.read files path = .ok abi →
    IsLeast {names | Closed files (homeOf path) root start names} {name | name ∈ abi.innerClassNames}
  each : ∀ abi, Surface.read files path = .ok abi →
    ∀ name, name ∈ lookups ↔ name ∈ abi.innerClassNames
  /-- Members whose file is missing are passed over, and no others. -/
  visits : ∀ abi, Surface.read files path = .ok abi → ∀ loaded, loaded ∈ visited ↔
    loaded = ⟨path, start⟩ ∨ ∃ name ∈ abi.innerClassNames,
      loaded.path = nestedPath (homeOf path) name ∧ FoundAt files (homeOf path) name loaded.unit
  succeeds : (∃ abi, Surface.read files path = .ok abi) ↔ Legible start ∧
    ∀ name, Discoverable files (homeOf path) root start name →
      Missing files (homeOf path) name ∨ ∃ unit, FoundAt files (homeOf path) name unit ∧ Legible unit

section Runs

variable {visited : List LoadedUnit} {lookups : List String}

theorem Explores.discoverable {outcome : Except BuildError Gathered}
    (run : Explores files directory root [⟨path, start⟩] {} visited lookups outcome) :
    ∀ name ∈ lookups, Discoverable files directory root start name := by
  refine run.lookups_subset (fun _ member _ found _ => .byMember member found) ?_
  rintro loaded member nested lists
  obtain rfl := List.mem_singleton.mp member
  exact .byStart lists

theorem Completes.closed {last : Gathered}
    (complete : Completes files directory root [⟨path, start⟩] {} visited lookups last) :
    Closed files directory root start {name | name ∈ lookups} := by
  have listed : ∀ loaded ∈ visited, ∀ nested, ListsNested root loaded.unit nested →
      nested ∈ lookups := by
    simpa [complete.nested] using complete.lists
  refine ⟨listed ⟨path, start⟩ ((complete.visits _).mpr (.inl (.head _))), ?_⟩
  intro name member unit found
  exact listed ⟨_, unit⟩ ((complete.visits _).mpr (.inr ⟨name, member, rfl, found⟩))

theorem StartsAt.exists_completes {abi : SourceAbi} (starts : StartsAt files path root start)
    (run : Explores files (homeOf path) root [⟨path, start⟩] {} visited lookups
      (gatherAll files (homeOf path) root (unitBound files) [⟨path, start⟩] {}))
    (reads : Surface.read files path = .ok abi) : ∃ last,
      Completes files (homeOf path) root [⟨path, start⟩] {} visited lookups last ∧
        ∀ name, name ∈ abi.innerClassNames ↔ name ∈ lookups := by
  rw [starts.read_eq] at reads
  obtain ⟨last, gathers, rfl⟩ := map_eq_ok.mp reads
  rw [gathers] at run
  refine ⟨last, run.completes, fun name => ?_⟩
  simp [Gathered.surface, run.completes.nested]

end Runs

theorem exists_exploredFrom (starts : StartsAt files path root start) :
    ∃ visited lookups outcome, ExploredFrom files path root start visited lookups outcome := by
  obtain ⟨visited, lookups, run⟩ := starts.exists_run
  have least : IsLeast {names | Closed files (homeOf path) root start names}
      {name | Discoverable files (homeOf path) root start name} := isLeast_discoverable start
  have within := run.discoverable
  have once : lookups.Nodup := by simpa using run.nodup List.nodup_nil
  have discovered : ∀ abi, Surface.read files path = .ok abi → ∀ name,
      name ∈ abi.innerClassNames ↔ Discoverable files (homeOf path) root start name := by
    intro abi reads name
    obtain ⟨last, complete, members⟩ := starts.exists_completes run reads
    rw [members]
    exact ⟨within name, fun discoverable => least.2 complete.closed discoverable⟩
  refine ⟨visited, lookups, _, run, fun _ _ _ run' => run.unique run', starts.read_eq, once, within,
    fun abi reads => ?_, fun abi reads name => ?_, fun abi reads loaded => ?_, ?_, ?_⟩
  · simpa only [discovered abi reads] using least
  · obtain ⟨last, -, members⟩ := starts.exists_completes run reads
    exact (members name).symm
  · obtain ⟨last, complete, members⟩ := starts.exists_completes run reads
    simp only [complete.visits, members, List.mem_singleton]
  · rintro ⟨abi, reads⟩
    obtain ⟨last, complete, members⟩ := starts.exists_completes run reads
    refine ⟨complete.legible _ ((complete.visits ⟨path, start⟩).mpr (.inl (.head _))), ?_⟩
    intro name discoverable
    have member := (members name).mp ((discovered abi reads name).mpr discoverable)
    refine (complete.loads name member).imp_right fun ⟨unit, found⟩ => ⟨unit, found, ?_⟩
    exact complete.legible ⟨_, unit⟩ ((complete.visits _).mpr (.inr ⟨name, member, rfl, found⟩))
  · rintro ⟨legible, readable⟩
    obtain ⟨last, gathers⟩ := run.exists_eq_ok least.1.byMember readable (by simpa using legible)
      (by simpa using least.1.byStart)
    exact ⟨last.surface root start, by rw [starts.read_eq, gathers]; rfl⟩

/-- Nested units are explored exactly once and completely, whatever the tables list. -/
theorem nested_classes_are_explored_once (files : FileSystem) (path : Path) :
    ((∀ root start, ¬StartsAt files path root start) →
      ∃ error, Surface.read files path = .error error) ∧
    ∀ root start, StartsAt files path root start →
      ∃ visited lookups outcome, ExploredFrom files path root start visited lookups outcome := by
  refine ⟨fun unstarted => ?_, fun root start starts => exists_exploredFrom starts⟩
  cases reads : Surface.read files path with
  | error error => exact ⟨error, rfl⟩
  | ok abi =>
      obtain ⟨root, start, starts⟩ := exists_startsAt reads
      exact absurd starts (unstarted root start)

end Surfaces

section Listers

structure Line where
  nested : String
  owner : Option String
  isPrivate : Bool := false

def lister (name superclass : String) (table : List Line) : Bytes :=
  let constants :=
    [textConstant name, classConstant 1, textConstant superclass, classConstant 3,
      textConstant "InnerClasses"] ++
    (table.mapIdx fun index line =>
      [textConstant line.nested, classConstant (4 * index + 6), textConstant (line.owner.getD ""),
        classConstant (4 * index + 8)]).flatten
  let lines := (table.mapIdx fun index line =>
    Bytes.ofNatBE 2 (4 * index + 7) ++
      Bytes.ofNatBE 2 (if line.owner.isSome then 4 * index + 9 else 0) ++
      [0, 0, 0, if line.isPrivate then 2 else 1]).flatten
  [0xCA, 0xFE, 0xBA, 0xBE, 0, 0, 0, 52] ++ Bytes.ofNatBE 2 (constants.length + 1) ++
    constants.flatten ++ [0, 1, 0, 2, 0, 4, 0, 0, 0, 0, 0, 0, 0, 1, 0, 5] ++
    Bytes.ofNatBE 4 (lines.length + 2) ++ Bytes.ofNatBE 2 table.length ++ lines

/-- The tables of `A` and `A$N` list each other, `A$M` has no file, and the file of `A$K` holds a
class `A$L` that lists itself. -/
def listerFiles : FileSystem where
  entries := Std.ExtTreeMap.ofList
    [(["out"], .directory),
      (["out", "A.class"], .file (lister "A" "Top" [⟨"A$N", "A", false⟩, ⟨"A$M", "A", false⟩])),
      (["out", "A$N.class"], .file (lister "A$N" "Top" [⟨"A", none, false⟩, ⟨"A$K", "A$N", false⟩])),
      (["out", "A$K.class"], .file (lister "A$L" "Top" [⟨"A$L", "A", false⟩, ⟨"A$N", "A", false⟩]))]
    compare
  host := { workingDirectory := [] }

private theorem listers_hold :
    (Surface.read listerFiles ⟨"out/A.class"⟩).toOption.map (·.className) = some "A" ∧
    (Surface.read listerFiles ⟨"out/A.class"⟩).toOption.map (·.innerClassNames.toList) =
      some ["A$K", "A$M", "A$N"] := by
  decide +kernel

/-- The missing class is a member, and the class in the wrong file is none. -/
theorem nested_classes_are_explored_once_of_listers : ∃ abi start visited lookups outcome,
    Surface.read listerFiles ⟨"out/A.class"⟩ = .ok abi ∧
      abi.innerClassNames.toList = ["A$K", "A$M", "A$N"] ∧
      StartsAt listerFiles ⟨"out/A.class"⟩ "A" start ∧
      ExploredFrom listerFiles ⟨"out/A.class"⟩ "A" start visited lookups outcome ∧
      lookups.Nodup ∧ ∀ name, name ∈ lookups ↔ name ∈ ["A$K", "A$M", "A$N"] := by
  obtain ⟨named, listed⟩ := listers_hold
  obtain ⟨abi, reads, members⟩ := Option.map_eq_some_iff.mp listed
  rw [reads] at named
  have reads := eq_ok_of_toOption reads
  obtain ⟨root, start, starts⟩ := exists_startsAt reads
  obtain ⟨last, -, same⟩ := map_eq_ok.mp (starts.read_eq.symm.trans reads)
  obtain rfl : root = "A" := by
    rw [← same] at named
    exact Option.some.inj named
  obtain ⟨visited, lookups, outcome, explored⟩ :=
    (nested_classes_are_explored_once listerFiles ⟨"out/A.class"⟩).2 "A" start starts
  refine ⟨abi, start, visited, lookups, outcome, reads, members, starts, explored, explored.once, ?_⟩
  intro name
  rw [explored.each abi reads, ← members, Std.ExtTreeSet.mem_toList]

end Listers

end AbiBuild.Surface
