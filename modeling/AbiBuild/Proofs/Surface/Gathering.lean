import AbiBuild.Proofs.ClassFile.Tables
import AbiBuild.Proofs.Files.Places
import Mathlib.Data.List.Perm.Subperm

/-!
# Following the tables of nested classes

Each name is looked up when a table lists it for the first time, so the units that are found can be
counted by the lines of all tables in the file system.  This is why a bound on their number loses
nothing: gathering up to the bound is gathering until no unit waits.
-/

namespace AbiBuild.Surface

open ClassFile Files FileSystem

variable {files : FileSystem} {directory : Path} {root : String}

/-! ## Names met for the first time -/

def unseen (root : String) : (seen names : List String) → List String
  | _, [] => []
  | seen, name :: names =>
    if name = root || seen.contains name then unseen root seen names
    else name :: unseen root (seen ++ [name]) names

theorem mem_of_mem_unseen {seen names : List String} {name : String}
    (member : name ∈ unseen root seen names) : name ∈ names := by
  induction names generalizing seen with
  | nil => exact member
  | cons first names ih =>
      rw [unseen] at member
      split at member
      · exact .tail _ (ih member)
      · rcases List.mem_cons.mp member with rfl | later
        · exact .head _
        · exact .tail _ (ih later)

theorem nodup_append_unseen {seen : List String} (names : List String) (distinct : seen.Nodup) :
    (seen ++ unseen root seen names).Nodup := by
  induction names generalizing seen with
  | nil => simpa [unseen] using distinct
  | cons name names ih =>
      rw [unseen]
      split
      next => exact ih distinct
      next new =>
        have fresh : name ∉ seen := by
          simp only [Bool.or_eq_true, not_or, List.contains_iff_mem] at new
          exact new.2
        have distinct : (seen ++ [name]).Nodup := by
          simpa [List.nodup_append] using
            ⟨distinct, fun other member same => fresh (same ▸ member)⟩
        have later := ih distinct
        simpa using later

theorem decodeUnit_eq_ok {path : Path} {content : Bytes} {loaded : LoadedUnit} :
    decodeUnit path content = .ok loaded ↔
      loaded.path = path ∧ ClassFile.ofBytes content = .ok loaded.unit := by
  rw [decodeUnit, malformed, mapError_eq_ok, bind_eq_ok]
  simp only [mapError_eq_ok]
  constructor
  · rintro ⟨unit, decodes, same⟩
    obtain rfl := Except.ok.inj same
    exact ⟨rfl, decodes⟩
  · rintro ⟨rfl, decodes⟩
    exact ⟨loaded.unit, decodes, rfl⟩

/-- Where the class file of a nested class belongs. -/
def nestedPath (directory : Path) (name : String) : Path :=
  directory.join (simpleName name ++ ".class")

theorem loadNested_eq (name : String) : loadNested files directory name =
    match files.read (nestedPath directory name) with
    | .ok content => some <$> decodeUnit (nestedPath directory name) content
    | .error .notFound => .ok none
    | .error fault => .error (.io fault) := by
  unfold loadNested nestedPath
  dsimp only
  generalize directory.join (simpleName name ++ ".class") = path
  cases files.read path with
  | ok content => rfl
  | error fault => cases fault <;> rfl

theorem loadNested_eq_some {name : String} {loaded : LoadedUnit} :
    loadNested files directory name = .ok (some loaded) ↔
      ∃ content, files.read (nestedPath directory name) = .ok content ∧
        decodeUnit (nestedPath directory name) content = .ok loaded := by
  rw [loadNested_eq]
  cases files.read (nestedPath directory name) with
  | ok content => simp [map_eq_ok]
  | error fault => cases fault <;> simp

theorem loadNested_eq_none {name : String} :
    loadNested files directory name = .ok none ↔
      files.read (nestedPath directory name) = .error .notFound := by
  rw [loadNested_eq]
  cases files.read (nestedPath directory name) with
  | ok content => simp [map_eq_ok]
  | error fault => cases fault <;> simp

theorem discover_eq (names : List String) (gathered : Gathered) :
    discover files directory root names gathered =
      (fun found : List (Option LoadedUnit) => (found.flatMap Option.toList,
        { gathered with nested := gathered.nested ++ unseen root gathered.nested names })) <$>
        (unseen root gathered.nested names).mapM (loadNested files directory) := by
  induction names generalizing gathered with
  | nil => simp [discover, unseen]
  | cons name names ih =>
      rw [discover, unseen]
      split
      · exact ih gathered
      · rw [List.mapM_cons, ih]
        cases loadNested files directory name with
        | error error => rfl
        | ok found => simp

/-! ## One unit -/

/-- What is read off a unit: its name, its table of nested classes and what it mentions. -/
structure Reveals (unit : ClassFile) (name : String) (table : List NestedClass)
    (mentions : List Mention) : Prop where
  isNamed : classAt unit.pool unit.thisIndex = .ok name
  lists : nestedClasses unit = .ok table
  mentions : classMentions unit (NestedClass.marksPrivate table name) = .ok mentions

theorem exists_of_classMentions {unit : ClassFile} {isPrivate : Bool} {mentions : List Mention}
    (gathers : classMentions unit isPrivate = .ok mentions) :
    ∃ superclass interfaces attributes fields methods,
      (if unit.superIndex = 0 then pure []
        else mention isPrivate <$> classAt unit.pool unit.superIndex) = .ok superclass ∧
      collect (fun index => mention isPrivate <$> classAt unit.pool index) unit.interfaceIndices =
        .ok interfaces ∧
      attributesMentions unit.pool isPrivate unit.attributes = .ok attributes ∧
      collect (fieldMentions unit.pool) unit.fields = .ok fields ∧
      collect (methodMentions unit.pool) unit.methods = .ok methods ∧
      superclass ++ interfaces ++ attributes ++ fields ++ methods = mentions := by
  obtain ⟨superclass, inherits, rest⟩ := ite_bind_eq_ok.mp gathers
  obtain ⟨interfaces, implements, rest⟩ := bind_eq_ok.mp rest
  obtain ⟨attributes, described, rest⟩ := bind_eq_ok.mp rest
  obtain ⟨fields, stores, rest⟩ := bind_eq_ok.mp rest
  obtain ⟨methods, calls, same⟩ := bind_eq_ok.mp rest
  exact ⟨superclass, interfaces, attributes, fields, methods, inherits, implements, described, stores,
    calls, Except.ok.inj same⟩

theorem gather_eq_ok {loaded : LoadedUnit} {gathered next : Gathered} {found : List LoadedUnit} :
    gather files directory root loaded gathered = .ok (found, next) ↔
      ∃ name table mentions units, Reveals loaded.unit name table mentions ∧
        (unseen root gathered.nested (NestedClass.nestedIn table root name)).mapM
          (loadNested files directory) = .ok units ∧
        found = units.flatMap Option.toList ∧
        next =
          { owners := NestedClass.addOwners gathered.owners table
            nested := gathered.nested ++
              unseen root gathered.nested (NestedClass.nestedIn table root name)
            mentions := gathered.mentions ++ mentions } := by
  rw [gather, bind_eq_ok]
  simp only [malformed, mapError_eq_ok, discover_eq, map_eq_ok, Prod.mk.injEq]
  constructor
  · rintro ⟨⟨table, name, mentions⟩, reads, units, finds, rfl, rfl⟩
    obtain ⟨name', isNamed, reads⟩ := bind_eq_ok.mp reads
    obtain ⟨table', lists, reads⟩ := bind_eq_ok.mp reads
    obtain ⟨mentions', mentioned, reads⟩ := bind_eq_ok.mp reads
    obtain ⟨rfl, rfl, rfl⟩ := by simpa using Except.ok.inj reads
    exact ⟨_, _, _, units, ⟨isNamed, lists, mentioned⟩, finds, rfl, rfl⟩
  · rintro ⟨name, table, mentions, units, ⟨isNamed, lists, mentioned⟩, finds, rfl, rfl⟩
    refine ⟨(table, name, mentions), ?_, units, finds, rfl, rfl⟩
    rw [isNamed, lists]
    simp only [bind, Except.bind, mentioned]
    rfl

/-! ## A whole run -/

/-- Gathering from the units that wait, and from those that are found on the way, until none is
left. -/
inductive Gathers (files : FileSystem) (directory : Path) (root : String) :
    List LoadedUnit → Gathered → Gathered → Prop
  | done (gathered : Gathered) : Gathers files directory root [] gathered gathered
  | step {unit : LoadedUnit} {waiting found : List LoadedUnit} {gathered middle last : Gathered}
      (advances : gather files directory root unit gathered = .ok (found, middle))
      (rest : Gathers files directory root (waiting ++ found) middle last) :
      Gathers files directory root (unit :: waiting) gathered last

theorem gathers_nil {gathered last : Gathered} :
    Gathers files directory root [] gathered last ↔
      (.ok gathered : Except BuildError Gathered) = .ok last := by
  rw [Except.ok.injEq]
  constructor
  · rintro ⟨⟩
    rfl
  · rintro rfl
    exact .done _

/-! ## How many units there can be -/

def listedIn (root : String) : Entry → List String
  | .directory => []
  | .file content =>
    match ClassFile.ofBytes content with
    | .error _ => []
    | .ok unit =>
      match classAt unit.pool unit.thisIndex, nestedClasses unit with
      | .ok name, .ok table => NestedClass.nestedIn table root name
      | _, _ => []

def listings (files : FileSystem) (root : String) : List String :=
  files.entries.toList.flatMap fun entry => listedIn root entry.2

theorem length_listedIn (entry : Entry) :
    (listedIn root entry).length ≤ tableLimit * tableLimit := by
  unfold listedIn
  split
  next => simp
  next content =>
    split
    next => simp
    next unit decodes =>
      split
      next name table isNamed lists =>
        have lines := length_nestedEntries decodes
        have long := (mapM_eq_ok.mp lists).length_eq
        have kept := List.length_filter_le
          (fun nested => decide (nested ≠ name) && (root ++ "$").toList.isPrefixOf nested.toList)
          (table.map (·.name))
        rw [List.length_map] at kept
        rw [NestedClass.nestedIn]
        omega
      next => simp

theorem length_listings :
    (listings files root).length ≤ files.entries.size * (tableLimit * tableLimit) := by
  rw [← Std.ExtTreeMap.length_toList]
  exact length_flatMap_le _ fun entry _ => length_listedIn entry.2

def IsStored (files : FileSystem) (unit : ClassFile) : Prop :=
  ∃ (place : Place) (content : Bytes), files.entries[place]? = some (.file content) ∧
    ClassFile.ofBytes content = .ok unit

theorem IsStored.mem_listings {unit : ClassFile} (stored : IsStored files unit) {name : String}
    {table : List NestedClass} {mentions : List Mention} (reveals : Reveals unit name table mentions)
    {nested : String} (member : nested ∈ NestedClass.nestedIn table root name) :
    nested ∈ listings files root := by
  obtain ⟨place, content, found, decodes⟩ := stored
  refine List.mem_flatMap.mpr
    ⟨(place, .file content), Std.ExtTreeMap.mem_toList_iff_getElem?_eq_some.mpr found, ?_⟩
  simpa only [listedIn, decodes, reveals.isNamed, reveals.lists] using member

theorem isStored_of_read {path : Path} {content : Bytes} {unit : ClassFile}
    (reads : files.read path = .ok content) (decodes : ClassFile.ofBytes content = .ok unit) :
    IsStored files unit := by
  obtain ⟨place, -, found, -⟩ := FileSystem.read_eq_ok_iff_entryAt?.mp reads
  cases place with
  | nil => cases found
  | cons first names => exact ⟨first :: names, content, found, decodes⟩

/-- What holds between two units: the names found so far are different lines of tables, and with
`count` more units none is left out. -/
structure Bounded (files : FileSystem) (root : String) (count : Nat) (waiting : List LoadedUnit)
    (gathered : Gathered) : Prop where
  stored : ∀ loaded ∈ waiting, IsStored files loaded.unit
  distinct : gathered.nested.Nodup
  listed : gathered.nested ⊆ listings files root
  enough : waiting.length + (listings files root).length ≤ count + gathered.nested.length

theorem Bounded.step {count : Nat} {loaded : LoadedUnit} {waiting found : List LoadedUnit}
    {gathered next : Gathered} (bounded : Bounded files root (count + 1) (loaded :: waiting) gathered)
    (advances : gather files directory root loaded gathered = .ok (found, next)) :
    Bounded files root count (waiting ++ found) next := by
  obtain ⟨name, table, mentions, units, reveals, finds, rfl, rfl⟩ := gather_eq_ok.mp advances
  have each := mapM_eq_ok.mp finds
  have stored := bounded.stored loaded (.head _)
  have few : (units.flatMap Option.toList).length ≤ units.length * 1 :=
    length_flatMap_le _ fun unit? _ => by cases unit? <;> simp
  have long := each.length_eq
  refine ⟨?_, nodup_append_unseen _ bounded.distinct, ?_, ?_⟩
  · intro other member
    rcases List.mem_append.mp member with waits | isFound
    · exact bounded.stored other (.tail _ waits)
    · obtain ⟨unit?, listed, isUnit⟩ := List.mem_flatMap.mp isFound
      obtain rfl := Option.mem_toList.mp isUnit
      obtain ⟨nested, -, loads⟩ := exists_of_mem_results finds listed
      obtain ⟨content, reads, decodes⟩ := loadNested_eq_some.mp loads
      exact isStored_of_read reads (decodeUnit_eq_ok.mp decodes).2
  · refine List.append_subset.mpr ⟨bounded.listed, fun nested member => ?_⟩
    exact stored.mem_listings reveals (mem_of_mem_unseen member)
  · have enough := bounded.enough
    simp only [List.length_append, List.length_cons] at enough ⊢
    omega

/-- Each name that was found is a line of its own, so once nothing is left of the count no unit waits
any more. -/
theorem Bounded.waiting_eq_nil {waiting : List LoadedUnit} {gathered : Gathered}
    (bounded : Bounded files root 0 waiting gathered) : waiting = [] := by
  have short := (List.Nodup.subperm bounded.distinct bounded.listed).length_le
  have enough := bounded.enough
  exact List.eq_nil_of_length_eq_zero (by omega)

theorem Bounded.gatherAll_eq_ok {count : Nat} {waiting : List LoadedUnit} {gathered last : Gathered}
    (bounded : Bounded files root count waiting gathered) :
    gatherAll files directory root count waiting gathered = .ok last ↔
      Gathers files directory root waiting gathered last := by
  induction count generalizing waiting gathered with
  | zero =>
      obtain rfl := bounded.waiting_eq_nil
      exact gathers_nil.symm
  | succ count ih =>
      cases waiting with
      | nil => exact gathers_nil.symm
      | cons loaded waiting =>
          rw [gatherAll, bind_eq_ok]
          constructor
          · rintro ⟨⟨found, middle⟩, advances, rest⟩
            exact .step advances ((ih (bounded.step advances)).mp rest)
          · rintro (_ | ⟨advances, rest⟩)
            exact ⟨_, advances, (ih (bounded.step advances)).mpr rest⟩

theorem bounded_unitBound {loaded : LoadedUnit} (stored : IsStored files loaded.unit) :
    Bounded files root (unitBound files) [loaded] {} := by
  refine ⟨by simpa using stored, List.nodup_nil, by simp, ?_⟩
  have few : (listings files root).length ≤ _ := length_listings
  simp only [List.length_cons, List.length_nil, unitBound]
  omega

theorem gatherAll_unitBound {loaded : LoadedUnit} {last : Gathered}
    (stored : IsStored files loaded.unit) :
    gatherAll files directory root (unitBound files) [loaded] {} = .ok last ↔
      Gathers files directory root [loaded] {} last :=
  (bounded_unitBound stored).gatherAll_eq_ok

theorem read_eq_ok {path : Path} {abi : SourceAbi} :
    Surface.read files path = .ok abi ↔ ∃ content loaded root gathered,
      files.read path = .ok content ∧ decodeUnit path content = .ok loaded ∧
        classAt loaded.unit.pool loaded.unit.thisIndex = .ok root ∧
        Gathers files (path.parent?.getD ⟨""⟩) root [loaded] {} gathered ∧
        abi =
          { SourceAbi.ofTypes root (gathered.types root false) (gathered.types root true) with
            sourceFileName := sourceFileName loaded.unit
            innerClassNames := Names.ofList gathered.nested } := by
  rw [Surface.read, bind_eq_ok]
  simp only [mapError_eq_ok, bind_eq_ok, malformed]
  constructor
  · rintro ⟨content, reads, loaded, decodes, root, isNamed, gathered, gathers, same⟩
    have stored := isStored_of_read reads (decodeUnit_eq_ok.mp decodes).2
    exact ⟨content, loaded, root, gathered, reads, decodes, isNamed,
      (gatherAll_unitBound stored).mp gathers, (Except.ok.inj same).symm⟩
  · rintro ⟨content, loaded, root, gathered, reads, decodes, isNamed, gathers, rfl⟩
    have stored := isStored_of_read reads (decodeUnit_eq_ok.mp decodes).2
    exact ⟨content, reads, loaded, decodes, root, isNamed, gathered,
      (gatherAll_unitBound stored).mpr gathers, rfl⟩

end AbiBuild.Surface
