import AbiBuild.Build.World
import AbiBuild.Proofs.Files.Within

/-!
# What calls on files leave alone

A call changes a tree only around the path that it is given: at or below that path, and in the
directories that lead to it.
-/

namespace AbiBuild.Files.FileSystem

open AbiBuild.Files.Path

variable {files : FileSystem}

/-! ## Attempts -/

section Calls

variable {related : FileSystem → FileSystem → Prop} [Accumulates related]

theorem within_refusals (root : Path) (files : FileSystem) (refusals : List (Option IoFault)) :
    Within root files { files with refusals } where
  host := rfl
  wellFormed wellFormed := ⟨wellFormed.names, wellFormed.rooted, wellFormed.parents⟩
  elsewhere _ _ _ := rfl

theorem clears_refusals (root : Path) (files : FileSystem) (refusals : List (Option IoFault)) :
    Clears root files { files with refusals } :=
  ⟨within_refusals root files refusals, fun _ _ => id⟩

/-- A call takes one refusal, and does what its change does, or nothing; then the host has refused or
the change has failed. -/
theorem ends_attempt_drop {change : FileSystem → Except IoFault FileSystem} {files : FileSystem}
    {done : Unit → FileSystem → Prop} {failed : IoFault → FileSystem → Prop}
    (succeeds : ∀ next, change { files with refusals := files.refusals.drop 1 } = .ok next →
      done () next)
    (fails : ∀ fault, some fault ∈ files.refusals ∨
      change { files with refusals := files.refusals.drop 1 } = .error fault →
        failed fault { files with refusals := files.refusals.drop 1 }) :
    Ends (attempt change) files done failed := by
  unfold Ends attempt
  dsimp only
  cases refused : files.refusals.head?.join with
  | some fault =>
      rw [Option.join_eq_some_iff] at refused
      exact fails fault (.inl (List.mem_of_mem_head? refused))
  | none =>
      cases changed : change { files with refusals := files.refusals.drop 1 } with
      | ok next => simpa [changed] using succeeds next changed
      | error fault => simpa [changed] using fails fault (.inr changed)

theorem ends_attempt {change : FileSystem → Except IoFault FileSystem} {files : FileSystem}
    {done : Unit → FileSystem → Prop} {failed : IoFault → FileSystem → Prop}
    (succeeds : ∀ refusals next, change { files with refusals } = .ok next → done () next)
    (fails : ∀ fault refusals, some fault ∈ files.refusals ∨
      change { files with refusals } = .error fault → failed fault { files with refusals }) :
    Ends (attempt change) files done failed :=
  ends_attempt_drop (fun next => succeeds _ next) fun fault => fails fault _

theorem moves_attempt {change : FileSystem → Except IoFault FileSystem}
    (refusals : ∀ files refusals, related files { files with refusals })
    (each : ∀ files next, change files = .ok next → related files next) :
    Moves related (attempt change) := by
  intro files
  refine ends_attempt ?_ fun fault rest _ => refusals files rest
  intro rest next changed
  exact Accumulates.trans (refusals files rest) (each _ _ changed)

theorem moves_inspect {α : Type} (look : FileSystem → α) : Moves related (inspect look) :=
  fun files => Accumulates.refl files

theorem ends_ignoreMissing {action : FileAction Unit} {done : Unit → FileSystem → Prop}
    {failed : IoFault → FileSystem → Prop}
    (ends : Ends action files done fun fault next =>
      if fault = .notFound then done () next else failed fault next) :
    Ends (ignoreMissing action) files done failed := by
  unfold Ends at ends ⊢
  rw [ignoreMissing]
  cases result : action files with
  | ok value next => simpa [result] using ends
  | error fault next => cases fault <;> simpa [result] using ends

omit [Accumulates related] in
theorem moves_ignoreMissing {action : FileAction Unit} (moves : Moves related action) :
    Moves related (ignoreMissing action) := by
  intro files
  refine ends_ignoreMissing ((moves files).imp (fun _ _ moved => moved) fun fault _ moved => ?_)
  split <;> exact moved

end Calls

/-! ## What each change does -/

section Each

variable {path source target : Path} {content : Bytes} {next : FileSystem}

theorem placedFile_eq_ok_iff : files.placedFile path content = .ok next ↔ ∃ place,
    files.placeOf path = .ok place ∧ files.entryAt? place ≠ some .directory ∧
      (files.entryAt? place = none → (steps path).getLast? ≠ some "") ∧
      next = files.setEntry place (.file content) := by
  rw [placedFile, bind_eq_ok]
  refine exists_congr fun place => and_congr_right fun _ => ?_
  cases files.entryAt? place with
  | none =>
      by_cases blank : (steps path).getLast? = some "" <;>
        simp [blank, throw, throwThe, MonadExceptOf.throw, pure, Except.pure, eq_comm]
  | some entry =>
      cases entry <;> simp [throw, throwThe, MonadExceptOf.throw, pure, Except.pure, eq_comm]

theorem madeDirectory_eq_ok_iff : files.madeDirectory path = .ok next ↔ ∃ place,
    files.placeOf (withoutEndSeparators path) = .ok place ∧ files.entryAt? place = none ∧
      next = files.setEntry place .directory := by
  rw [madeDirectory, bind_eq_ok]
  refine exists_congr fun place => and_congr_right fun _ => ?_
  cases files.entryAt? place <;>
    simp [throw, throwThe, MonadExceptOf.throw, pure, Except.pure, eq_comm]

theorem withoutFile_eq_ok_iff : files.withoutFile path = .ok next ↔ ∃ place content,
    files.placeOf path = .ok place ∧ files.entryAt? place = some (.file content) ∧
      next = files.dropEntry place := by
  rw [withoutFile, bind_eq_ok]
  refine exists_congr fun place => ?_
  rw [exists_and_left]
  refine and_congr_right fun _ => ?_
  cases files.entryAt? place with
  | none => simp [throw, throwThe, MonadExceptOf.throw]
  | some entry =>
      cases entry <;> simp [throw, throwThe, MonadExceptOf.throw, pure, Except.pure, eq_comm]

theorem emptied_eq_ok_iff : files.emptied path = .ok next ↔ ∃ place,
    files.placeOf path = .ok place ∧ files.entryAt? place = some .directory ∧
      next = files.dropBelow place := by
  rw [emptied, bind_eq_ok]
  refine exists_congr fun place => and_congr_right fun _ => ?_
  cases files.entryAt? place with
  | none => simp [throw, throwThe, MonadExceptOf.throw]
  | some entry =>
      cases entry <;> simp [throw, throwThe, MonadExceptOf.throw, pure, Except.pure, eq_comm]

theorem withoutDirectory_eq_ok_iff : files.withoutDirectory path = .ok next ↔ ∃ place,
    files.placeOf path = .ok place ∧
      (steps (withoutEndSeparators path)).getLast? ≠ some "." ∧
      (steps (withoutEndSeparators path)).getLast? ≠ some ".." ∧ next = files.dropTree place := by
  rw [withoutDirectory, bind_eq_ok]
  refine exists_congr fun place => and_congr_right fun _ => ?_
  split
  next current => simp [current, throw, throwThe, MonadExceptOf.throw]
  next parent => simp [parent, throw, throwThe, MonadExceptOf.throw]
  next current parent =>
    constructor
    · exact fun same => ⟨current, parent, (Except.ok.inj same).symm⟩
    · rintro ⟨-, -, rfl⟩
      rfl

theorem renamed_eq_ok_iff : files.renamed source target = .ok next ↔
    ∃ place targetPlace content,
      files.placeOf source = .ok place ∧ files.placeOf target = .ok targetPlace ∧
      files.entryAt? place = some (.file content) ∧
      files.entryAt? targetPlace ≠ some .directory ∧
      next = (files.dropEntry place).setEntry targetPlace (.file content) := by
  simp only [renamed, bind_eq_ok]
  refine exists_congr fun place => ?_
  simp only [exists_and_left]
  refine and_congr_right fun _ => exists_congr fun targetPlace => and_congr_right fun _ => ?_
  cases files.entryAt? place with
  | none => simp [throw, throwThe, MonadExceptOf.throw]
  | some entry =>
      cases files.entryAt? targetPlace with
      | none => cases entry <;> simp [throw, throwThe, MonadExceptOf.throw, pure, Except.pure, eq_comm]
      | some other =>
          cases entry <;> cases other <;>
            simp [throw, throwThe, MonadExceptOf.throw, pure, Except.pure, eq_comm]

end Each
section Changes

variable {root path : Path}

theorem exists_parent_of_placeOf (plain : path.Plain) {place : Place}
    (leads : files.placeOf path = .ok place) : place = files.placeFor path ∧ ∃ above name,
      place = above ++ [name] ∧ IsName name ∧ files.entryAt? above = some .directory := by
  obtain ⟨-, here, directories⟩ := (placeOf_eq_ok plain).mp leads
  refine ⟨here, ?_⟩
  rcases List.eq_nil_or_concat (steps path) with empty | ⟨front, name, split⟩
  · exact absurd empty plain.steps_ne_nil
  · rw [List.concat_eq_append] at split
    refine ⟨files.baseOf path ++ front, name, ?_, plain.2 name (by simp [split]),
      directories front name [] split⟩
    rw [here, placeFor, split, List.append_assoc]

theorem touches_setEntry (plain : path.Plain) {entry : Entry}
    (leads : files.placeOf path = .ok (files.placeFor path))
    (leaf : files.entries[files.placeFor path]? ≠ some .directory) :
    Touches [path] files (files.setEntry (files.placeFor path) entry) := by
  obtain ⟨-, above, name, split, isName, directory⟩ := exists_parent_of_placeOf plain leads
  refine ⟨rfl, ?_, ?_⟩
  · intro wellFormed
    rw [split] at leaf ⊢
    exact wellFormed.setEntry directory isName leaf
  · intro other apart
    rw [getElem?_setEntry, if_neg (apart path (.head _)).symm]

theorem placedFile_eq_ok (plain : path.Plain) {content : Bytes} {next : FileSystem}
    (placed : files.placedFile path content = .ok next) :
    files.placeOf path = .ok (files.placeFor path) ∧
      files.entries[files.placeFor path]? ≠ some .directory ∧
      next = files.setEntry (files.placeFor path) (.file content) := by
  obtain ⟨place, leads, free, -, rfl⟩ := placedFile_eq_ok_iff.mp placed
  obtain ⟨-, rfl, -⟩ := (placeOf_eq_ok plain).mp leads
  rw [entryAt?_of_ne_nil _ (placeFor_ne_nil plain)] at free
  exact ⟨leads, free, rfl⟩

theorem touches_placedFile (plain : path.Plain) {content : Bytes} {next : FileSystem}
    (placed : files.placedFile path content = .ok next) : Touches [path] files next := by
  obtain ⟨leads, leaf, rfl⟩ := placedFile_eq_ok plain placed
  exact touches_setEntry plain leads leaf

theorem touches_refusals (paths : List Path) (files : FileSystem)
    (refusals : List (Option IoFault)) : Touches paths files { files with refusals } where
  host := rfl
  wellFormed wellFormed := ⟨wellFormed.names, wellFormed.rooted, wellFormed.parents⟩
  elsewhere _ _ := rfl

theorem moves_write (plain : path.Plain) (content : Bytes) :
    Moves (Touches [path]) (write path content) :=
  moves_attempt (touches_refusals [path]) fun _ _ => touches_placedFile plain

theorem madeDirectory_eq_ok (plain : path.Plain) {next : FileSystem}
    (made : files.madeDirectory path = .ok next) :
    files.placeOf path = .ok (files.placeFor path) ∧
      files.entries[files.placeFor path]? = none ∧
      next = files.setEntry (files.placeFor path) .directory := by
  obtain ⟨place, leads, free, rfl⟩ := madeDirectory_eq_ok_iff.mp made
  rw [plain.withoutEndSeparators_eq] at leads
  obtain ⟨-, rfl, -⟩ := (placeOf_eq_ok plain).mp leads
  rw [entryAt?_of_ne_nil _ (placeFor_ne_nil plain)] at free
  exact ⟨leads, free, rfl⟩

theorem touches_madeDirectory (plain : path.Plain) {next : FileSystem}
    (made : files.madeDirectory path = .ok next) : Touches [path] files next := by
  obtain ⟨leads, free, rfl⟩ := madeDirectory_eq_ok plain made
  exact touches_setEntry plain leads (by simp [free])

theorem moves_makeDirectory (near : Near root path) : Moves (Within root) (makeDirectory path) := by
  refine moves_attempt (within_refusals root) fun _ _ made => ?_
  exact (touches_madeDirectory near.plain made).within (by simpa using near)

theorem spares_madeDirectory (plain : path.Plain) (other : Path) {next : FileSystem}
    (made : files.madeDirectory path = .ok next) : Spares other files next where
  host := (touches_madeDirectory plain made).host
  old content found := by
    obtain ⟨-, -, rfl⟩ := madeDirectory_eq_ok plain made
    rw [getElem?_setEntry] at found
    split at found
    next => cases found
    next => exact found

theorem leaves_madeDirectory (plain : path.Plain) (other : Path) {next : FileSystem}
    (made : files.madeDirectory path = .ok next) : Leaves other files next where
  host := (touches_madeDirectory plain made).host
  wellFormed := (touches_madeDirectory plain made).wellFormed
  stays content found := by
    obtain ⟨-, free, rfl⟩ := madeDirectory_eq_ok plain made
    rw [getElem?_setEntry, if_neg, placeFor_setEntry, found]
    intro same
    rw [placeFor_setEntry] at same
    rw [same, found] at free
    cases free

theorem leaves_refusals (path : Path) (files : FileSystem) (refusals : List (Option IoFault)) :
    Leaves path files { files with refusals } :=
  (touches_refusals [] files refusals).leaves (by simp)

theorem spares_refusals (path : Path) (files : FileSystem) (refusals : List (Option IoFault)) :
    Spares path files { files with refusals } :=
  ⟨rfl, fun _ => id⟩

private theorem isDirectory_root (files : FileSystem) : files.isDirectory ⟨"/"⟩ = true := by
  have steps : steps ⟨"/"⟩ = [""] := by decide +kernel
  have absolute : (Path.mk "/").isAbsolute = true := by decide +kernel
  have leads : files.placeOf ⟨"/"⟩ = .ok [] := by
    rw [placeOf, if_neg (by decide +kernel), if_neg (by decide +kernel), if_neg (by decide +kernel),
      steps, absolute]
    rfl
  exact isDirectory_iff_entryAt?.mpr ⟨[], leads, rfl⟩

private theorem near_parent (near : Near root path) {parent : Path}
    (above : path.parent? = some parent) :
    Near root parent ∨ parent.text = "" ∨ parent = ⟨"/"⟩ := by
  rcases near.plain.exists_eq_join_or_single with ⟨base, name, plain, isName, rfl⟩ | ⟨-, top⟩
  · rw [plain.parent?_join isName] at above
    obtain rfl := Option.some.inj above
    refine .inl ⟨plain, ?_, ?_⟩
    · rw [← near.sameBase, plain.isAbsolute_join isName.whole]
    · have leads := near.leads
      rw [plain.steps_join isName.whole] at leads
      rcases leads with below | beyond
      · rcases List.prefix_concat_iff.mp below with same | further
        · rw [same]
          exact .inr (List.prefix_append _ _)
        · exact .inl further
      · exact .inr ((List.prefix_append _ _).trans beyond)
  · rw [top] at above
    obtain rfl := Option.some.inj above
    split
    · exact .inr (.inr rfl)
    · exact .inr (.inl rfl)

theorem makeDirectoriesWithin_top (count : Nat) {path : Path}
    (top : path.text = "" ∨ path = ⟨"/"⟩) (files : FileSystem) :
    makeDirectoriesWithin count path files = .ok () files := by
  rcases top with empty | rfl
  · cases count with
    | zero => rw [makeDirectoriesWithin, if_pos empty]; rfl
    | succ count => rw [makeDirectoriesWithin, if_pos empty]; rfl
  · have there := isDirectory_root files
    have named : (Path.mk "/").text ≠ "" := by decide +kernel
    cases count with
    | zero =>
        rw [makeDirectoriesWithin, if_neg named]
        simp only [makeMissing, bind, EStateM.bind, inspect, there, if_true]
        rfl
    | succ count =>
        rw [makeDirectoriesWithin, if_neg named]
        simp only [bind, EStateM.bind, inspect, there, if_true]
        rfl

theorem moves_makeDirectoriesWithin {related : FileSystem → FileSystem → Prop}
    [Accumulates related] (each : ∀ path, Near root path → Moves related (makeDirectory path))
    (count : Nat) (near : Near root path ∨ path.text = "" ∨ path = ⟨"/"⟩) :
    Moves related (makeDirectoriesWithin count path) := by
  have makeMissing : ∀ {path}, Near root path → Moves related (makeMissing path) := by
    intro path near
    refine Moves.bind (moves_inspect _) fun there => ?_
    split
    · exact Moves.pure _
    · exact each path near
  induction count generalizing path with
  | zero =>
      rcases near with near | top
      · rw [makeDirectoriesWithin, if_neg near.plain.1]
        exact makeMissing near
      · intro files
        rw [Ends, makeDirectoriesWithin_top 0 top]
        exact Accumulates.refl files
  | succ count ih =>
      rcases near with near | top
      · rw [makeDirectoriesWithin, if_neg near.plain.1]
        refine Moves.bind (moves_inspect _) fun there => ?_
        split
        · exact Moves.pure _
        refine Moves.bind (moves_inspect _) fun made => ?_
        dsimp only
        split
        next parent above =>
          exact Moves.bind (ih (near_parent near above)) fun _ => makeMissing near
        next => exact makeMissing near
      · intro files
        rw [Ends, makeDirectoriesWithin_top (count + 1) top]
        exact Accumulates.refl files

theorem moves_makeDirectories (near : Near root path) :
    Moves (Within root) (makeDirectories path) :=
  moves_makeDirectoriesWithin (fun _ => moves_makeDirectory) _ (.inl near)

theorem moves_makeDirectories_spares (plain : path.Plain) (other : Path) :
    Moves (Spares other) (makeDirectories path) :=
  moves_makeDirectoriesWithin (fun _ near => moves_attempt (spares_refusals other)
    fun _ _ => spares_madeDirectory near.plain other) _ (.inl (Below.refl plain).near)

theorem moves_makeDirectories_leaves (plain : path.Plain) (other : Path) :
    Moves (Leaves other) (makeDirectories path) :=
  moves_makeDirectoriesWithin (fun _ near => moves_attempt (leaves_refusals other)
    fun _ _ => leaves_madeDirectory near.plain other) _ (.inl (Below.refl plain).near)

/-! ## Removing -/

theorem withoutFile_eq_ok (plain : path.Plain) {next : FileSystem}
    (removed : files.withoutFile path = .ok next) :
    (∃ content, files.entries[files.placeFor path]? = some (.file content)) ∧
      next = files.dropEntry (files.placeFor path) := by
  obtain ⟨place, content, leads, found, rfl⟩ := withoutFile_eq_ok_iff.mp removed
  obtain ⟨-, rfl, -⟩ := (placeOf_eq_ok plain).mp leads
  rw [entryAt?_of_ne_nil _ (placeFor_ne_nil plain)] at found
  exact ⟨⟨content, found⟩, rfl⟩

theorem touches_withoutFile (plain : path.Plain) {next : FileSystem}
    (removed : files.withoutFile path = .ok next) : Touches [path] files next := by
  obtain ⟨⟨content, found⟩, rfl⟩ := withoutFile_eq_ok plain removed
  refine ⟨rfl, fun wellFormed => wellFormed.dropEntry (by simp [found]), ?_⟩
  intro place apart
  rw [getElem?_dropEntry, if_neg (apart path (.head _)).symm]

theorem staysAt_withoutFile {other : Path} {name : String} (isName : IsName name)
    (last : (steps path).getLast? = some name)
    (different : (files.placeFor other).getLast? ≠ some name) {next : FileSystem}
    (removed : files.withoutFile path = .ok next) : StaysAt other files next := by
  obtain ⟨place, content, leads, found, rfl⟩ := withoutFile_eq_ok_iff.mp removed
  have named := getLast?_of_placeOf isName last leads
  rw [entryAt?_of_ne_nil files (by rintro rfl; cases named)] at found
  refine fun wellFormed => ⟨rfl, wellFormed.dropEntry (by simp [found]), ?_⟩
  rw [getElem?_dropEntry, placeFor_dropEntry, if_neg]
  rintro rfl
  exact different named

theorem ends_removeFile_at (plain : path.Plain) (files : FileSystem) :
    Ends (ignoreMissing (removeFile path)) files (fun _ next => StaysOrGoes path files next)
      (fun _ next => StaysAt path files next) := by
  refine ends_ignoreMissing (ends_attempt ?_ ?_)
  · intro refusals next removed wellFormed
    have touches := Accumulates.trans (touches_refusals [path] files refusals)
      (touches_withoutFile plain removed)
    obtain ⟨-, rfl⟩ := withoutFile_eq_ok plain removed
    refine .inr ⟨touches.host, touches.wellFormed wellFormed, ?_⟩
    rw [getElem?_dropEntry, placeFor_dropEntry, if_pos rfl]
  · intro fault refusals _
    have stays := staysAt_refusals path files refusals
    split
    · exact stays.staysOrGoes
    · exact stays

theorem clears_withoutFile (near : Near root path) {next : FileSystem}
    (removed : files.withoutFile path = .ok next) : Clears root files next := by
  refine ⟨(touches_withoutFile near.plain removed).within (by simpa using near), ?_⟩
  obtain ⟨-, rfl⟩ := withoutFile_eq_ok near.plain removed
  intro place entry kept
  rw [getElem?_dropEntry] at kept
  split at kept
  next => cases kept
  next => exact kept

theorem moves_removeFile (near : Near root path) : Moves (Clears root) (removeFile path) :=
  moves_attempt (clears_refusals root) fun _ _ => clears_withoutFile near

theorem clears_emptied (below : Below root path) {next : FileSystem}
    (emptied : files.emptied path = .ok next) : Clears root files next := by
  obtain ⟨place, leads, -, rfl⟩ := emptied_eq_ok_iff.mp emptied
  obtain ⟨-, rfl, -⟩ := (placeOf_eq_ok below.plain).mp leads
  refine ⟨⟨rfl, fun wellFormed => wellFormed.dropBelow _, ?_⟩, ?_⟩
  · intro place apart _
    rw [getElem?_dropBelow, if_neg]
    exact fun inside => apart ((below.placeFor files).trans inside.1)
  · intro place entry kept
    rw [getElem?_dropBelow] at kept
    split at kept
    next => cases kept
    next => exact kept

theorem clears_withoutDirectory (below : Below root path) {next : FileSystem}
    (removed : files.withoutDirectory path = .ok next) : Clears root files next := by
  obtain ⟨place, leads, -, -, rfl⟩ := withoutDirectory_eq_ok_iff.mp removed
  obtain ⟨-, rfl, -⟩ := (placeOf_eq_ok below.plain).mp leads
  refine ⟨⟨rfl, fun wellFormed => wellFormed.dropTree _, ?_⟩, ?_⟩
  · intro place apart _
    rw [getElem?_dropTree, if_neg]
    exact fun inside => apart ((below.placeFor files).trans inside)
  · intro place entry kept
    rw [getElem?_dropTree] at kept
    split at kept
    next => cases kept
    next => exact kept

theorem moves_removeTree (below : Below root path) : Moves (Clears root) (removeTree path) :=
  Moves.bind (moves_attempt (clears_refusals root) fun _ _ => clears_emptied below) fun _ =>
    moves_attempt (clears_refusals root) fun _ _ => clears_withoutDirectory below

theorem keeps_refusals (root : Path) (files : FileSystem) (refusals : List (Option IoFault)) :
    Keeps root files { files with refusals } where
  host := rfl
  wellFormed wellFormed := ⟨wellFormed.names, wellFormed.rooted, wellFormed.parents⟩
  same _ _ := rfl

def Bare (path : Path) (files : FileSystem) : Prop :=
  ∀ place : Place, files.placeFor path <+: place → place ≠ files.placeFor path →
    files.entries[place]? = none

theorem bare_of_missing (wellFormed : files.WellFormed) {above : Place}
    (leads : above <+: files.placeFor path) (missing : files.entryAt? above = none) :
    Bare path files := by
  intro place inside further
  obtain ⟨rest, rfl⟩ := leads.trans inside
  cases found : files.entries[above ++ rest]? with
  | none => rfl
  | some entry =>
      have directory := wellFormed.entryAt?_of_prefix found <| by
        rintro rfl
        rw [List.append_nil] at inside further
        exact further (leads.eq_of_length_le inside.length_le)
      rw [missing] at directory
      cases directory

theorem Bare.mono {root : Path} (bare : Bare root files) (below : Below root path) :
    Bare path files := by
  intro place inside further
  refine bare place ((below.placeFor files).trans inside) ?_
  rintro rfl
  exact further ((below.placeFor files).eq_of_length_le inside.length_le)

theorem bare_emptied (plain : path.Plain) {next : FileSystem}
    (emptied : files.emptied path = .ok next) : Bare path next := by
  obtain ⟨place, leads, -, rfl⟩ := emptied_eq_ok_iff.mp emptied
  obtain ⟨-, rfl, -⟩ := (placeOf_eq_ok plain).mp leads
  intro place inside further
  rw [getElem?_dropBelow, if_pos ⟨inside, further⟩]

theorem bare_of_emptied_missing (wellFormed : files.WellFormed) (plain : path.Plain)
    (fails : files.emptied path = .error .notFound) : Bare path files := by
  rw [emptied] at fails
  cases leads : files.placeOf path with
  | error fault =>
      rw [leads] at fails
      obtain rfl := Except.error.inj fails
      obtain ⟨above, leads, missing⟩ := missing_of_placeOf plain leads
      exact bare_of_missing wellFormed leads missing
  | ok place =>
      rw [leads] at fails
      obtain ⟨-, rfl, -⟩ := (placeOf_eq_ok plain).mp leads
      dsimp only [bind, Except.bind] at fails
      cases found : files.entryAt? (files.placeFor path) with
      | none => exact bare_of_missing wellFormed (List.prefix_refl _) found
      | some entry =>
          rw [found] at fails
          cases entry <;> cases fails

theorem Clears.bare {before after : FileSystem} (clears : Clears root before after)
    (bare : Bare path before) : Bare path after := by
  intro place inside further
  rw [placeFor_congr clears.host] at inside further
  cases found : after.entries[place]? with
  | none => rfl
  | some entry =>
      rw [← bare place inside further]
      exact (clears.kept place entry found).symm

theorem moves_removeTree_whole (plain : path.Plain) :
    Moves (fun before after => Keeps path before after ∨ Bare path after) (removeTree path) := by
  intro files
  rw [removeTree, ends_bind]
  refine ends_attempt ?_ fun fault rest _ => .inl (keeps_refusals path files rest)
  intro rest middle emptied
  have bare := bare_emptied plain emptied
  have removes : Moves (Clears path) (attempt fun files => files.withoutDirectory path) :=
    moves_attempt (clears_refusals path) fun _ _ => clears_withoutDirectory (.refl plain)
  exact (removes middle).imp (fun _ _ clears => .inr (clears.bare bare))
    fun _ _ clears => .inr (clears.bare bare)

/-- Where the host does not say of what is there that it is missing, a tree is gone once it was
removed. -/
theorem ends_removeTree_bare (wellFormed : files.WellFormed) (plain : path.Plain)
    (honest : some .notFound ∉ files.refusals) :
    Ends (ignoreMissing (removeTree path)) files (fun _ next => Bare path next)
      (fun _ _ => True) := by
  refine ends_ignoreMissing ?_
  rw [removeTree, ends_bind]
  refine ends_attempt ?_ ?_
  · intro rest middle emptied
    have removes : Moves (Clears path) (attempt fun files => files.withoutDirectory path) :=
      moves_attempt (clears_refusals path) fun _ _ => clears_withoutDirectory (.refl plain)
    refine (removes middle).imp (fun _ _ clears => clears.bare (bare_emptied plain emptied)) ?_
    intro fault next clears
    split
    · exact clears.bare (bare_emptied plain emptied)
    · trivial
  · rintro fault rest (refused | fails)
    · rw [if_neg]
      · trivial
      · rintro rfl
        exact honest refused
    · split
      next missing =>
        subst missing
        exact bare_of_emptied_missing ((keeps_refusals path files rest).wellFormed wellFormed) plain
          fails
      next => trivial

theorem moves_recreateDirectory {root : Path} (plain : root.Plain) :
    Moves (Within root) (recreateDirectory root) := by
  have removes := (moves_removeTree (.refl plain)).imp fun _ _ clears => clears.toWithin
  refine Moves.bind (moves_inspect _) fun there => ?_
  dsimp only
  split
  · exact Moves.bind removes fun _ => moves_makeDirectories (Below.refl plain).near
  · exact moves_makeDirectories (Below.refl plain).near

/-! ## Replacing a file -/

structure Holds (files : FileSystem) (path : Path) (content : Bytes) : Prop where
  fits : Fits path
  found : files.entries[files.placeFor path]? = some (.file content)

theorem WellFormed.read_eq_ok_iff_holds (wellFormed : files.WellFormed) (plain : path.Plain)
    {content : Bytes} : files.read path = .ok content ↔
      files.Holds path content ∧ files.host.unreadable[files.placeFor path]? = none := by
  rw [FileSystem.read_eq_ok wellFormed plain, ← and_assoc]
  exact and_congr_left fun _ =>
    ⟨fun ⟨fits, found⟩ => ⟨fits, found⟩, fun ⟨fits, found⟩ => ⟨fits, found⟩⟩

theorem renamed_eq_ok {target : Path} (plain : path.Plain) (plainTarget : target.Plain)
    {next : FileSystem} (renamed : files.renamed path target = .ok next) : ∃ content,
      files.entries[files.placeFor path]? = some (.file content) ∧
      files.placeOf target = .ok (files.placeFor target) ∧
      files.entries[files.placeFor target]? ≠ some .directory ∧
      next = (files.dropEntry (files.placeFor path)).setEntry (files.placeFor target)
        (.file content) := by
  obtain ⟨place, targetPlace, content, leads, targetLeads, found, free, rfl⟩ :=
    renamed_eq_ok_iff.mp renamed
  obtain ⟨rfl, -⟩ := exists_parent_of_placeOf plain leads
  obtain ⟨rfl, -⟩ := exists_parent_of_placeOf plainTarget targetLeads
  rw [entryAt?_of_ne_nil _ (placeFor_ne_nil plain)] at found
  rw [entryAt?_of_ne_nil _ (placeFor_ne_nil plainTarget)] at free
  exact ⟨content, found, targetLeads, free, rfl⟩

theorem touches_renamed {target : Path} (plain : path.Plain) (plainTarget : target.Plain)
    {next : FileSystem} (renamed : files.renamed path target = .ok next) :
    Touches [path, target] files next := by
  obtain ⟨content, found, leads, free, rfl⟩ := renamed_eq_ok plain plainTarget renamed
  obtain ⟨-, above, name, split, isName, directory⟩ := exists_parent_of_placeOf plainTarget leads
  refine ⟨rfl, ?_, ?_⟩
  · intro wellFormed
    rw [split]
    refine (wellFormed.dropEntry (by simp [found])).setEntry ?_ isName ?_
    · cases above with
      | nil => rfl
      | cons first others =>
          rw [entryAt?_of_ne_nil _ (by simp)] at directory ⊢
          rw [getElem?_dropEntry, if_neg, directory]
          intro same
          rw [same, directory] at found
          cases found
    · rw [getElem?_dropEntry, ← split]
      split
      · simp
      · exact free
  · intro place apart
    rw [getElem?_setEntry, if_neg (apart target (by simp)).symm, getElem?_dropEntry,
      if_neg (apart path (by simp)).symm]

/-- A file is replaced by way of another one beside it: it gets the new content, or keeps the old
one. -/
theorem ends_replaceFile {temporary : Path} (plain : path.Plain) (plainTemporary : temporary.Plain)
    (named : path.withExtension "tmp" = temporary)
    (content : Bytes) (files : FileSystem) :
    Ends (replaceFile path content) files
      (fun _ next => Touches [temporary, path] files next ∧ next.Holds path content)
      (fun _ next => Touches [temporary] files next) := by
  rw [replaceFile, named, ends_bind]
  refine ends_attempt ?_ fun fault rest _ => touches_refusals [temporary] files rest
  intro rest written placed
  have first : Touches [temporary] files written :=
    Accumulates.trans (touches_refusals [temporary] files rest)
      (touches_placedFile plainTemporary placed)
  obtain ⟨-, -, result⟩ := placedFile_eq_ok plainTemporary placed
  refine ends_attempt ?_ fun fault rest _ =>
    Accumulates.trans first (touches_refusals _ written rest)
  intro rest' next renamed
  have middle : Touches [temporary] files { written with refusals := rest' } :=
    Accumulates.trans first (touches_refusals [temporary] written rest')
  have moved := touches_renamed plainTemporary plain renamed
  refine ⟨Accumulates.trans (middle.mono (by simp)) moved, ?_⟩
  obtain ⟨other, found, leads, -, rfl⟩ := renamed_eq_ok plainTemporary plain renamed
  refine ⟨((placeOf_eq_ok plain).mp leads).1, ?_⟩
  have same : other = content := by
    have written' : written.entries[written.placeFor temporary]? = some (.file content) := by
      rw [result, getElem?_setEntry, placeFor_setEntry, if_pos rfl]
    have found' := written'.symm.trans found
    simpa using found'.symm
  rw [same, getElem?_setEntry, placeFor_setEntry, placeFor_dropEntry, if_pos rfl]

end Changes

end AbiBuild.Files.FileSystem
