import AbiBuild.Proofs.Files.Locations
import AbiBuild.Proofs.Files.Within
import AbiBuild.Proofs.InStep
import Mathlib.Data.List.Infix

/-!
# What is out of sight

Two trees may differ only in what lies at or below some places.  Calls on paths that stay away from
these places cannot tell the two trees apart, and leave there what was there before.
-/

namespace AbiBuild.Files

open FileSystem AbiBuild.Files.Path

structure Veil where
  hidden : List Place
  before : FileSystem
  before' : FileSystem

namespace Veil

def home (veil : Veil) : Place := veil.before.host.workingDirectory

def Hides (veil : Veil) (place : Place) : Prop := ∃ above ∈ veil.hidden, above <+: place

instance (veil : Veil) : DecidablePred veil.Hides :=
  fun place => inferInstanceAs (Decidable (∃ above ∈ veil.hidden, above <+: place))

/-- Two trees that are the same but for what is hidden, which is as it was at the start in each. -/
structure Alike (veil : Veil) (files other : FileSystem) : Prop where
  host : files.host = veil.before.host
  host' : other.host = veil.before'.host
  home' : other.host.workingDirectory = veil.home
  readable : ∀ place : Place, ¬veil.Hides place →
    other.host.unreadable[place]? = files.host.unreadable[place]?
  refusals : other.refusals = files.refusals
  named : ∀ (place : Place) (entry : Entry), files.entries[place]? = some entry →
    ∀ name ∈ place, IsName name
  homeNamed : ∀ name ∈ veil.home, IsName name
  shown : ∀ place : Place, ¬veil.Hides place → other.entries[place]? = files.entries[place]?
  stays : ∀ place : Place, veil.Hides place → files.entries[place]? = veil.before.entries[place]?
  stays' : ∀ place : Place, veil.Hides place → other.entries[place]? = veil.before'.entries[place]?

/-- Nothing on the way along the path is hidden. -/
def Shows (veil : Veil) (path : Path) : Prop :=
  ∀ front, front <+: path.location → ¬veil.Hides (front.foldl Component.follow veil.home)

instance (veil : Veil) (path : Path) : Decidable (veil.Shows path) :=
  decidable_of_iff (∀ front ∈ path.location.inits,
    ¬veil.Hides (front.foldl Component.follow veil.home)) (by simp [Shows])

structure Clears (veil : Veil) (path : Path) : Prop where
  shows : veil.Shows path
  below : ∀ above ∈ veil.hidden, ¬path.placeFrom veil.home <+: above

instance (veil : Veil) (path : Path) : Decidable (veil.Clears path) :=
  decidable_of_iff (veil.Shows path ∧ ∀ above ∈ veil.hidden, ¬path.placeFrom veil.home <+: above)
    ⟨fun ⟨shows, below⟩ => ⟨shows, below⟩, fun clears => ⟨clears.shows, clears.below⟩⟩

variable {veil : Veil} {base path other : Path} {place : Place} {more : List String}

/-! ## Which paths stay away -/

theorem Shows.of_prefix (shows : veil.Shows path) (leads : other.location <+: path.location) :
    veil.Shows other :=
  fun _ further => shows _ (further.trans leads)

theorem Shows.congr (shows : veil.Shows path) (same : other.location = path.location) :
    veil.Shows other :=
  shows.of_prefix (same ▸ List.prefix_refl _)

theorem Shows.not_hides (shows : veil.Shows path) : ¬veil.Hides (path.placeFrom veil.home) :=
  shows _ (List.prefix_refl _)

theorem Shows.of_location (shows : veil.Shows base)
    (location : path.location = base.location ++ more.map .name)
    (further : ∀ front, front <+: more → ¬veil.Hides (base.placeFrom veil.home ++ front)) :
    veil.Shows path := by
  intro front leads
  rw [location] at leads
  rcases List.prefix_or_prefix_of_prefix leads (List.prefix_append _ _) with earlier | ⟨rest, rfl⟩
  · exact shows front earlier
  · rw [List.prefix_append_right_inj, List.prefix_map_iff] at leads
    obtain ⟨taken, onTheWay, rfl⟩ := leads
    rw [List.foldl_append, foldl_follow_name]
    exact further taken onTheWay

theorem Clears.not_hides (clears : veil.Clears path)
    (inside : path.placeFrom veil.home <+: place) : ¬veil.Hides place := by
  rintro ⟨above, member, leads⟩
  rcases List.prefix_or_prefix_of_prefix leads inside with earlier | later
  · exact clears.shows.not_hides ⟨above, member, earlier⟩
  · exact clears.below above member later

theorem Clears.of_location (clears : veil.Clears base)
    (location : path.location = base.location ++ more.map .name) : veil.Clears path where
  shows := clears.shows.of_location location fun _ _ => clears.not_hides (List.prefix_append _ _)
  below above member leads := by
    rw [placeFrom_of_location location] at leads
    exact clears.below above member ((List.prefix_append _ _).trans leads)

theorem Clears.congr (clears : veil.Clears path) (same : other.location = path.location) :
    veil.Clears other :=
  @of_location veil path other [] clears (by simpa using same)

theorem Clears.join (clears : veil.Clears base) {name : String} (isName : IsName name) :
    veil.Clears (base.join name) :=
  @of_location veil base (base.join name) [name] clears (location_join base isName)

theorem Clears.foldl_join (clears : veil.Clears base) (isName : ∀ name ∈ more, IsName name) :
    veil.Clears (more.foldl Path.join base) :=
  clears.of_location (location_foldl_join base isName)

/-! ## Looking -/

namespace Alike

variable {files other : FileSystem} {path : Path} (alike : veil.Alike files other)
include alike

theorem entryAt? (shown : ¬veil.Hides place) : other.entryAt? place = files.entryAt? place := by
  cases place with
  | nil => rfl
  | cons name names => exact alike.shown _ shown

theorem foldlM_enter {segments : List String}
    (shown : ∀ front, front <+: segments →
      ¬veil.Hides ((componentsOf front).foldl Component.follow place)) :
    segments.foldlM other.enter place = segments.foldlM files.enter place := by
  induction segments generalizing place with
  | nil => rfl
  | cons segment segments ih =>
      have here : ¬veil.Hides place := shown [] List.nil_prefix
      rw [List.foldlM_cons, List.foldlM_cons, enter, alike.entryAt? here, ← enter]
      cases enters : files.enter place segment with
      | error fault => rfl
      | ok next =>
          refine ih fun front leads => ?_
          have further := shown (segment :: front) ((List.prefix_cons_inj segment).mpr leads)
          rw [← List.singleton_append, componentsOf_append, List.foldl_append] at further
          rwa [follow_of_enter enters]

theorem placeOf (shows : veil.Shows path) : other.placeOf path = files.placeOf path := by
  rw [FileSystem.placeOf, FileSystem.placeOf, alike.home', alike.host, ← home]
  split
  next => rfl
  next =>
    split
    next => rfl
    next =>
      split
      next => rfl
      next =>
        refine alike.foldlM_enter fun front leads => ?_
        obtain ⟨onTheWay, early, same⟩ := exists_prefix_of_steps veil.home leads
        rw [← same]
        exact shows onTheWay early

theorem place_eq (leads : files.placeOf path = .ok place) : place = path.placeFrom veil.home := by
  rw [eq_placeFrom_of_placeOf leads, alike.host, home]

theorem mayRead (shown : ¬veil.Hides place) : other.mayRead place = files.mayRead place := by
  rw [FileSystem.mayRead, FileSystem.mayRead, alike.readable place shown]

theorem entryAt?_of_placeOf (shows : veil.Shows path) (leads : files.placeOf path = .ok place) :
    other.entryAt? place = files.entryAt? place := by
  rw [alike.place_eq leads]
  exact alike.entryAt? shows.not_hides

theorem entryOf (shows : veil.Shows path) : other.entryOf path = files.entryOf path := by
  rw [FileSystem.entryOf, FileSystem.entryOf, alike.placeOf shows]
  cases leads : files.placeOf path with
  | error fault => rfl
  | ok place =>
      rw [ok_bind, ok_bind, alike.entryAt?_of_placeOf shows leads]

theorem pathExists (shows : veil.Shows path) : other.pathExists path = files.pathExists path := by
  rw [FileSystem.pathExists, FileSystem.pathExists, alike.entryOf shows]

theorem isFile (shows : veil.Shows path) : other.isFile path = files.isFile path := by
  rw [FileSystem.isFile, FileSystem.isFile, alike.entryOf shows]

theorem isDirectory (shows : veil.Shows path) : other.isDirectory path = files.isDirectory path := by
  rw [FileSystem.isDirectory, FileSystem.isDirectory, alike.entryOf shows]

theorem read (shows : veil.Shows path) : other.read path = files.read path := by
  rw [FileSystem.read, FileSystem.read, alike.placeOf shows]
  cases leads : files.placeOf path with
  | error fault => rfl
  | ok place =>
      rw [ok_bind, ok_bind, alike.entryAt?_of_placeOf shows leads,
        alike.mayRead (alike.place_eq leads ▸ shows.not_hides)]

theorem below (shown : ∀ there, place <+: there → ¬veil.Hides there) :
    other.below place = files.below place := by
  have listed : ∀ files : FileSystem, files.below place =
      (files.entries.filter fun there _ => place.isPrefixOf there).toList.filterMap
        fun (there, entry) => if place.isPrefixOf there && there != place then
          some (there.drop place.length, entry) else none := by
    intro files
    rw [FileSystem.below, Std.ExtTreeMap.toList_filter, List.filterMap_filter]
    refine List.filterMap_congr fun entry _ => ?_
    by_cases inside : place.isPrefixOf entry.1 <;> simp [inside]
  have same : (other.entries.filter fun there _ => place.isPrefixOf there) =
      files.entries.filter fun there _ => place.isPrefixOf there := by
    apply Std.ExtTreeMap.ext_getElem?
    intro there
    rw [Std.ExtTreeMap.getElem?_filter', Std.ExtTreeMap.getElem?_filter']
    by_cases inside : place <+: there
    · rw [alike.shown there (shown there inside)]
    · have apart : place.isPrefixOf there = false := by
        rwa [Bool.eq_false_iff, ne_eq, List.isPrefixOf_iff_prefix]
      simp [apart]
  rw [listed, listed, same]

theorem names (clears : veil.Clears path) : other.names path = files.names path := by
  rw [FileSystem.names, FileSystem.names, alike.placeOf clears.shows]
  cases leads : files.placeOf path with
  | error fault => rfl
  | ok place =>
      rw [ok_bind, ok_bind, alike.entryAt?_of_placeOf clears.shows leads,
        alike.mayRead (alike.place_eq leads ▸ clears.shows.not_hides),
        alike.below fun there inside => clears.not_hides (alike.place_eq leads ▸ inside)]

theorem walk (clears : veil.Clears path) (wanted : Path → Bool) :
    other.walk wanted path = files.walk wanted path := by
  rw [FileSystem.walk, FileSystem.walk, alike.placeOf clears.shows]
  cases leads : files.placeOf path with
  | error fault => rfl
  | ok place =>
      have visits : other.visit wanted path place = files.visit wanted path place := by
        funext reached
        rw [visit, visit, alike.mayRead
          (clears.not_hides (alike.place_eq leads ▸ List.prefix_append place reached.1))]
      rw [Except.mapError, ok_bind, ok_bind, visits, alike.entryAt?_of_placeOf clears.shows leads,
        alike.below fun there inside => clears.not_hides (alike.place_eq leads ▸ inside)]

theorem isName_of_placeOf (leads : files.placeOf path = .ok place) : ∀ name ∈ place, IsName name := by
  rw [alike.place_eq leads]
  exact fun _ => isName_of_mem_placeFrom alike.homeNamed

/-! ## Changing -/

theorem dropRefusal (refusals : List (Option IoFault)) :
    veil.Alike { files with refusals } { other with refusals } :=
  ⟨alike.host, alike.host', alike.home', alike.readable, rfl, alike.named, alike.homeNamed,
    alike.shown, alike.stays, alike.stays'⟩

theorem changed {next next' : FileSystem} (becomes : Place → Option Entry → Option Entry)
    (host : next.host = files.host) (host' : next'.host = other.host)
    (refusals : next.refusals = files.refusals) (refusals' : next'.refusals = other.refusals)
    (lookup : ∀ place : Place, next.entries[place]? = becomes place files.entries[place]?)
    (lookup' : ∀ place : Place, next'.entries[place]? = becomes place other.entries[place]?)
    (passes : ∀ place, veil.Hides place → ∀ entry?, becomes place entry? = entry?)
    (named : ∀ (place : Place) (entry : Entry), next.entries[place]? = some entry →
      ∀ name ∈ place, IsName name) : veil.Alike next next' where
  host := host.trans alike.host
  host' := host'.trans alike.host'
  home' := by rw [host', alike.home']
  readable place shown := by rw [host, host', alike.readable place shown]
  refusals := by rw [refusals, refusals', alike.refusals]
  named := named
  homeNamed := alike.homeNamed
  shown place shown := by rw [lookup, lookup', alike.shown place shown]
  stays place hides := by rw [lookup, passes place hides, alike.stays place hides]
  stays' place hides := by rw [lookup', passes place hides, alike.stays' place hides]

theorem setEntry (shown : ¬veil.Hides place) (isName : ∀ name ∈ place, IsName name) (entry : Entry) :
    veil.Alike (files.setEntry place entry) (other.setEntry place entry) := by
  refine alike.changed (fun there old => if place = there then some entry else old) rfl rfl rfl rfl
    (getElem?_setEntry files place · entry) (getElem?_setEntry other place · entry) ?_ ?_
  · intro there hides old
    rw [if_neg]
    rintro rfl
    exact shown hides
  · intro there entry found
    rw [getElem?_setEntry] at found
    split at found
    next same => exact same ▸ isName
    next => exact alike.named there entry found

theorem pruned {next next' : FileSystem} {gone : Place → Prop} [DecidablePred gone]
    (host : next.host = files.host) (host' : next'.host = other.host)
    (refusals : next.refusals = files.refusals) (refusals' : next'.refusals = other.refusals)
    (lookup : ∀ place : Place, next.entries[place]? =
      if gone place then none else files.entries[place]?)
    (lookup' : ∀ place : Place, next'.entries[place]? =
      if gone place then none else other.entries[place]?)
    (shown : ∀ place, gone place → ¬veil.Hides place) : veil.Alike next next' := by
  refine alike.changed (fun place old => if gone place then none else old) host host'
    refusals refusals' lookup lookup' ?_ ?_
  · intro place hides old
    exact if_neg fun goes => shown place goes hides
  · intro place entry found
    rw [lookup] at found
    split at found
    next => cases found
    next => exact alike.named place entry found

theorem dropEntry (shown : ¬veil.Hides place) :
    veil.Alike (files.dropEntry place) (other.dropEntry place) := by
  have here : ∀ there, place = there → ¬veil.Hides there := by
    rintro _ rfl
    exact shown
  exact alike.pruned rfl rfl rfl rfl (getElem?_dropEntry files place) (getElem?_dropEntry other place)
    here

theorem dropTree (shown : ∀ there, place <+: there → ¬veil.Hides there) :
    veil.Alike (files.dropTree place) (other.dropTree place) :=
  alike.pruned rfl rfl rfl rfl (getElem?_dropTree files place) (getElem?_dropTree other place) shown

theorem dropBelow (shown : ∀ there, place <+: there → ¬veil.Hides there) :
    veil.Alike (files.dropBelow place) (other.dropBelow place) :=
  alike.pruned rfl rfl rfl rfl (getElem?_dropBelow files place) (getElem?_dropBelow other place)
    fun there gone => shown there gone.1

end Alike

/-! ## Calls -/

inductive ChangeAlike (veil : Veil) :
    Except IoFault FileSystem → Except IoFault FileSystem → Prop
  | made {next other : FileSystem} (alike : veil.Alike next other) :
      ChangeAlike veil (.ok next) (.ok other)
  | fails (fault : IoFault) : ChangeAlike veil (.error fault) (.error fault)

theorem Alike.bind_placeOf {files other : FileSystem} (alike : veil.Alike files other)
    (shows : veil.Shows path) {next next' : Place → Except IoFault FileSystem}
    (goesOn : ∀ place, files.placeOf path = .ok place → ¬veil.Hides place →
      veil.ChangeAlike (next place) (next' place)) :
    veil.ChangeAlike (files.placeOf path >>= next) (other.placeOf path >>= next') := by
  rw [alike.placeOf shows]
  cases leads : files.placeOf path with
  | error fault => exact .fails fault
  | ok place =>
      rw [ok_bind, ok_bind]
      exact goesOn place leads (alike.place_eq leads ▸ shows.not_hides)

theorem inStep_attempt {change : FileSystem → Except IoFault FileSystem}
    (each : ∀ files other, veil.Alike files other →
      veil.ChangeAlike (change files) (change other)) :
    InStep veil.Alike (attempt change) := by
  intro files other alike
  have rest := alike.dropRefusal (files.refusals.drop 1)
  rw [attempt, attempt, alike.refusals]
  cases files.refusals.head?.join with
  | some fault => exact .failed rest
  | none =>
      have outcome := each _ _ rest
      dsimp only
      revert outcome
      generalize change { files with refusals := files.refusals.drop 1 } = result
      generalize change { other with refusals := files.refusals.drop 1 } = result'
      rintro (made | fault)
      · exact .returned made
      · exact .failed rest

theorem inStep_look {α : Type} {look : FileSystem → α}
    (same : ∀ files other, veil.Alike files other → look other = look files) :
    InStep veil.Alike (FileSystem.inspect look) := by
  intro files other alike
  rw [FileSystem.inspect, FileSystem.inspect, same files other alike]
  exact .returned alike

theorem inStep_look_bind {α β : Type} {look : FileSystem → α} {next : α → FileAction β}
    (same : ∀ files other, veil.Alike files other → look other = look files)
    (goesOn : ∀ files other, veil.Alike files other → InStep veil.Alike (next (look files))) :
    InStep veil.Alike (FileSystem.inspect look >>= next) := by
  intro files other alike
  have answer : FileSystem.inspect look other = .ok (look files) other :=
    congrArg (EStateM.Result.ok · other) (same files other alike)
  exact EndAlike.bind_of_ok rfl answer (goesOn files other alike _ _ alike)

theorem inStep_ignoreMissing {action : FileAction Unit} (inStep : InStep veil.Alike action) :
    InStep veil.Alike (ignoreMissing action) := by
  intro files other alike
  have ends := inStep files other alike
  rw [ignoreMissing, ignoreMissing]
  revert ends
  generalize action files = result
  generalize action other = result'
  rintro (done | @⟨fault, _, _, failed⟩)
  · exact .returned done
  · cases fault <;> first | exact .returned failed | exact .failed failed

theorem placedFile_alike {files other : FileSystem} (alike : veil.Alike files other)
    (shows : veil.Shows path) (content : Bytes) :
    veil.ChangeAlike (files.placedFile path content) (other.placedFile path content) := by
  rw [placedFile, placedFile]
  refine alike.bind_placeOf shows fun place leads shown => ?_
  have placed := alike.setEntry shown (alike.isName_of_placeOf leads) (.file content)
  rw [alike.entryAt? shown]
  cases files.entryAt? place with
  | none =>
      dsimp only
      split
      · exact .fails _
      · exact .made placed
  | some entry =>
      cases entry with
      | directory => exact .fails _
      | file old => exact .made placed

theorem inStep_write (shows : veil.Shows path) (content : Bytes) :
    InStep veil.Alike (write path content) :=
  inStep_attempt fun _ _ alike => placedFile_alike alike shows content

theorem madeDirectory_alike {files other : FileSystem} (alike : veil.Alike files other)
    (shows : veil.Shows path) :
    veil.ChangeAlike (files.madeDirectory path) (other.madeDirectory path) := by
  have shows := shows.congr (location_withoutEndSeparators path)
  rw [madeDirectory, madeDirectory]
  refine alike.bind_placeOf shows fun place leads shown => ?_
  rw [alike.entryAt? shown]
  cases files.entryAt? place with
  | none => exact .made (alike.setEntry shown (alike.isName_of_placeOf leads) .directory)
  | some entry => exact .fails _

theorem inStep_makeMissing (shows : veil.Shows path) : InStep veil.Alike (makeMissing path) := by
  refine InStep.bind (inStep_look fun _ _ alike => alike.isDirectory shows) fun there => ?_
  split
  · exact InStep.pure ()
  · exact inStep_attempt fun _ _ alike => madeDirectory_alike alike shows

theorem inStep_makeDirectories (shows : veil.Shows path) :
    InStep veil.Alike (makeDirectories path) := by
  rw [makeDirectories]
  generalize path.segments.length = count
  induction count generalizing path with
  | zero =>
      rw [makeDirectoriesWithin]
      split
      · exact InStep.pure ()
      · exact inStep_makeMissing shows
  | succ count ih =>
      rw [makeDirectoriesWithin]
      split
      · exact InStep.pure ()
      refine InStep.bind (inStep_look fun _ _ alike => alike.isDirectory shows) fun there => ?_
      split
      · exact InStep.pure ()
      intro files other alike
      -- The trees that making the directory would leave differ, but not the fault if it fails.
      have outcome := madeDirectory_alike alike shows
      refine EndAlike.bind_of_ok rfl rfl ?_
      dsimp only
      revert outcome
      generalize files.madeDirectory path = made
      generalize other.madeDirectory path = made'
      rintro (made | fault)
      · exact inStep_makeMissing shows _ _ alike
      · cases above : path.parent? with
        | none => cases fault <;> exact inStep_makeMissing shows _ _ alike
        | some parent =>
            have climbs := ih (shows.of_prefix (location_parent?_leads above))
            cases fault <;> first
              | exact InStep.bind climbs (fun _ => inStep_makeMissing shows) _ _ alike
              | exact inStep_makeMissing shows _ _ alike

theorem inStep_removeFile (shows : veil.Shows path) : InStep veil.Alike (removeFile path) := by
  refine inStep_attempt fun files other alike => ?_
  rw [withoutFile, withoutFile]
  refine alike.bind_placeOf shows fun place leads shown => ?_
  rw [alike.entryAt? shown]
  cases files.entryAt? place with
  | none => exact .fails _
  | some entry =>
      cases entry with
      | directory => exact .fails _
      | file content => exact .made (alike.dropEntry shown)

theorem inStep_renameFile (shows : veil.Shows path) (showsTarget : veil.Shows other) :
    InStep veil.Alike (renameFile path other) := by
  refine inStep_attempt fun files files' alike => ?_
  rw [renamed, renamed]
  refine alike.bind_placeOf shows fun source _ shown => ?_
  refine alike.bind_placeOf showsTarget fun target leadsTarget shownTarget => ?_
  rw [alike.entryAt? shown, alike.entryAt? shownTarget]
  cases files.entryAt? source with
  | none => exact .fails _
  | some entry =>
      cases entry with
      | directory => exact .fails _
      | file content =>
          have moved := (alike.dropEntry shown).setEntry shownTarget
            (alike.isName_of_placeOf leadsTarget) (.file content)
          rcases files.entryAt? target with _ | _ | _
          · exact .made moved
          · exact .made moved
          · exact .fails _

theorem inStep_replaceFile (shows : veil.Shows path)
    (showsTemporary : veil.Shows (path.withExtension "tmp")) (content : Bytes) :
    InStep veil.Alike (replaceFile path content) :=
  InStep.bind (inStep_write showsTemporary content) fun _ =>
    inStep_renameFile showsTemporary shows

theorem inStep_removeTree (clears : veil.Clears path) : InStep veil.Alike (removeTree path) := by
  have inside : ∀ {files other place}, veil.Alike files other → files.placeOf path = .ok place →
      ∀ there, place <+: there → ¬veil.Hides there := by
    intro files other place alike leads there inside
    exact clears.not_hides (alike.place_eq leads ▸ inside)
  refine InStep.bind (inStep_attempt fun files other alike => ?_) fun _ =>
    inStep_attempt fun files other alike => ?_
  · rw [emptied, emptied]
    refine alike.bind_placeOf clears.shows fun place leads shown => ?_
    rw [alike.entryAt? shown]
    cases files.entryAt? place with
    | none => exact .fails _
    | some entry =>
        cases entry with
        | file content => exact .fails _
        | directory => exact .made (alike.dropBelow (inside alike leads))
  · rw [withoutDirectory, withoutDirectory]
    refine alike.bind_placeOf clears.shows fun place leads _ => ?_
    split
    · exact .fails _
    · exact .fails _
    · exact .made (alike.dropTree (inside alike leads))

theorem inStep_recreateDirectory (clears : veil.Clears path) :
    InStep veil.Alike (recreateDirectory path) := by
  refine InStep.bind (inStep_look fun _ _ alike => alike.pathExists clears.shows) fun there => ?_
  dsimp only
  split
  · exact InStep.bind (inStep_removeTree clears) fun _ => inStep_makeDirectories clears.shows
  · exact inStep_makeDirectories clears.shows

end Veil

end AbiBuild.Files
