import AbiBuild.Files.Path
import Mathlib.Data.List.Forall2
import Std.Data.ExtTreeMap
import Std.Data.ExtTreeSet

/-!
# Lists, maps and sets of paths

Sets of paths do not tell spellings of one location apart, so what is in them is said of locations.
-/

namespace AbiBuild

/-! ## Steps that may fail -/

theorem bind_eq_ok {α β ε : Type} {first : Except ε α} {next : α → Except ε β} {result : β} :
    first >>= next = .ok result ↔ ∃ value, first = .ok value ∧ next value = .ok result := by
  cases first with
  | ok value => simp [bind, Except.bind]
  | error error => simp [bind, Except.bind]

theorem ok_bind {α β ε : Type} (value : α) (next : α → Except ε β) :
    Except.ok value >>= next = next value := rfl

theorem error_bind {α β ε : Type} (error : ε) (next : α → Except ε β) :
    Except.error error >>= next = .error error := rfl

theorem ite_bind_eq_ok {α β ε : Type} {condition : Prop} [Decidable condition]
    {first second : Except ε α} {next : α → Except ε β} {result : β} :
    (if condition then first >>= next else second >>= next) = .ok result ↔
      ∃ value, (if condition then first else second) = .ok value ∧ next value = .ok result := by
  split <;> exact bind_eq_ok

theorem map_eq_ok {α β ε : Type} {change : α → β} {first : Except ε α} {result : β} :
    change <$> first = .ok result ↔ ∃ value, first = .ok value ∧ change value = result := by
  cases first with
  | ok value => simp [Functor.map, Except.map]
  | error error => simp [Functor.map, Except.map]

theorem eq_ok_of_toOption {α ε : Type} {result : Except ε α} {value : α}
    (found : result.toOption = some value) : result = .ok value := by
  cases result with
  | ok other => exact congrArg _ (Option.some.inj found)
  | error error => cases found

theorem toOption_congr {α ε : Type} {first second : Except ε α}
    (same : ∀ value, first = .ok value ↔ second = .ok value) : first.toOption = second.toOption := by
  cases first with
  | ok value => rw [(same value).mp rfl]
  | error error =>
      cases second with
      | ok value => cases (same value).mpr rfl
      | error _ => rfl

theorem mapError_eq_ok {α ε ε' : Type} {change : ε → ε'} {first : Except ε α} {result : α} :
    first.mapError change = .ok result ↔ first = .ok result := by
  cases first with
  | ok value => simp [Except.mapError]
  | error error => simp [Except.mapError]

theorem foldlM_eq_ok {α β ε : Type} {step : β → α → Except ε β} {next : β → α → β}
    {values : List α} (each : ∀ value ∈ values, ∀ state, step state value = .ok (next state value))
    (start : β) : values.foldlM step start = .ok (values.foldl next start) := by
  induction values generalizing start with
  | nil => rfl
  | cons value values ih =>
      rw [List.forall_mem_cons] at each
      rw [List.foldlM_cons, each.1, List.foldl_cons, ← ih each.2]
      rfl

theorem mapM_congr {α β ε : Type} {step step' : α → Except ε β} {values : List α}
    (same : ∀ value ∈ values, step' value = step value) : values.mapM step' = values.mapM step := by
  induction values with
  | nil => rfl
  | cons value values ih =>
      rw [List.forall_mem_cons] at same
      rw [List.mapM_cons, List.mapM_cons, same.1, ih same.2]

theorem flatMapM_congr {α β ε : Type} {step step' : α → Except ε (List β)} {values : List α}
    (same : ∀ value ∈ values, step' value = step value) :
    values.flatMapM step' = values.flatMapM step := by
  induction values with
  | nil => rfl
  | cons value values ih =>
      rw [List.forall_mem_cons] at same
      rw [List.flatMapM_cons, List.flatMapM_cons, same.1, ih same.2]

theorem mapM_cons_eq_ok {α β ε : Type} {step : α → Except ε β} {value : α} {values : List α}
    {results : List β} (succeeds : (value :: values).mapM step = .ok results) :
    ∃ first rest, step value = .ok first ∧ values.mapM step = .ok rest ∧
      results = first :: rest := by
  rw [List.mapM_cons] at succeeds
  obtain ⟨first, hfirst, succeeds⟩ := bind_eq_ok.mp succeeds
  obtain ⟨rest, hrest, succeeds⟩ := bind_eq_ok.mp succeeds
  exact ⟨first, rest, hfirst, hrest, (Except.ok.inj succeeds).symm⟩

theorem mapM_eq_ok {α β ε : Type} {step : α → Except ε β} {values : List α} {results : List β} :
    values.mapM step = .ok results ↔
      List.Forall₂ (fun value result => step value = .ok result) values results := by
  constructor
  · intro succeeds
    induction values generalizing results with
    | nil =>
        obtain rfl := Except.ok.inj succeeds
        exact .nil
    | cons value values ih =>
        obtain ⟨first, rest, here, later, rfl⟩ := mapM_cons_eq_ok succeeds
        exact .cons here (ih later)
  · intro each
    induction each with
    | nil => rfl
    | cons here _ ih =>
        rw [List.mapM_cons, here, ih]
        rfl

theorem mapM_eq_ok_map {α β ε : Type} {step : α → Except ε β} {holds : α → Prop} {make : α → β}
    (each : ∀ value result, step value = .ok result ↔ holds value ∧ make value = result)
    {values : List α} {results : List β} :
    values.mapM step = .ok results ↔ (∀ value ∈ values, holds value) ∧ values.map make = results := by
  rw [mapM_eq_ok]
  simp only [each, List.forall₂_and_left, ← List.forall₂_map_left_iff, List.forall₂_eq_eq_eq]

theorem exists_of_mem_values {α β ε : Type} {step : α → Except ε β} {values : List α}
    {results : List β} (succeeds : values.mapM step = .ok results) {value : α}
    (member : value ∈ values) : ∃ result ∈ results, step value = .ok result := by
  induction values generalizing results with
  | nil => simp at member
  | cons first values ih =>
      obtain ⟨result, rest, hfirst, hrest, rfl⟩ := mapM_cons_eq_ok succeeds
      rcases List.mem_cons.mp member with rfl | later
      · exact ⟨result, .head _, hfirst⟩
      · obtain ⟨found, listed, heq⟩ := ih hrest later
        exact ⟨found, .tail _ listed, heq⟩

theorem exists_of_mem_results {α β ε : Type} {step : α → Except ε β} {values : List α}
    {results : List β} (succeeds : values.mapM step = .ok results) {result : β}
    (member : result ∈ results) : ∃ value ∈ values, step value = .ok result := by
  induction values generalizing results with
  | nil =>
      obtain rfl := Except.ok.inj succeeds
      simp at member
  | cons first values ih =>
      obtain ⟨found, rest, hfirst, hrest, rfl⟩ := mapM_cons_eq_ok succeeds
      rcases List.mem_cons.mp member with rfl | later
      · exact ⟨first, .head _, hfirst⟩
      · obtain ⟨value, listed, heq⟩ := ih hrest later
        exact ⟨value, .tail _ listed, heq⟩

theorem exists_mapM_eq_ok {α β ε : Type} {step : α → Except ε β} {values : List α}
    (each : ∀ value ∈ values, ∃ result, step value = .ok result) :
    ∃ results, values.mapM step = .ok results := by
  induction values with
  | nil => exact ⟨[], rfl⟩
  | cons value values ih =>
      rw [List.forall_mem_cons] at each
      obtain ⟨result, here⟩ := each.1
      obtain ⟨results, rest⟩ := ih each.2
      exact ⟨result :: results, by rw [List.mapM_cons, here, rest]; rfl⟩

/-! ## Lists of encoded values -/

theorem length_le_flatMap {α β : Type} (encode : α → List β) {values : List α} {value : α}
    (member : value ∈ values) : (encode value).length ≤ (values.flatMap encode).length := by
  induction values with
  | nil => simp at member
  | cons first values ih =>
      rw [List.flatMap_cons, List.length_append]
      rcases List.mem_cons.mp member with rfl | later
      · omega
      · have part := ih later
        omega

theorem length_le_flatMap_of_pos {α β : Type} (encode : α → List β) (values : List α)
    (each : ∀ value ∈ values, 0 < (encode value).length) :
    values.length ≤ (values.flatMap encode).length := by
  induction values with
  | nil => simp
  | cons first values ih =>
      rw [List.forall_mem_cons] at each
      have rest := ih each.2
      rw [List.flatMap_cons, List.length_append, List.length_cons]
      omega

theorem length_flatMap_le {α β : Type} (parts : α → List β) {values : List α} {bound : Nat}
    (each : ∀ value ∈ values, (parts value).length ≤ bound) :
    (values.flatMap parts).length ≤ values.length * bound := by
  induction values with
  | nil => simp
  | cons first values ih =>
      rw [List.forall_mem_cons] at each
      have rest := ih each.2
      rw [List.flatMap_cons, List.length_append, List.length_cons, Nat.succ_mul]
      omega

/-! ## Maps from texts -/

theorem getElem?_ofList {β : Type} {entries : List (String × β)}
    (distinct : entries.Pairwise fun first second => first.1 ≠ second.1) (key : String) (value : β) :
    (Std.ExtTreeMap.ofList entries compare)[key]? = some value ↔ (key, value) ∈ entries := by
  have distinct' : entries.Pairwise fun first second => ¬compare first.1 second.1 = .eq :=
    distinct.imp fun different => by rwa [Std.LawfulEqCmp.compare_eq_iff_eq]
  constructor
  · intro found
    by_cases listed : key ∈ entries.map (·.1)
    · obtain ⟨⟨_, other⟩, member, rfl⟩ := List.mem_map.mp listed
      rw [Std.ExtTreeMap.getElem?_ofList_of_mem Std.ReflCmp.compare_self distinct' member] at found
      rwa [← Option.some.inj found]
    · rw [Std.ExtTreeMap.getElem?_ofList_of_contains_eq_false] at found
      · cases found
      · rwa [Bool.eq_false_iff, Ne, List.contains_iff_mem]
  · exact Std.ExtTreeMap.getElem?_ofList_of_mem Std.ReflCmp.compare_self distinct'

theorem ofList_toList {β : Type} (map : Std.ExtTreeMap String β compare) :
    Std.ExtTreeMap.ofList map.toList compare = map := by
  apply Std.ExtTreeMap.ext_getElem?
  intro key
  apply Option.ext
  intro value
  rw [getElem?_ofList, Std.ExtTreeMap.mem_toList_iff_getElem?_eq_some]
  exact Std.ExtTreeMap.distinct_keys_toList.imp fun different => by
    rwa [Std.LawfulEqCmp.compare_eq_iff_eq] at different

namespace Files

/-! ## Sets and maps of paths -/

theorem Path.compare_eq_iff (first second : Path) :
    compare first second = .eq ↔ first.location = second.location := by
  change compareOn Path.location first second = .eq ↔ _
  rw [compareOn, Std.LawfulEqCmp.compare_eq_iff_eq]

theorem PathSet.mem_congr {set : PathSet} {first second : Path}
    (same : first.location = second.location) : first ∈ set ↔ second ∈ set :=
  Std.ExtTreeSet.mem_congr ((Path.compare_eq_iff first second).mpr same)

theorem PathSet.mem_foldl_insert (paths : List Path) (set : PathSet) (path : Path) :
    path ∈ paths.foldl (·.insert ·) set ↔
      (∃ other ∈ paths, other.location = path.location) ∨ path ∈ set := by
  induction paths generalizing set with
  | nil => simp
  | cons first paths ih =>
      rw [List.foldl_cons, ih, Std.ExtTreeSet.mem_insert, Path.compare_eq_iff]
      simp only [List.mem_cons, exists_eq_or_imp]
      rw [← or_assoc, or_comm (a := ∃ _, _)]

theorem PathSet.mem_ofList (paths : List Path) (path : Path) :
    path ∈ PathSet.ofList paths ↔ ∃ other ∈ paths, other.location = path.location := by
  simp [PathSet.ofList, PathSet.mem_foldl_insert]

theorem PathSet.exists_mem_toList (set : PathSet) (path : Path) :
    path ∈ set ↔ ∃ other ∈ set.toList, other.location = path.location := by
  let byLocation : BEq Path := ⟨fun first second => (compare first second).isEq⟩
  have lawful : Std.LawfulBEqCmp (compare : Path → Path → Ordering) := ⟨by simp [byLocation, BEq.beq]⟩
  rw [Std.ExtTreeSet.mem_iff_contains, ← Std.ExtTreeSet.contains_toList,
    List.contains_iff_exists_mem_beq]
  simp only [byLocation, BEq.beq, Ordering.isEq_iff_eq_eq, Path.compare_eq_iff, @eq_comm _ path.location]

theorem PathSet.pairwise_toList (set : PathSet) :
    set.toList.Pairwise fun first second => first.location ≠ second.location :=
  Std.ExtTreeSet.distinct_toList.imp fun different => by rwa [Path.compare_eq_iff] at different

theorem PathSet.get?_of_mem_toList {set : PathSet} {path : Path} (listed : path ∈ set.toList) :
    set.get? path = some path := by
  have keys : path ∈ set.inner.keys := listed
  rw [← Std.ExtTreeMap.map_fst_toList_eq_keys, List.mem_map] at keys
  obtain ⟨⟨other, _⟩, member, rfl⟩ := keys
  exact (Std.ExtTreeMap.mem_toList_iff_getKey?_eq_some_and_getElem?_eq_some.mp member).1

theorem PathSet.mem_of_get?_foldl_insert {paths : List Path} {set : PathSet} {path found : Path}
    (gets : (paths.foldl (·.insert ·) set).get? path = some found) :
    found ∈ paths ∨ set.get? path = some found := by
  induction paths generalizing set with
  | nil => exact .inr gets
  | cons first paths ih =>
      rcases ih gets with later | earlier
      · exact .inl (.tail _ later)
      · rw [Std.ExtTreeSet.get?_insert] at earlier
        split at earlier
        next =>
          obtain rfl := Option.some.inj earlier
          exact .inl (.head _)
        next => exact .inr earlier

theorem PathSet.mem_of_get?_ofList {paths : List Path} {path found : Path}
    (gets : (PathSet.ofList paths).get? path = some found) : found ∈ paths := by
  rcases mem_of_get?_foldl_insert gets with member | none
  · exact member
  · simp at none

theorem PathSet.mem_of_mem_toList_ofList {paths : List Path} {path : Path}
    (listed : path ∈ (PathSet.ofList paths).toList) : path ∈ paths :=
  mem_of_get?_ofList (get?_of_mem_toList listed)

theorem PathMap.getElem?_eq_some_iff {α : Type} (map : PathMap α) (path : Path) (value : α) :
    map[path]? = some value ↔ ∃ other, (other, value) ∈ map.toList ∧
      other.location = path.location := by
  rw [Std.ExtTreeMap.getElem?_eq_some_iff_exists_compare_eq_eq_and_mem_toList]
  simp only [Path.compare_eq_iff, and_comm, @eq_comm _ path.location]

theorem PathMap.getElem?_congr {α : Type} (map : PathMap α) {first second : Path}
    (same : first.location = second.location) : map[first]? = map[second]? :=
  Std.ExtTreeMap.getElem?_congr ((Path.compare_eq_iff first second).mpr same)

theorem PathMap.eq_of_mem_toList {α : Type} {map : PathMap α} {first second : Path × α}
    (hfirst : first ∈ map.toList) (hsecond : second ∈ map.toList)
    (same : first.1.location = second.1.location) : first = second := by
  obtain ⟨path, value⟩ := first
  obtain ⟨other, otherValue⟩ := second
  have foundFirst := Std.ExtTreeMap.mem_toList_iff_getKey?_eq_some_and_getElem?_eq_some.mp hfirst
  have foundSecond := Std.ExtTreeMap.mem_toList_iff_getKey?_eq_some_and_getElem?_eq_some.mp hsecond
  have equal : compare path other = .eq := (Path.compare_eq_iff path other).mpr same
  rw [Std.ExtTreeMap.getKey?_congr equal, Std.ExtTreeMap.getElem?_congr equal] at foundFirst
  rw [foundFirst.1, foundFirst.2] at foundSecond
  rw [Option.some.inj foundSecond.1, Option.some.inj foundSecond.2]

theorem PathMap.mem_put {α : Type} (map : PathMap α) (path : Path) (value : α) (other : Path) :
    other ∈ map.put path value ↔ path.location = other.location ∨ other ∈ map := by
  rw [PathMap.put]
  split
  next known =>
    rw [Std.ExtTreeMap.mem_modify, or_iff_right_of_imp]
    exact fun same => (Std.ExtTreeMap.mem_congr ((Path.compare_eq_iff _ _).mpr same)).mp known
  next => rw [Std.ExtTreeMap.mem_insert, Path.compare_eq_iff]

theorem PathMap.mem_toList_put {α : Type} {map : PathMap α} {path : Path} (absent : path ∉ map)
    (value : α) (entry : Path × α) :
    entry ∈ (map.put path value).toList ↔ entry = (path, value) ∨ entry ∈ map.toList := by
  obtain ⟨other, found⟩ := entry
  rw [PathMap.put, if_neg absent]
  simp only [Std.ExtTreeMap.mem_toList_iff_getKey?_eq_some_and_getElem?_eq_some,
    Std.ExtTreeMap.getKey?_insert, Std.ExtTreeMap.getElem?_insert, Prod.mk.injEq]
  by_cases same : compare path other = .eq
  · have missing : map[other]? = none := by
      rw [← Std.ExtTreeMap.getElem?_congr same]
      exact Std.ExtTreeMap.getElem?_eq_none absent
    simp [same, missing, eq_comm]
  · have different : other ≠ path := by
      rintro rfl
      exact same Std.ReflCmp.compare_self
    simp [same, different]

theorem PathMap.mem_toList_foldl_put {α : Type} {entries : List (Path × α)} {map : PathMap α}
    (distinct : entries.Pairwise fun first second => first.1.location ≠ second.1.location)
    (absent : ∀ entry ∈ entries, entry.1 ∉ map) (entry : Path × α) :
    entry ∈ (entries.foldl (fun map (path, value) => map.put path value) map).toList ↔
      entry ∈ entries ∨ entry ∈ map.toList := by
  induction entries generalizing map with
  | nil => simp
  | cons first entries ih =>
      rw [List.pairwise_cons] at distinct
      rw [List.forall_mem_cons] at absent
      rw [List.foldl_cons, ih distinct.2, mem_toList_put absent.1, List.mem_cons, or_left_comm,
        or_assoc]
      intro other listed member
      have different := distinct.1 other listed
      change other.1 ∈ map.put first.1 first.2 at member
      rw [mem_put] at member
      exact member.elim different (absent.2 other listed)

end Files

end AbiBuild
