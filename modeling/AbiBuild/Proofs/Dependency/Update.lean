import AbiBuild.Proofs.Dependency.Mirrored
import Mathlib.Logic.Basic

/-!
# Bringing a class in line with its surface

A class is revised by dropping, changing and adding only what differs.  As long as no type is
mentioned in two ways, this comes to the same as dropping all dependencies of the class and linking
those of its surface.
-/

namespace AbiBuild.Dependency.Graph

/-! ## Dependencies as a map -/

private theorem getElem?_foldl_peers (direction : Direction) (edges : List Edge)
    (peers : Std.ExtTreeMap String Bool compare) (peer : String) :
    (edges.foldl (fun peers edge =>
        if edge.direction = direction then peers.insert edge.peer edge.isPrivate else peers)
      peers)[peer]? =
      (((edges.filter fun edge => edge.direction = direction ∧ edge.peer = peer).getLast?.map
        (·.isPrivate)).or peers[peer]?) := by
  induction edges generalizing peers with
  | nil => simp
  | cons edge edges ih =>
      rw [List.foldl_cons, ih, List.filter_cons]
      by_cases hdirection : edge.direction = direction
      · by_cases hpeer : edge.peer = peer
        · have matching : decide (edge.direction = direction ∧ edge.peer = peer) = true := by
            simp [hdirection, hpeer]
          rw [if_pos hdirection, if_pos matching, List.getLast?_cons, hpeer]
          cases (edges.filter fun edge => edge.direction = direction ∧ edge.peer = peer).getLast? <;>
            simp
        · simp [hdirection, hpeer, Std.ExtTreeMap.getElem?_insert]
      · simp [hdirection]

theorem getElem?_peersAlong (order : EdgeOrder) (graph : Graph) (direction : Direction)
    (name peer : String) :
    (graph.peersAlong order direction name)[peer]? =
      ((order.listed graph name).filter fun edge =>
        edge.direction = direction ∧ edge.peer = peer).getLast?.map (·.isPrivate) := by
  rw [peersAlong, getElem?_foldl_peers]
  simp

theorem getElem?_peersOf (graph : Graph) (direction : Direction) (name peer : String) :
    (graph.peersOf direction name)[peer]? =
      ((graph.edgesOf name).toList.filter fun edge =>
        edge.direction = direction ∧ edge.peer = peer).getLast?.map (·.isPrivate) :=
  graph.getElem?_peersAlong .sorted direction name peer

def Settled (graph : Graph) : Prop :=
  ∀ name type first second, graph.DependsOn name type first → graph.DependsOn name type second →
    first = second

private theorem getElem?_peersAlong_eq_some {graph : Graph} {direction : Direction}
    {name peer : String} (settled : ∀ first second,
      (⟨direction, first, peer⟩ : Edge) ∈ graph.edgesOf name →
      (⟨direction, second, peer⟩ : Edge) ∈ graph.edgesOf name → first = second)
    (order : EdgeOrder) (isPrivate : Bool) :
    (graph.peersAlong order direction name)[peer]? = some isPrivate ↔
      (⟨direction, isPrivate, peer⟩ : Edge) ∈ graph.edgesOf name := by
  have listed : ∀ edge, edge ∈ order.listed graph name ↔ edge ∈ graph.edgesOf name := fun _ =>
    (order.perm graph name).mem_iff.trans Std.ExtTreeSet.mem_toList
  rw [getElem?_peersAlong, Option.map_eq_some_iff]
  constructor
  · rintro ⟨⟨_, _, _⟩, last, rfl⟩
    have member := List.mem_of_getLast? last
    simp only [List.mem_filter, listed, decide_eq_true_eq] at member
    obtain ⟨member, rfl, rfl⟩ := member
    exact member
  · intro member
    have matching : (⟨direction, isPrivate, peer⟩ : Edge) ∈
        (order.listed graph name).filter fun edge =>
          edge.direction = direction ∧ edge.peer = peer := by
      simpa [listed] using member
    obtain ⟨last, hlast⟩ := Option.ne_none_iff_exists'.mp
      (mt List.getLast?_eq_none_iff.mp (List.ne_nil_of_mem matching))
    refine ⟨last, hlast, ?_⟩
    have found := List.mem_of_getLast? hlast
    obtain ⟨_, _, _⟩ := last
    simp only [List.mem_filter, listed, decide_eq_true_eq] at found
    obtain ⟨found, rfl, rfl⟩ := found
    exact settled _ _ found member

theorem getElem?_dependenciesOf {graph : Graph} (settled : graph.Settled) (name type : String)
    (isPrivate : Bool) :
    (graph.dependenciesOf name)[type]? = some isPrivate ↔
      graph.DependsOn name type isPrivate :=
  getElem?_peersAlong_eq_some (settled name type) .sorted isPrivate

theorem getElem?_dependentsOf {graph : Graph} (mirrored : graph.Mirrored)
    (settled : graph.Settled) (type name : String) (isPrivate : Bool) :
    (graph.dependentsOf type)[name]? = some isPrivate ↔
      graph.DependsOn name type isPrivate := by
  rw [dependentsOf, peersOf, getElem?_peersAlong_eq_some, mirrored.outgoing_mem_iff]
  intro first second hfirst hsecond
  rw [mirrored.outgoing_mem_iff] at hfirst hsecond
  exact settled name type first second hfirst hsecond

/-- In a graph with both sides of each dependency, none of them in two ways, the order in which the
edges of a class come makes no difference to its peers. -/
theorem peersAlong_eq {graph : Graph} (mirrored : graph.Mirrored) (settled : graph.Settled)
    (order : EdgeOrder) (direction : Direction) (name : String) :
    graph.peersAlong order direction name = graph.peersOf direction name := by
  refine Std.ExtTreeMap.ext_getElem? fun peer => Option.ext fun isPrivate => ?_
  have alone : ∀ first second, (⟨direction, first, peer⟩ : Edge) ∈ graph.edgesOf name →
      (⟨direction, second, peer⟩ : Edge) ∈ graph.edgesOf name → first = second := by
    intro first second hfirst hsecond
    cases direction with
    | incoming => exact settled name peer first second hfirst hsecond
    | outgoing =>
        rw [mirrored.outgoing_mem_iff] at hfirst hsecond
        exact settled peer name first second hfirst hsecond
  rw [peersOf, getElem?_peersAlong_eq_some alone, getElem?_peersAlong_eq_some alone]

theorem updateAlong_eq {graph : Graph} (mirrored : graph.Mirrored) (settled : graph.Settled)
    (order : EdgeOrder) (abi : SourceAbi) : graph.updateAlong order abi = graph.update abi := by
  rw [updateAlong, peersAlong_eq mirrored settled, update, dependenciesOf]

theorem isReal_iff_dependenciesOf (graph : Graph) (name : String) :
    graph.isReal name ↔ graph.dependenciesOf name ≠ ∅ := by
  rw [isReal_iff, Ne, Std.ExtTreeMap.eq_empty_iff_forall_not_mem, not_forall]
  refine exists_congr fun type => ?_
  rw [not_not, Std.ExtTreeMap.mem_iff_isSome_getElem?, dependenciesOf, getElem?_peersOf,
    Option.isSome_map, List.getLast?_isSome, ← List.length_pos_iff, List.length_pos_iff_exists_mem]
  simp only [List.mem_filter, Std.ExtTreeSet.mem_toList, decide_eq_true_eq]
  constructor
  · rintro ⟨isPrivate, member⟩
    exact ⟨_, member, rfl, rfl⟩
  · rintro ⟨⟨_, isPrivate, _⟩, member, rfl, rfl⟩
    exact ⟨isPrivate, member⟩

/-! ## Dropping every dependency -/

/-- The graph without the dependencies of a class. -/
def dropDependencies (graph : Graph) (name : String) : Graph :=
  (graph.dependenciesOf name).toList.foldl (fun graph (type, isPrivate) =>
    graph.unlink name type isPrivate) graph

private theorem contains_foldl_unlink (dependencies : List (String × Bool)) (graph : Graph)
    (owner name : String) :
    (dependencies.foldl (fun graph (type, isPrivate) => graph.unlink owner type isPrivate)
        graph).contains name = graph.contains name := by
  induction dependencies generalizing graph with
  | nil => rfl
  | cons dependency dependencies ih => rw [List.foldl_cons, ih, contains_unlink]

private theorem mem_edgesOf_foldl_unlink (dependencies : List (String × Bool)) (graph : Graph)
    (owner name : String) (edge : Edge) :
    edge ∈ (dependencies.foldl (fun graph (type, isPrivate) => graph.unlink owner type isPrivate)
        graph).edgesOf name ↔
      (∀ dependency ∈ dependencies, dependencyAt owner name edge ≠ some dependency) ∧
        edge ∈ graph.edgesOf name := by
  induction dependencies generalizing graph with
  | nil => simp
  | cons dependency dependencies ih =>
      rw [List.foldl_cons, ih, mem_edgesOf_unlink, List.forall_mem_cons, and_left_comm, and_assoc]

@[simp] theorem contains_dropDependencies (graph : Graph) (owner name : String) :
    (graph.dropDependencies owner).contains name = graph.contains name :=
  contains_foldl_unlink _ _ _ _

theorem mem_toList_dependenciesOf {graph : Graph} (settled : graph.Settled) (name type : String)
    (isPrivate : Bool) :
    (type, isPrivate) ∈ (graph.dependenciesOf name).toList ↔
      graph.DependsOn name type isPrivate := by
  rw [Std.ExtTreeMap.mem_toList_iff_getElem?_eq_some, getElem?_dependenciesOf settled]

theorem mem_edgesOf_dropDependencies {graph : Graph} (mirrored : graph.Mirrored)
    (settled : graph.Settled) {owner name : String} {edge : Edge} :
    edge ∈ (graph.dropDependencies owner).edgesOf name ↔
      dependencyAt owner name edge = none ∧ edge ∈ graph.edgesOf name := by
  rw [dropDependencies, mem_edgesOf_foldl_unlink]
  refine and_congr_left fun member => ?_
  cases side : dependencyAt owner name edge with
  | none => simp
  | some dependency =>
      obtain ⟨type, isPrivate⟩ := dependency
      have holds := (mirrored.mem_edgesOf_iff_dependsOn side).mp member
      refine iff_of_false (fun kept => ?_) (by simp)
      exact kept _ ((mem_toList_dependenciesOf settled _ _ _).mpr holds) rfl

/-! ## Revising what differs -/

private theorem mem_edgesOf_reviseDependency {graph : Graph} {abi : SourceAbi}
    {next : Std.ExtTreeMap String Bool compare} {type name : String} {wasPrivate : Bool}
    {edge : Edge} :
    edge ∈ (graph.reviseDependency abi next (type, wasPrivate)).edgesOf name ↔
      (∃ isPrivate, next[type]? = some isPrivate ∧ isPrivate ≠ wasPrivate ∧
          dependencyAt abi.className name edge = some (type, isPrivate)) ∨
        (dependencyAt abi.className name edge = some (type, wasPrivate) →
            next[type]? = some wasPrivate) ∧
          edge ∈ graph.edgesOf name := by
  rw [reviseDependency]
  cases hnext : next[type]? with
  | none => simp [mem_edgesOf_unlink]
  | some isPrivate =>
      by_cases same : isPrivate = wasPrivate
      · simp [same]
      · simp [same, mem_edgesOf_link, mem_edgesOf_unlink]

private theorem mem_edgesOf_foldl_revise_of_ne {abi : SourceAbi}
    {next : Std.ExtTreeMap String Bool compare} {name : String} {edge : Edge}
    (dependencies : List (String × Bool)) (graph : Graph)
    (untouched : ∀ dependency ∈ dependencies, ∀ isPrivate,
      dependencyAt abi.className name edge ≠ some (dependency.1, isPrivate)) :
    edge ∈ (dependencies.foldl (reviseDependency abi next) graph).edgesOf name ↔
      edge ∈ graph.edgesOf name := by
  induction dependencies generalizing graph with
  | nil => rfl
  | cons dependency dependencies ih =>
      rw [List.forall_mem_cons] at untouched
      obtain ⟨type, wasPrivate⟩ := dependency
      rw [List.foldl_cons, ih _ untouched.2, mem_edgesOf_reviseDependency]
      simp [untouched.1]

private theorem mem_edgesOf_foldl_revise_of_mem {abi : SourceAbi}
    {next : Std.ExtTreeMap String Bool compare} {type name : String} {isPrivate wasPrivate : Bool}
    {edge : Edge} (dependencies : List (String × Bool)) (graph : Graph)
    (distinct : (dependencies.map (·.1)).Nodup) (listed : (type, wasPrivate) ∈ dependencies)
    (side : dependencyAt abi.className name edge = some (type, isPrivate)) :
    edge ∈ (dependencies.foldl (reviseDependency abi next) graph).edgesOf name ↔
      edge ∈ (graph.reviseDependency abi next (type, wasPrivate)).edgesOf name := by
  induction dependencies generalizing graph with
  | nil => simp at listed
  | cons dependency dependencies ih =>
      rw [List.map_cons, List.nodup_cons] at distinct
      rw [List.foldl_cons]
      rcases List.mem_cons.mp listed with rfl | later
      · apply mem_edgesOf_foldl_revise_of_ne
        intro other member found heq
        have same : type = other.1 := by
          rw [side] at heq
          exact congrArg Prod.fst (Option.some.inj heq)
        exact distinct.1 (List.mem_map.mpr ⟨other, member, same.symm⟩)
      · have different : type ≠ dependency.1 := fun same =>
          distinct.1 (List.mem_map.mpr ⟨_, later, same⟩)
        obtain ⟨first, firstPrivate⟩ := dependency
        rw [ih _ distinct.2 later, mem_edgesOf_reviseDependency, mem_edgesOf_reviseDependency,
          mem_edgesOf_reviseDependency]
        simp [side, different]

private theorem contains_foldl_revise (abi : SourceAbi)
    (next : Std.ExtTreeMap String Bool compare) (dependencies : List (String × Bool))
    (graph : Graph) (hasClass : graph.contains abi.className)
    (hasTypes : ∀ dependency ∈ dependencies, graph.contains dependency.1) (name : String) :
    (dependencies.foldl (reviseDependency abi next) graph).contains name ↔
      graph.contains name := by
  induction dependencies generalizing graph with
  | nil => rfl
  | cons dependency dependencies ih =>
      obtain ⟨type, wasPrivate⟩ := dependency
      rw [List.forall_mem_cons] at hasTypes
      have step : ∀ name, (graph.reviseDependency abi next (type, wasPrivate)).contains name ↔
          graph.contains name := by
        intro name
        rw [reviseDependency]
        cases next[type]? with
        | none => simp
        | some isPrivate =>
            by_cases same : isPrivate = wasPrivate
            · simp [same]
            · simp only [same, if_false, contains_link, contains_unlink]
              constructor
              · rintro (rfl | rfl | member)
                · exact hasTypes.1
                · exact hasClass
                · exact member
              · exact fun member => .inr (.inr member)
      rw [List.foldl_cons, ih _ ((step _).mpr hasClass), step]
      exact fun other member => (step _).mpr (hasTypes.2 other member)

/-! ## Adding what is new -/

private theorem foldl_linkNew_eq (owner : String)
    (previous : Std.ExtTreeMap String Bool compare) (references : List (String × Bool))
    (graph : Graph) :
    references.foldl (fun graph (type, isPrivate) =>
        if previous.contains type then graph else graph.link owner type isPrivate) graph =
      (references.filter fun reference => !previous.contains reference.1).foldl
        (fun graph (type, isPrivate) => graph.link owner type isPrivate) graph := by
  rw [List.foldl_filter]
  congr
  funext graph ⟨type, isPrivate⟩
  dsimp only
  cases known : previous.contains type <;> simp

/-! ## The whole revision -/

private theorem getElem?_ofList_referencedTypes {abi : SourceAbi}
    (partitioned : abi.Partitioned) (type : String) (isPrivate : Bool) :
    (Std.ExtTreeMap.ofList abi.referencedTypes compare)[type]? = some isPrivate ↔
      (type, isPrivate) ∈ abi.referencedTypes := by
  have distinct : abi.referencedTypes.Pairwise fun first second =>
      ¬compare first.1 second.1 = .eq := by
    have nodup := partitioned.nodup_names
    rw [List.Nodup, List.pairwise_map] at nodup
    exact nodup.imp fun different => by simpa using different
  constructor
  · intro found
    have listed : type ∈ Std.ExtTreeMap.ofList abi.referencedTypes compare :=
      Std.ExtTreeMap.mem_iff_isSome_getElem?.mpr (by rw [found]; rfl)
    rw [Std.ExtTreeMap.mem_ofList, List.contains_iff_mem, List.mem_map] at listed
    obtain ⟨⟨_, other⟩, member, rfl⟩ := listed
    rw [Std.ExtTreeMap.getElem?_ofList_of_mem Std.ReflCmp.compare_self distinct member] at found
    rwa [← Option.some.inj found]
  · exact fun member =>
      Std.ExtTreeMap.getElem?_ofList_of_mem Std.ReflCmp.compare_self distinct member

private theorem distinct_names (map : Std.ExtTreeMap String Bool compare) :
    (map.toList.map (·.1)).Nodup := by
  rw [Std.ExtTreeMap.map_fst_toList_eq_keys]
  exact Std.ExtTreeMap.nodup_keys

private theorem mem_edgesOf_revised {graph : Graph} (mirrored : graph.Mirrored)
    (settled : graph.Settled) {abi : SourceAbi} (partitioned : abi.Partitioned)
    {name type : String} {isPrivate : Bool} {edge : Edge}
    (side : dependencyAt abi.className name edge = some (type, isPrivate)) :
    edge ∈ ((graph.dependenciesOf abi.className).toList.foldl
        (reviseDependency abi (.ofList abi.referencedTypes compare)) graph).edgesOf name ↔
      type ∈ graph.dependenciesOf abi.className ∧ (type, isPrivate) ∈ abi.referencedTypes := by
  have present := mirrored.mem_edgesOf_iff_dependsOn side
  by_cases known : type ∈ graph.dependenciesOf abi.className
  · obtain ⟨wasPrivate, found⟩ :=
      Option.isSome_iff_exists.mp (Std.ExtTreeMap.mem_iff_isSome_getElem?.mp known)
    have before := (getElem?_dependenciesOf settled _ _ _).mp found
    have unchanged : edge ∈ graph.edgesOf name ↔ isPrivate = wasPrivate := by
      rw [present]
      constructor
      · exact fun now => settled _ _ _ _ now before
      · rintro rfl
        exact before
    rw [mem_edgesOf_foldl_revise_of_mem _ _ (distinct_names _)
      (Std.ExtTreeMap.mem_toList_iff_getElem?_eq_some.mpr found) side,
      mem_edgesOf_reviseDependency, side, unchanged]
    simp only [known, true_and, Option.some.injEq, Prod.mk.injEq,
      getElem?_ofList_referencedTypes partitioned]
    constructor
    · rintro (⟨_, member, -, rfl⟩ | ⟨kept, rfl⟩)
      · exact member
      · exact kept rfl
    · intro member
      by_cases same : isPrivate = wasPrivate
      · exact .inr ⟨fun _ => same ▸ member, same⟩
      · exact .inl ⟨isPrivate, member, same, rfl⟩
  · have untouched : ∀ dependency ∈ (graph.dependenciesOf abi.className).toList, ∀ isPrivate,
        dependencyAt abi.className name edge ≠ some (dependency.1, isPrivate) := by
      rintro ⟨other, wasPrivate⟩ listed found heq
      rw [side] at heq
      obtain ⟨rfl, -⟩ := Prod.mk.inj (Option.some.inj heq)
      have hfound := Std.ExtTreeMap.mem_toList_iff_getElem?_eq_some.mp listed
      exact known (Std.ExtTreeMap.mem_iff_isSome_getElem?.mpr (by simp [hfound]))
    rw [mem_edgesOf_foldl_revise_of_ne _ _ untouched, present]
    refine iff_of_false (fun holds => known ?_) (fun both => known both.1)
    have found := (getElem?_dependenciesOf settled _ _ _).mpr holds
    exact Std.ExtTreeMap.mem_iff_isSome_getElem?.mpr (by simp [found])

/-- After a revision the sides of dependencies of the class are those of its surface, and all
other edges are as they were. -/
theorem mem_edgesOf_update {graph : Graph} (mirrored : graph.Mirrored) (settled : graph.Settled)
    {abi : SourceAbi} (partitioned : abi.Partitioned) (name : String) (edge : Edge) :
    edge ∈ (graph.update abi).edgesOf name ↔
      (∃ reference ∈ abi.referencedTypes, dependencyAt abi.className name edge = some reference) ∨
        dependencyAt abi.className name edge = none ∧ edge ∈ graph.edgesOf name := by
  cases hreal : graph.isReal abi.className with
  | false =>
      rw [update, updateFrom, hreal, if_neg Bool.false_ne_true, mem_edgesOf_linkAll]
      refine or_congr_right ?_
      constructor
      · intro member
        refine ⟨?_, member⟩
        cases side : dependencyAt abi.className name edge with
        | none => rfl
        | some dependency =>
            have holds := (mirrored.mem_edgesOf_iff_dependsOn side).mp member
            have real := (graph.isReal_iff abi.className).mpr ⟨_, _, holds⟩
            simp [hreal] at real
      · exact fun member => member.2
  | true =>
      rw [update, updateFrom, hreal, if_pos rfl, foldl_linkNew_eq, mem_edgesOf_foldl_link]
      cases side : dependencyAt abi.className name edge with
      | none =>
          rw [mem_edgesOf_foldl_revise_of_ne _ _ (by simp [side])]
          simp
      | some dependency =>
          obtain ⟨type, isPrivate⟩ := dependency
          rw [mem_edgesOf_revised mirrored settled partitioned side]
          simp only [Option.some.injEq, exists_eq_right', List.mem_filter, reduceCtorEq, false_and,
            or_false, Std.ExtTreeMap.mem_toList_iff_getElem?_eq_some,
            getElem?_ofList_referencedTypes partitioned, Bool.not_eq_true',
            ← Bool.not_eq_true, Std.ExtTreeMap.contains_iff_mem]
          rw [and_comm, ← or_and_right]
          exact and_iff_right (em _).symm

theorem dependsOn_update_of_ne (graph : Graph) {abi : SourceAbi} {name : String}
    (different : name ≠ abi.className) (type : String) (isPrivate : Bool) :
    (graph.update abi).DependsOn name type isPrivate ↔ graph.DependsOn name type isPrivate := by
  have elsewhere : dependencyAt abi.className name ⟨.incoming, isPrivate, type⟩ = none := by
    simp [dependencyAt, different]
  rw [DependsOn, DependsOn, update, updateFrom]
  split
  · rw [foldl_linkNew_eq, mem_edgesOf_foldl_link, mem_edgesOf_foldl_revise_of_ne _ _ (by
      simp [elsewhere])]
    simp [elsewhere]
  · rw [mem_edgesOf_linkAll]
    simp [elsewhere]

theorem contains_update {graph : Graph} (mirrored : graph.Mirrored) (settled : graph.Settled)
    {abi : SourceAbi} (partitioned : abi.Partitioned) (name : String) :
    (graph.update abi).contains name ↔
      (∃ isPrivate, (name, isPrivate) ∈ abi.referencedTypes) ∨ name = abi.className ∨
        graph.contains name := by
  cases hreal : graph.isReal abi.className with
  | false => rw [update, updateFrom, hreal, if_neg Bool.false_ne_true, contains_linkAll]
  | true =>
      obtain ⟨_, _, holds⟩ := (graph.isReal_iff abi.className).mp hreal
      have hasClass := contains_of_mem_edgesOf holds
      have hasType : ∀ type ∈ graph.dependenciesOf abi.className, graph.contains type := by
        intro type member
        obtain ⟨isPrivate, found⟩ :=
          Option.isSome_iff_exists.mp (Std.ExtTreeMap.mem_iff_isSome_getElem?.mp member)
        exact mirrored.contains_peer ((getElem?_dependenciesOf settled _ _ _).mp found)
      have revised := contains_foldl_revise abi (.ofList abi.referencedTypes compare)
        (graph.dependenciesOf abi.className).toList graph hasClass (by
          rintro ⟨type, isPrivate⟩ listed
          refine hasType type (Std.ExtTreeMap.mem_iff_isSome_getElem?.mpr ?_)
          rw [Std.ExtTreeMap.mem_toList_iff_getElem?_eq_some.mp listed]
          rfl)
      rw [update, updateFrom, hreal, if_pos rfl, foldl_linkNew_eq,
        contains_foldl_link _ _ _ _ ((revised _).mpr hasClass), revised]
      simp only [List.mem_filter, Std.ExtTreeMap.mem_toList_iff_getElem?_eq_some,
        getElem?_ofList_referencedTypes partitioned, Bool.not_eq_true', ← Bool.not_eq_true,
        Std.ExtTreeMap.contains_iff_mem]
      constructor
      · rintro (⟨isPrivate, member, -⟩ | member)
        · exact .inl ⟨isPrivate, member⟩
        · exact .inr (.inr member)
      · rintro (⟨isPrivate, member⟩ | rfl | member)
        · by_cases known : name ∈ graph.dependenciesOf abi.className
          · exact .inr (hasType name known)
          · exact .inl ⟨isPrivate, member, known⟩
        · exact .inr hasClass
        · exact .inr member

theorem update_eq_linkAll_dropDependencies {graph : Graph} (mirrored : graph.Mirrored)
    (settled : graph.Settled) {abi : SourceAbi} (partitioned : abi.Partitioned) :
    graph.update abi = (graph.dropDependencies abi.className).linkAll abi := by
  apply ext_edges
  · intro name
    rw [Bool.eq_iff_iff, contains_update mirrored settled partitioned, contains_linkAll,
      contains_dropDependencies]
  · intro name edge
    rw [mem_edgesOf_update mirrored settled partitioned, mem_edgesOf_linkAll,
      mem_edgesOf_dropDependencies mirrored settled]

/-! ## What keeps dependencies settled -/

theorem Settled.empty : Graph.empty.Settled := by
  intro name type first second holds
  simp [DependsOn] at holds

theorem dependsOn_update {graph : Graph} (mirrored : graph.Mirrored) (settled : graph.Settled)
    {abi : SourceAbi} (partitioned : abi.Partitioned) (name type : String) (isPrivate : Bool) :
    (graph.update abi).DependsOn name type isPrivate ↔
      if name = abi.className then (type, isPrivate) ∈ abi.referencedTypes
      else graph.DependsOn name type isPrivate := by
  rw [DependsOn, mem_edgesOf_update mirrored settled partitioned]
  by_cases same : name = abi.className
  · simp [dependencyAt, same]
  · simp [dependencyAt, same, DependsOn]

theorem Settled.update {graph : Graph} (mirrored : graph.Mirrored) (settled : graph.Settled)
    {abi : SourceAbi} (partitioned : abi.Partitioned) : (graph.update abi).Settled := by
  intro name type first second hfirst hsecond
  rw [dependsOn_update mirrored settled partitioned] at hfirst hsecond
  split at hfirst
  next same =>
    rw [if_pos same] at hsecond
    exact partitioned.eq_of_mem hfirst hsecond
  next different =>
    rw [if_neg different] at hsecond
    exact settled _ _ _ _ hfirst hsecond

theorem dependsOn_delete {graph : Graph} (mirrored : graph.Mirrored) (owner name type : String)
    (isPrivate : Bool) :
    (graph.delete owner).DependsOn name type isPrivate ↔
      name ≠ owner ∧ type ≠ owner ∧ graph.DependsOn name type isPrivate :=
  mirrored.mem_edgesOf_delete owner name _

theorem Settled.delete {graph : Graph} (mirrored : graph.Mirrored) (settled : graph.Settled)
    (name : String) : (graph.delete name).Settled := by
  intro owner type first second hfirst hsecond
  rw [dependsOn_delete mirrored] at hfirst hsecond
  exact settled _ _ _ _ hfirst.2.2 hsecond.2.2

end AbiBuild.Dependency.Graph
