import AbiBuild.Proofs.Dependency.Codec
import AbiBuild.Proofs.Dependency.Loading

/-!
# Stored forms in every order

A graph may be stored by visiting its classes, and the edges of each, in any order, with each name
taken into the pool when it is first met.  Positions then depend on the order; what they stand for
does not.
-/

namespace AbiBuild.Dependency

/-! ## Taking names into the pool -/

def intern (names : List String) (name : String) : UInt32 × List String :=
  if name ∈ names then (Graph.indexIn names name, names)
  else (UInt32.ofNat names.length, names ++ [name])

def storeEdges : List String → List Edge → List StoredEdge × List String
  | names, [] => ([], names)
  | names, edge :: edges =>
    let (peer, names) := intern names edge.peer
    let (stored, names) := storeEdges names edges
    (⟨edge.direction, edge.isPrivate, peer⟩ :: stored, names)

def storeNodes : List String → List (String × List Edge) → List StoredNode × List String
  | names, [] => ([], names)
  | names, (owner, edges) :: nodes =>
    let (name, names) := intern names owner
    let (stored, names) := storeEdges names edges
    let (others, names) := storeNodes names nodes
    (⟨name, stored⟩ :: others, names)

def edgeIn (names : List String) (edge : Edge) : StoredEdge :=
  ⟨edge.direction, edge.isPrivate, Graph.indexIn names edge.peer⟩

def nodeIn (names : List String) (node : String × List Edge) : StoredNode :=
  ⟨Graph.indexIn names node.1, node.2.map (edgeIn names)⟩

def mentionedIn (node : String × List Edge) : List String :=
  node.1 :: node.2.map (·.peer)

structure Extends (names : List String) (among : List String) (pool : List String) : Prop where
  goesOn : names <+: pool
  nodup : names.Nodup → pool.Nodup
  covers : ∀ name ∈ among, name ∈ pool
  within : ∀ name ∈ pool, name ∈ names ∨ name ∈ among

namespace Extends

variable {names middle pool first second : List String}

theorem refl (names : List String) : Extends names [] names :=
  ⟨List.prefix_refl names, id, by simp, fun _ => .inl⟩

theorem trans (left : Extends names first middle) (right : Extends middle second pool) :
    Extends names (first ++ second) pool where
  goesOn := left.goesOn.trans right.goesOn
  nodup := right.nodup ∘ left.nodup
  covers := by
    intro name listed
    rcases List.mem_append.mp listed with listed | listed
    · exact right.goesOn.subset (left.covers name listed)
    · exact right.covers name listed
  within := by
    intro name listed
    rw [List.mem_append]
    rcases right.within name listed with inMiddle | listed
    · exact (left.within name inMiddle).imp id .inl
    · exact .inr (.inr listed)

theorem intern (names : List String) (name : String) :
    Extends names [name] (intern names name).2 := by
  unfold AbiBuild.Dependency.intern
  split
  next known => exact ⟨List.prefix_refl names, id, by simpa using known, fun _ => .inl⟩
  next isNew =>
    refine ⟨List.prefix_append names [name], ?_, by simp, fun _ => by simp⟩
    intro nodup
    rw [List.nodup_append]
    refine ⟨nodup, by simp, ?_⟩
    rintro known listed other single rfl
    exact isNew (List.mem_singleton.mp single ▸ listed)

theorem storeEdges (edges : List Edge) (names : List String) :
    Extends names (edges.map (·.peer)) (storeEdges names edges).2 := by
  induction edges generalizing names with
  | nil => exact refl names
  | cons edge edges ih => exact (intern names edge.peer).trans (ih _)

theorem storeNodes (nodes : List (String × List Edge)) (names : List String) :
    Extends names (nodes.flatMap mentionedIn) (storeNodes names nodes).2 := by
  induction nodes generalizing names with
  | nil => exact refl names
  | cons node nodes ih =>
      obtain ⟨owner, edges⟩ := node
      exact ((intern names owner).trans (storeEdges edges _)).trans (ih _)

end Extends

theorem indexIn_of_initial {names pool : List String} (goesOn : names <+: pool) {name : String}
    (listed : name ∈ names) : Graph.indexIn pool name = Graph.indexIn names name := by
  obtain ⟨more, rfl⟩ := goesOn
  rw [Graph.indexIn, Graph.indexIn, List.idxOf_append_of_mem listed]

theorem intern_eq {names pool : List String} {name : String}
    (goesOn : (intern names name).2 <+: pool) :
    (intern names name).1 = Graph.indexIn pool name := by
  rw [indexIn_of_initial goesOn ((Extends.intern names name).covers name (by simp))]
  unfold intern
  split
  next => rfl
  next isNew => rw [Graph.indexIn, List.idxOf_append_of_notMem isNew]; simp

theorem storeEdges_eq {edges : List Edge} {names pool : List String}
    (goesOn : (storeEdges names edges).2 <+: pool) :
    (storeEdges names edges).1 = edges.map (edgeIn pool) := by
  induction edges generalizing names with
  | nil => rfl
  | cons edge edges ih =>
      have rest : (storeEdges (intern names edge.peer).2 edges).2 <+: pool := goesOn
      have first := intern_eq ((Extends.storeEdges edges _).goesOn.trans rest)
      rw [List.map_cons, ← ih rest, edgeIn, ← first]
      rfl

theorem storeNodes_eq {nodes : List (String × List Edge)} {names pool : List String}
    (goesOn : (storeNodes names nodes).2 <+: pool) :
    (storeNodes names nodes).1 = nodes.map (nodeIn pool) := by
  induction nodes generalizing names with
  | nil => rfl
  | cons node nodes ih =>
      obtain ⟨owner, edges⟩ := node
      have rest : (storeNodes (storeEdges (intern names owner).2 edges).2 nodes).2 <+: pool := goesOn
      have afterEdges := (Extends.storeNodes nodes _).goesOn.trans rest
      have first := intern_eq ((Extends.storeEdges edges _).goesOn.trans afterEdges)
      rw [List.map_cons, ← ih rest, nodeIn, ← first, ← storeEdges_eq afterEdges]
      rfl

namespace Graph

/-! ## The stored forms of a graph -/

/-- The classes are visited in some order, each with its edges in some order.  The stored edges of
each node are sorted at the end. -/
structure StoresAs (graph : Graph) (stored : StoredGraph) : Prop where
  version : stored.version = storedVersion
  visited : ∃ (visited : List (String × List Edge)) (sort : List StoredEdge → List StoredEdge),
    (visited.map (·.1)).Perm graph.classNames ∧
    (∀ node ∈ visited, node.2.Perm (graph.edgesOf node.1).toList) ∧
    (∀ edges, (sort edges).Perm edges) ∧
    stored.names = (storeNodes [] visited).2 ∧
    stored.nodes = (storeNodes [] visited).1.map fun node => ⟨node.name, sort node.edges⟩

theorem exists_storesAs (graph : Graph) : ∃ stored, graph.StoresAs stored := by
  let visited := graph.classNames.map fun name => (name, (graph.edgesOf name).toList)
  refine ⟨⟨storedVersion, (storeNodes [] visited).2, (storeNodes [] visited).1⟩, rfl, visited, id,
    ?_, ?_, fun _ => .refl _, rfl, by simp⟩
  · rw [List.map_map]
    exact .of_eq (List.map_id' _)
  · simp [visited]

structure StoresWith (graph : Graph) (visited : List (String × List Edge))
    (sort : List StoredEdge → List StoredEdge) (stored : StoredGraph) : Prop where
  classes : (visited.map (·.1)).Perm graph.classNames
  edges : ∀ node ∈ visited, node.2.Perm (graph.edgesOf node.1).toList
  sorts : ∀ edges, (sort edges).Perm edges
  version : stored.version = storedVersion
  nodes : stored.nodes = visited.map fun node =>
    ⟨indexIn stored.names node.1, sort (node.2.map (edgeIn stored.names))⟩
  nodup : stored.names.Nodup
  mentions : ∀ name, name ∈ stored.names ↔ name ∈ visited.flatMap mentionedIn

theorem StoresAs.storesWith {graph : Graph} {stored : StoredGraph} (stores : graph.StoresAs stored) :
    ∃ visited sort, graph.StoresWith visited sort stored := by
  obtain ⟨version, visited, sort, classes, edges, sorts, names, nodes⟩ := stores
  have grown := Extends.storeNodes visited []
  rw [← names] at grown
  have written : (storeNodes [] visited).1 = visited.map (nodeIn stored.names) :=
    storeNodes_eq (names ▸ List.prefix_refl _)
  refine ⟨visited, sort, classes, edges, sorts, version, ?_, grown.nodup List.nodup_nil, ?_⟩
  · rw [nodes, written, List.map_map]
    rfl
  · intro name
    constructor
    · intro listed
      exact (grown.within name listed).resolve_left List.not_mem_nil
    · exact grown.covers name

namespace StoresWith

variable {graph : Graph} {visited : List (String × List Edge)}
  {sort : List StoredEdge → List StoredEdge} {stored : StoredGraph}

theorem contains_iff (stores : graph.StoresWith visited sort stored) (name : String) :
    graph.contains name ↔ ∃ edges, (name, edges) ∈ visited := by
  have listed := stores.classes.mem_iff (a := name)
  rw [classNames, Std.ExtTreeMap.mem_keys, List.mem_map] at listed
  rw [contains, Std.ExtTreeMap.contains_iff_mem, ← listed]
  simp

theorem mem_edges_iff (stores : graph.StoresWith visited sort stored) {name : String}
    {edges : List Edge} (visit : (name, edges) ∈ visited) (edge : Edge) :
    edge ∈ edges ↔ edge ∈ graph.edgesOf name :=
  (stores.edges _ visit).mem_iff.trans Std.ExtTreeSet.mem_toList

theorem mem_names_iff (stores : graph.StoresWith visited sort stored) (name : String) :
    name ∈ stored.names ↔ name ∈ graph.pool := by
  simp only [stores.mentions, mem_pool, List.mem_flatMap, Prod.exists, mentionedIn, List.mem_cons,
    List.mem_map]
  constructor
  · rintro ⟨owner, edges, visit, rfl | ⟨edge, member, rfl⟩⟩
    · exact .inl ((stores.contains_iff name).mpr ⟨edges, visit⟩)
    · exact .inr ⟨owner, edge, (stores.mem_edges_iff visit edge).mp member, rfl⟩
  · rintro (hasNode | ⟨owner, edge, member, rfl⟩)
    · obtain ⟨edges, visit⟩ := (stores.contains_iff name).mp hasNode
      exact ⟨name, edges, visit, .inl rfl⟩
    · obtain ⟨edges, visit⟩ := (stores.contains_iff owner).mp (contains_of_mem_edgesOf member)
      exact ⟨owner, edges, visit, .inr ⟨edge, (stores.mem_edges_iff visit edge).mpr member, rfl⟩⟩

theorem length_names_le (stores : graph.StoresWith visited sort stored) :
    stored.names.length ≤ graph.pool.length :=
  (List.Nodup.subperm stores.nodup fun name => (stores.mem_names_iff name).mp).length_le

theorem position (stores : graph.StoresWith visited sort stored)
    (few : graph.pool.length < 2 ^ 32) {name : String} (listed : name ∈ graph.pool) :
    stored.names[(indexIn stored.names name).toNat]? = some name :=
  getElem?_indexIn (Nat.le_trans stores.length_names_le (Nat.le_of_lt few))
    ((stores.mem_names_iff name).mpr listed)

theorem mem_nodes (stores : graph.StoresWith visited sort stored) {node : StoredNode} :
    node ∈ stored.nodes ↔ ∃ name edges, (name, edges) ∈ visited ∧
      node = ⟨indexIn stored.names name, sort (edges.map (edgeIn stored.names))⟩ := by
  rw [stores.nodes, List.mem_map]
  simp only [Prod.exists, @eq_comm _ node]

theorem peer_mem_pool (stores : graph.StoresWith visited sort stored) {name : String}
    {edges : List Edge} (visit : (name, edges) ∈ visited) {edge : Edge} (member : edge ∈ edges) :
    edge.peer ∈ graph.pool :=
  (graph.mem_pool edge.peer).mpr
    (.inr ⟨name, edge, (stores.mem_edges_iff visit edge).mp member, rfl⟩)

theorem name_mem_pool (stores : graph.StoresWith visited sort stored) {name : String}
    {edges : List Edge} (visit : (name, edges) ∈ visited) : name ∈ graph.pool :=
  (graph.mem_pool name).mpr (.inl ((stores.contains_iff name).mpr ⟨edges, visit⟩))

theorem edge?_edgeIn (stores : graph.StoresWith visited sort stored)
    (few : graph.pool.length < 2 ^ 32) {edge : Edge} (listed : edge.peer ∈ graph.pool) :
    StoredGraph.edge? stored.names (edgeIn stored.names edge) = some edge := by
  rw [StoredGraph.edge?, edgeIn, stores.position few listed]
  rfl

theorem ofStored (stores : graph.StoresWith visited sort stored)
    (few : graph.pool.length < 2 ^ 32) :
    Graph.ofStored stored = .ok graph := by
  have inside : ∀ {name}, name ∈ graph.pool →
      (indexIn stored.names name).toNat < stored.names.length := fun listed =>
    (List.getElem?_eq_some_iff.mp (stores.position few listed)).1
  apply ofStored_eq_ok stores.version
  · intro node listed
    obtain ⟨name, edges, visit, rfl⟩ := stores.mem_nodes.mp listed
    refine ⟨inside (stores.name_mem_pool visit), fun written sorted => ?_⟩
    obtain ⟨edge, member, rfl⟩ := List.mem_map.mp ((stores.sorts _).mem_iff.mp sorted)
    exact inside (stores.peer_mem_pool visit member)
  · intro name
    rw [stores.contains_iff]
    constructor
    · rintro ⟨node, listed, named⟩
      obtain ⟨owner, edges, visit, rfl⟩ := stores.mem_nodes.mp listed
      rw [stores.position few (stores.name_mem_pool visit)] at named
      exact ⟨edges, Option.some.inj named ▸ visit⟩
    · rintro ⟨edges, visit⟩
      exact ⟨_, stores.mem_nodes.mpr ⟨name, edges, visit, rfl⟩,
        stores.position few (stores.name_mem_pool visit)⟩
  · intro name edge
    constructor
    · rintro ⟨node, listed, named, written, sorted, stands⟩
      obtain ⟨owner, edges, visit, rfl⟩ := stores.mem_nodes.mp listed
      rw [stores.position few (stores.name_mem_pool visit)] at named
      obtain rfl := Option.some.inj named
      obtain ⟨found, member, rfl⟩ := List.mem_map.mp ((stores.sorts _).mem_iff.mp sorted)
      rw [stores.edge?_edgeIn few (stores.peer_mem_pool visit member)] at stands
      exact (stores.mem_edges_iff visit edge).mp (Option.some.inj stands ▸ member)
    · intro member
      obtain ⟨edges, visit⟩ := (stores.contains_iff name).mp (contains_of_mem_edgesOf member)
      have listed := (stores.mem_edges_iff visit edge).mpr member
      refine ⟨_, stores.mem_nodes.mpr ⟨name, edges, visit, rfl⟩,
        stores.position few (stores.name_mem_pool visit), edgeIn stored.names edge,
        (stores.sorts _).mem_iff.mpr (List.mem_map_of_mem listed), ?_⟩
      exact stores.edge?_edgeIn few (stores.peer_mem_pool visit listed)

end StoresWith

/-! ## Octets -/

/-- How stored forms are written as octets, and read again. -/
structure OctetForm where
  encode : StoredGraph → Bytes
  decode : Bytes → Except CacheFault StoredGraph
  compress : Bytes → Bytes
  decompress? : Bytes → Option Bytes

namespace OctetForm

def write (form : OctetForm) (stored : StoredGraph) : Bytes :=
  form.compress (form.encode stored)

def read (form : OctetForm) (bytes : Bytes) : Except CacheFault Graph := do
  match form.decompress? bytes with
  | some content => Graph.ofStored (← form.decode content)
  | none => throw .notCompressed

/-- What is written of a stored form is read as it. -/
structure Restores (form : OctetForm) (stored : StoredGraph) : Prop where
  decode : form.decode (form.encode stored) = .ok stored
  decompress? : form.decompress? (form.compress (form.encode stored)) = some (form.encode stored)

/-- The form in which cache files hold graphs. -/
def messagePack : OctetForm := ⟨encodeGraph, decodeGraph, Zstandard.compress, Zstandard.decompress?⟩

example (graph : Graph) : messagePack.write graph.toStored = graph.serialize := rfl

example (bytes : Bytes) : messagePack.read bytes = deserialize bytes := rfl

theorem read_write {form : OctetForm} {stored : StoredGraph} {graph : Graph}
    (restores : form.Restores stored) (loads : Graph.ofStored stored = .ok graph) :
    form.read (form.write stored) = .ok graph := by
  rw [read, write, restores.decompress?]
  change (form.decode (form.encode stored) >>= Graph.ofStored) = .ok graph
  rw [restores.decode]
  exact loads

theorem restores_messagePack {graph : Graph} {visited : List (String × List Edge)}
    {sort : List StoredEdge → List StoredEdge} {stored : StoredGraph}
    (stores : graph.StoresWith visited sort stored) (storable : graph.Storable) :
    messagePack.Restores stored := by
  have classes : stored.nodes.length = graph.nodes.toList.length := by
    have visits := stores.classes.length_eq
    rw [classNames, ← Std.ExtTreeMap.map_fst_toList_eq_keys, List.length_map, List.length_map]
      at visits
    rw [stores.nodes, List.length_map, visits]
  have reads := storedGraph_suffix stored
    (Nat.lt_of_le_of_lt stores.length_names_le storable.names)
    (fun name listed => storable.texts name ((stores.mem_names_iff name).mp listed))
    (by
      rw [classes]
      exact Nat.lt_of_le_of_lt graph.length_nodes_le_pool storable.names)
    (by
      intro node listed
      obtain ⟨name, edges, visit, rfl⟩ := stores.mem_nodes.mp listed
      have hasNode := (stores.contains_iff name).mpr ⟨edges, visit⟩
      rw [contains_eq_isSome, Option.isSome_iff_exists] at hasNode
      obtain ⟨found, hnode⟩ := hasNode
      have bound := storable.edges (name, found)
        (Std.ExtTreeMap.mem_toList_iff_getElem?_eq_some.mpr hnode)
      have length := (stores.edges _ visit).length_eq
      rw [edgesOf, hnode, Option.getD_some, Std.ExtTreeSet.length_toList] at length
      rw [(stores.sorts _).length_eq, List.length_map, length]
      exact bound) []
  rw [List.append_nil] at reads
  have decoded : decodeGraph (encodeGraph stored) = .ok stored := by rw [decodeGraph, reads]
  constructor
  · simpa only [messagePack] using decoded
  · exact Zstandard.decompress?_compress (encodeGraph stored)

end OctetForm

/-- Whatever the order in which a graph is visited, its stored form loads as the graph, also by way
of octets: of any that give back the stored form, and of MessagePack's as far as it can count. -/
theorem stored_graph_reads_back (graph : Graph) (few : graph.pool.length < 2 ^ 32) :
    (∃ stored, graph.StoresAs stored) ∧
    (∀ stored, graph.StoresAs stored → ofStored stored = .ok graph ∧
      (∀ form : OctetForm, form.Restores stored → form.read (form.write stored) = .ok graph) ∧
      (graph.Storable → OctetForm.messagePack.Restores stored)) ∧
    ofStored graph.toStored = .ok graph ∧
    (graph.Storable → deserialize graph.serialize = .ok graph) := by
  refine ⟨graph.exists_storesAs, ?_, graph.ofStored_toStored (Nat.le_of_lt few),
    deserialize_serialize⟩
  intro stored stores
  obtain ⟨visited, sort, visits⟩ := stores.storesWith
  have loads := visits.ofStored few
  exact ⟨loads, fun form restores => OctetForm.read_write restores loads,
    OctetForm.restores_messagePack visits⟩

/-- A class that mentions itself, one mentioned in both ways that has no node, and one alone. -/
theorem stored_graph_reads_back_unmirrored :
    let graph : Graph := ⟨Std.ExtTreeMap.ofList
      [("B", ∅), ("A", Std.ExtTreeSet.ofList
        [⟨.outgoing, true, "X"⟩, ⟨.outgoing, false, "X"⟩, ⟨.incoming, false, "A"⟩] compare)] compare⟩
    let stored : StoredGraph := ⟨1, ["B", "A", "X"],
      [⟨0, []⟩, ⟨1, [⟨.incoming, false, 1⟩, ⟨.outgoing, false, 2⟩, ⟨.outgoing, true, 2⟩]⟩]⟩
    graph.pool.length < 2 ^ 32 ∧ graph.Storable ∧ graph.StoresAs stored ∧
      ofStored stored = .ok graph ∧ deserialize graph.serialize = .ok graph := by
  intro graph stored
  have few : graph.pool.length < 2 ^ 32 := by decide +kernel
  have storable : graph.Storable := ⟨few, by decide +kernel, by decide +kernel⟩
  have stores : graph.StoresAs stored := by
    refine ⟨rfl, [("B", []), ("A", [⟨.outgoing, true, "X"⟩, ⟨.outgoing, false, "X"⟩,
      ⟨.incoming, false, "A"⟩])], List.reverse, by decide +kernel, by decide +kernel, ?_,
      by decide +kernel, by decide +kernel⟩
    exact fun edges => List.reverse_perm edges
  obtain ⟨-, every, -, reads⟩ := stored_graph_reads_back graph few
  exact ⟨few, storable, stores, (every stored stores).1, reads storable⟩

end Graph

end AbiBuild.Dependency
