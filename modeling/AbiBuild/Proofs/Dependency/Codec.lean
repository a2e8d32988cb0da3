import AbiBuild.Dependency.Codec
import AbiBuild.Proofs.Dependency.Stored
import AbiBuild.Proofs.MessagePack.RoundTrip
import AbiBuild.Proofs.Zstandard.Frame
import Mathlib.Data.List.Perm.Subperm

/-!
# Graphs survive their octets

MessagePack has no lengths beyond 32 bits.  A graph whose names and edges keep to them is read back
as it was.
-/

namespace AbiBuild.Dependency

open MessagePack

/-! ## Fields -/

theorem word_suffix (value : UInt32) : Reads word (encodeUnsigned value.toNat) value := by
  have bound := value.toNat_lt
  have number : Reads (unsigned 32) (encodeUnsigned value.toNat) value.toNat :=
    unsigned_suffix bound (by omega)
  have reads := number.map UInt32.ofNat
  rwa [UInt32.ofNat_toNat] at reads

private theorem direction_suffix (value : Direction) :
    Reads direction (encodeText value.text) value := by
  let names := [Direction.incoming.text, Direction.outgoing.text]
  cases value with
  | incoming =>
      have chosen : Reads (choice names) (encodeText Direction.incoming.text) 0 :=
        choice_suffix (by decide) (by decide)
      exact chosen.bind_pure rfl
  | outgoing =>
      have chosen : Reads (choice names) (encodeText Direction.outgoing.text) 1 :=
        choice_suffix (by decide) (by decide)
      exact chosen.bind_pure rfl

theorem edge_suffix (value : StoredEdge) : Reads edge (encodeEdge value) value := by
  rw [encodeEdge, List.append_assoc, List.append_assoc]
  refine Reads.bind_pure (recordOf_suffix ["direction", "is_private", "peer"]
    ⟨some value.direction, some value.isPrivate, some value.peer⟩ (by decide) ?_) rfl
  refine Reads.bind (((direction_suffix value.direction).map some).bind_pure rfl) ?_
  refine Reads.bind (((bool_suffix value.isPrivate).map some).bind_pure rfl) ?_
  exact Reads.bind_pure (((word_suffix value.peer).map some).bind_pure rfl) rfl

theorem node_suffix {value : StoredNode} (short : value.edges.length < 2 ^ 32) :
    Reads node (encodeNode value) value := by
  have edges := list_suffix short fun edge _ => edge_suffix edge
  rw [encodeNode, List.append_assoc]
  refine Reads.bind_pure (recordOf_suffix ["name", "edges"]
    ⟨some value.name, some value.edges⟩ (by decide) ?_) rfl
  refine Reads.bind (((word_suffix value.name).map some).bind_pure rfl) ?_
  exact Reads.bind_pure ((edges.map some).bind_pure rfl) rfl

theorem storedGraph_suffix (value : StoredGraph) (names : value.names.length < 2 ^ 32)
    (texts : ∀ name ∈ value.names, (Text.Utf8.encode name).length < 2 ^ 32)
    (nodes : value.nodes.length < 2 ^ 32)
    (edges : ∀ node ∈ value.nodes, node.edges.length < 2 ^ 32) :
    Reads storedGraph (encodeGraph value) value := by
  have readNames := list_suffix names fun name listed => text_suffix (texts name listed)
  have readNodes := list_suffix nodes fun node listed => node_suffix (edges node listed)
  rw [encodeGraph, List.append_assoc, List.append_assoc]
  refine Reads.bind_pure (recordOf_suffix ["version", "names", "nodes"]
    ⟨some value.version, some value.names, some value.nodes⟩ (by decide) ?_) rfl
  refine Reads.bind (((word_suffix value.version).map some).bind_pure rfl) ?_
  refine Reads.bind ((readNames.map some).bind_pure rfl) ?_
  exact Reads.bind_pure ((readNodes.map some).bind_pure rfl) rfl

namespace Graph

/-- The names, their lengths and the edges of each class can be counted in 32 bits. -/
structure Storable (graph : Graph) : Prop where
  names : graph.pool.length < 2 ^ 32
  texts : ∀ name ∈ graph.pool, (Text.Utf8.encode name).length < 2 ^ 32
  edges : ∀ node ∈ graph.nodes.toList, node.2.size < 2 ^ 32

theorem length_nodes_le_pool (graph : Graph) :
    graph.nodes.toList.length ≤ graph.pool.length := by
  have names : graph.nodes.toList.map (·.1) = graph.nodes.keys :=
    Std.ExtTreeMap.map_fst_toList_eq_keys
  have included : graph.nodes.keys ⊆ graph.pool := by
    intro name listed
    refine (graph.mem_pool name).mpr (.inl ?_)
    rw [contains, Std.ExtTreeMap.contains_iff_mem]
    exact Std.ExtTreeMap.mem_keys.mp listed
  rw [← List.length_map (f := (·.1)), names]
  exact (List.Nodup.subperm Std.ExtTreeMap.nodup_keys included).length_le

theorem deserialize_serialize {graph : Graph} (storable : graph.Storable) :
    deserialize graph.serialize = .ok graph := by
  have written := storedGraph_suffix graph.toStored storable.names storable.texts
    (by
      rw [toStored, List.length_map]
      exact Nat.lt_of_le_of_lt graph.length_nodes_le_pool storable.names)
    (by
      simp only [toStored, List.mem_map, Prod.exists]
      rintro node ⟨owner, edges, listed, rfl⟩
      have bound := storable.edges _ listed
      rwa [← Std.ExtTreeSet.length_toList, ← List.length_map] at bound)
  have decoded : decodeGraph (encodeGraph graph.toStored) = .ok graph.toStored := by
    have reads := written []
    rw [List.append_nil] at reads
    rw [decodeGraph, reads]
  rw [deserialize, serialize, Zstandard.decompress?_compress]
  change (decodeGraph (encodeGraph graph.toStored) >>= ofStored) = .ok graph
  rw [decoded]
  exact graph.ofStored_toStored (Nat.le_of_lt storable.names)

theorem storable_of_length {graph : Graph} (short : graph.serialize.length < 2 ^ 32) :
    graph.Storable := by
  have content : (encodeGraph graph.toStored).length ≤ graph.serialize.length := by
    have blocks := Zstandard.length_le_compress (encodeGraph graph.toStored)
    exact blocks
  have parts : (graph.pool.flatMap encodeText).length +
      (graph.toStored.nodes.flatMap encodeNode).length ≤ (encodeGraph graph.toStored).length := by
    simp only [encodeGraph, encodeList, List.length_append]
    have names : graph.toStored.names = graph.pool := rfl
    rw [names]
    omega
  have names := length_le_flatMap_of_pos encodeText graph.pool
    fun name _ => Nat.zero_lt_of_lt (length_lt_encodeText name)
  refine ⟨by omega, ?_, ?_⟩
  · intro name listed
    have text := length_lt_encodeText name
    have part := length_le_flatMap encodeText listed
    omega
  · rintro ⟨owner, edges⟩ listed
    have stored : (⟨indexIn graph.pool owner, edges.toList.map fun edge =>
        ⟨edge.direction, edge.isPrivate, indexIn graph.pool edge.peer⟩⟩ : StoredNode) ∈
        graph.toStored.nodes := List.mem_map.mpr ⟨_, listed, rfl⟩
    have part := length_le_flatMap encodeNode stored
    simp only [encodeNode, encodeList, List.length_append] at part
    have inner := length_le_flatMap_of_pos encodeEdge (edges.toList.map fun edge =>
        (⟨edge.direction, edge.isPrivate, indexIn graph.pool edge.peer⟩ : StoredEdge)) (by
        intro edge _
        have head := encodeArrayHead_pos 3
        simp only [encodeEdge, List.length_append]
        omega)
    rw [List.length_map, Std.ExtTreeSet.length_toList] at inner
    dsimp only
    omega

end Graph

end AbiBuild.Dependency
