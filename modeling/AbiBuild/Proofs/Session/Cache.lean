import AbiBuild.Proofs.Collections
import AbiBuild.Proofs.Dependency.Codec
import AbiBuild.Proofs.Session.Paired

/-!
# Sessions survive their cache file

What a session stores is read back as it was.  The types of the sources are not stored; they come
back from the sources of the types, with which they agree.
-/

namespace AbiBuild

open Files MessagePack Dependency

namespace CacheData

theorem reader_suffix {stored : CacheData} (classes : stored.classToSource.length < 2 ^ 32)
    (texts : ∀ entry ∈ stored.classToSource, (Text.Utf8.encode entry.1).length < 2 ^ 32 ∧
      (Text.Utf8.encode entry.2).length < 2 ^ 32)
    (graph : stored.graph.length < 2 ^ 32) : Reads reader stored.encode stored := by
  have readClasses := pairs_suffix classes (fun entry listed => text_suffix (texts entry listed).1)
    (fun entry listed => text_suffix (texts entry listed).2)
  rw [encode, List.append_assoc, List.append_assoc]
  refine Reads.bind_pure (recordOf_suffix ["version", "class_to_source", "graph"]
    ⟨some stored.version, some stored.classToSource, some stored.graph⟩ (by decide) ?_) rfl
  refine Reads.bind (((word_suffix stored.version).map some).bind_pure rfl) ?_
  refine Reads.bind ((readClasses.map some).bind_pure rfl) ?_
  exact Reads.bind_pure (((binary_suffix graph).map some).bind_pure rfl) rfl

private def pairOctets (entry : String × String) : Bytes :=
  encodeText entry.1 ++ encodeText entry.2

private theorem length_parts (stored : CacheData) :
    (stored.classToSource.flatMap pairOctets).length + stored.graph.length ≤
      stored.encode.length := by
  have octets := length_le_encodeBinary stored.graph
  have written : stored.encode = encodeArrayHead 3 ++ encodeUnsigned stored.version.toNat ++
      (encodeMapHead stored.classToSource.length ++ stored.classToSource.flatMap pairOctets) ++
      encodeBinary stored.graph := rfl
  rw [written]
  simp only [List.length_append]
  omega

/-- Numbers of entries and lengths that fit in 32 bits, which is all that MessagePack counts. -/
structure Encodable (stored : CacheData) : Prop where
  classes : stored.classToSource.length < 2 ^ 32
  texts : ∀ entry ∈ stored.classToSource, (Text.Utf8.encode entry.1).length < 2 ^ 32 ∧
    (Text.Utf8.encode entry.2).length < 2 ^ 32
  graph : stored.graph.length < 2 ^ 32

theorem encodable_of_length {stored : CacheData} (short : stored.encode.length < 2 ^ 32) :
    stored.Encodable := by
  have parts := length_parts stored
  have classes := length_le_flatMap_of_pos pairOctets stored.classToSource (by
    intro entry _
    have text := length_lt_encodeText entry.1
    rw [pairOctets, List.length_append]
    omega)
  refine ⟨by omega, ?_, by omega⟩
  intro entry listed
  have part := length_le_flatMap pairOctets listed
  have first := length_lt_encodeText entry.1
  have second := length_lt_encodeText entry.2
  rw [pairOctets, List.length_append] at part
  exact ⟨by omega, by omega⟩

theorem decode_encode {stored : CacheData} (encodable : stored.Encodable) :
    decode stored.encode = .ok stored := by
  have whole := reader_suffix encodable.classes encodable.texts encodable.graph []
  rw [List.append_nil] at whole
  rw [decode, whole]

end CacheData

namespace Session

/-- A session whose written form can be counted in 32 bits. -/
def Storable (session : Session) : Prop := session.toCacheData.encode.length < 2 ^ 32

theorem ofCacheData_of_graph (session : Session) {graph : Bytes}
    (reads : Graph.deserialize graph = .ok session.graph) :
    ofCacheData { session.toCacheData with graph } =
      .ok (ofStored session.classToSource session.graph) := by
  have classes : Std.ExtTreeMap.ofList (session.toCacheData.classToSource.map
      fun entry => (entry.1, Files.Path.mk entry.2)) compare = session.classToSource := by
    have listed : session.toCacheData.classToSource.map
        (fun entry => (entry.1, Files.Path.mk entry.2)) = session.classToSource.toList := by
      simp [toCacheData, Function.comp_def]
    rw [listed, ofList_toList]
  have version : session.toCacheData.version = cacheVersion := rfl
  simp only [ofCacheData, if_pos version, reads, classes]
  rfl

theorem ofCacheData_toCacheData {session : Session} (encodable : session.toCacheData.Encodable) :
    ofCacheData session.toCacheData = .ok (ofStored session.classToSource session.graph) :=
  session.ofCacheData_of_graph
    (Graph.deserialize_serialize (Graph.storable_of_length encodable.graph))

theorem load_of_encodable {session : Session} (encodable : session.toCacheData.Encodable)
    {files : FileSystem} {cacheFile : Path}
    (stored : files.read cacheFile = .ok session.toCacheData.encode) :
    load files cacheFile = .ok (ofStored session.classToSource session.graph) := by
  rw [load, stored]
  simp only [Except.mapError, CacheData.decode_encode encodable, bind, Except.bind,
    ofCacheData_toCacheData encodable]

theorem load_of_read {session : Session} (storable : session.Storable) {files : FileSystem}
    {cacheFile : Path} (stored : files.read cacheFile = .ok session.toCacheData.encode) :
    load files cacheFile = .ok (ofStored session.classToSource session.graph) :=
  load_of_encodable (CacheData.encodable_of_length storable) stored

theorem start_of_load {world : World} {cacheFile : Path} {session : Session}
    (present : world.files.pathExists cacheFile)
    (loads : load world.files cacheFile = .ok session) :
    start cacheFile world = .ok session world := by
  simp only [start, bind, EStateM.bind, BuildAction.inspect, present, loads, if_true]
  rfl

/-! ## The types of the sources -/

private theorem getElem?_foldl_insert (entries : List (String × Path))
    (map : Std.ExtTreeMap Location String compare) (location : Location) (name : String)
    (apart : entries.Pairwise fun first second => first.2.location ≠ second.2.location) :
    (entries.foldl (fun map (name, source) => map.insert source.location name) map)[location]? =
        some name ↔
      (∃ source, (name, source) ∈ entries ∧ source.location = location) ∨
        map[location]? = some name ∧ ∀ entry ∈ entries, entry.2.location ≠ location := by
  induction entries generalizing map with
  | nil => simp
  | cons entry entries ih =>
      obtain ⟨first, source⟩ := entry
      rw [List.pairwise_cons] at apart
      rw [List.foldl_cons, ih _ apart.2, Std.ExtTreeMap.getElem?_insert, List.forall_mem_cons]
      by_cases here : source.location = location
      · have later : ∀ entry ∈ entries, entry.2.location ≠ location := by
          rintro entry member rfl
          exact apart.1 entry member here
        rw [if_pos (Std.LawfulEqCmp.compare_eq_iff_eq.mpr here)]
        constructor
        · rintro (⟨other, member, there⟩ | ⟨same, -⟩)
          · exact absurd there (later (name, other) member)
          · obtain rfl := Option.some.inj same
            exact .inl ⟨source, .head _, here⟩
        · rintro (⟨other, member, there⟩ | ⟨-, elsewhere, -⟩)
          · rcases List.mem_cons.mp member with heq | member
            · obtain ⟨rfl, -⟩ := Prod.mk.inj heq
              exact .inr ⟨rfl, later⟩
            · exact absurd there (later (name, other) member)
          · exact absurd here elsewhere
      · rw [if_neg (mt Std.LawfulEqCmp.compare_eq_iff_eq.mp here)]
        refine or_congr ?_ (and_congr_right fun _ => (and_iff_right here).symm)
        refine exists_congr fun other => and_congr_left fun there => ?_
        rw [List.mem_cons]
        refine (or_iff_right ?_).symm
        intro heq
        exact here ((Prod.mk.inj heq).2 ▸ there)

theorem Paired.sourceToClass_ofStored {session : Session} (paired : session.Paired)
    (graph : Graph) :
    (ofStored session.classToSource graph).sourceToClass = session.sourceToClass := by
  have apart : session.classToSource.toList.Pairwise fun first second =>
      first.2.location ≠ second.2.location := by
    refine Std.ExtTreeMap.distinct_keys_toList.imp_of_mem ?_
    rintro ⟨first, source⟩ ⟨second, other⟩ hfirst hsecond different same
    rw [Std.ExtTreeMap.mem_toList_iff_getElem?_eq_some] at hfirst hsecond
    exact different (Std.LawfulEqCmp.compare_eq_iff_eq.mpr (paired.name_eq hfirst hsecond same))
  apply Std.ExtTreeMap.ext_getElem?
  intro location
  apply Option.ext
  intro name
  rw [ofStored, getElem?_foldl_insert _ _ _ _ apart, paired location name]
  simp [Std.ExtTreeMap.mem_toList_iff_getElem?_eq_some]

theorem Paired.ofStored {session : Session} (paired : session.Paired) (graph : Graph) :
    (Session.ofStored session.classToSource graph).Paired := by
  intro location name
  rw [paired.sourceToClass_ofStored]
  exact paired location name

end Session

end AbiBuild
