import AbiBuild.Proofs.Files.Replace
import AbiBuild.Proofs.Session.Cache

/-!
# Opening a session that was stored

Once a session is stored, its cache file holds what was written, wherever the file lies.  As long as
it is so, and the host lets it be read, it opens as the stored session.
-/

namespace AbiBuild

open Files FileSystem

namespace Session

theorem ends_store_entryOf (cacheFile : Path) (data : CacheData) (opened : OpenSession) :
    Ends (store cacheFile data) opened
      (fun _ next => next.world.files.entryOf cacheFile = .ok (.file data.encode))
      (fun _ _ => True) := by
  simp only [store, ends_outside, ends_change]
  cases cacheFile.parent? with
  | none => exact ends_replaceFile_entryOf cacheFile _ _
  | some parent =>
      rw [ends_bind]
      refine (ends_true _ _).imp ?_ fun _ _ _ => trivial
      exact fun _ middle _ => ends_replaceFile_entryOf cacheFile _ middle

section Unchanged

variable {cacheFile : Path} {data : CacheData} {opened stored : OpenSession} {world : World}
  {session : Session} (unchanged : world.files.read cacheFile = stored.world.files.read cacheFile)
include unchanged

theorem load_of_store (encodable : data.Encodable) (stands : ofCacheData data = .ok session)
    (stores : store cacheFile data opened = .ok () stored) {octets : Bytes}
    (reads : world.files.read cacheFile = .ok octets) :
    load world.files cacheFile = .ok session := by
  have written := (ends_store_entryOf cacheFile data opened).of_ok stores
  have found := entryOf_of_read (unchanged.symm.trans reads)
  obtain rfl := Entry.file.inj (Except.ok.inj (found.symm.trans written))
  rw [load, reads]
  simp only [Except.mapError, CacheData.decode_encode encodable, bind, Except.bind, stands]

theorem start_of_store (encodable : data.Encodable) (stands : ofCacheData data = .ok session)
    (stores : store cacheFile data opened = .ok () stored) {octets : Bytes}
    (reads : world.files.read cacheFile = .ok octets) :
    start cacheFile world = .ok session world :=
  start_of_load (pathExists_of_read reads) (load_of_store unchanged encodable stands stores reads)

/-- If the host does not let the cache file be read, nothing is left of what was stored. -/
theorem eq_of_start {next : World} (storable : opened.session.Storable)
    (stores : persist cacheFile opened = .ok () stored)
    (opens : start cacheFile world = .ok session next) :
    session = ofStored opened.session.classToSource opened.session.graph ∨ session = empty := by
  have encodable := CacheData.encodable_of_length storable
  rcases (ends_start ⟨⟩ (ends_true _ _)).of_ok opens with ⟨loads, -⟩ | ⟨rfl, -⟩
  · cases reads : world.files.read cacheFile with
    | error fault =>
        rw [load, reads] at loads
        cases loads
    | ok octets =>
        have loads' := load_of_store unchanged encodable (ofCacheData_toCacheData encodable) stores
          reads
        exact .inl (Except.ok.inj (loads.symm.trans loads'))
  · exact .inr rfl

end Unchanged

end Session

end AbiBuild
