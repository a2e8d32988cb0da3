import AbiBuild.Build.PlainText
import AbiBuild.Proofs.Dependency.Interning
import AbiBuild.Proofs.InStep
import AbiBuild.Proofs.Session.Orders
import AbiBuild.Proofs.Session.Reopen

/-!
# A stored session goes on where it was

Opening a stored session changes nothing but whether it had something to start from.  No operation
asks for that, so both sessions do and become the same from then on.  They may come to differ only
where a class mentions a type in two ways, and one of the two edges decides that comes in no
particular order.
-/

namespace AbiBuild

open Files Dependency

def Session.resumed (session : Session) : Session := { session with isCold := false }

def OpenSession.resumed (opened : OpenSession) : OpenSession :=
  { opened with session := opened.session.resumed }

/-- From the last edge to the first. -/
def Dependency.EdgeOrder.reversed : EdgeOrder where
  listed graph name := (graph.edgesOf name).toList.reverse
  perm _ _ := List.reverse_perm _

namespace SessionAction

variable {α β : Type}

def Resumes (action : SessionAction α) : Prop :=
  ∀ opened, action opened.resumed =
    match action opened with
    | .ok value next => .ok value next.resumed
    | .error error next => .error error next.resumed

theorem resumes_iff_inStep {action : SessionAction α} :
    Resumes action ↔ InStep (fun opened other => other = opened.resumed) action := by
  constructor
  · rintro resumes opened _ rfl
    rw [resumes opened]
    cases action opened with
    | ok value next => exact .returned rfl
    | error error next => exact .failed rfl
  · intro alike opened
    have ends := alike opened _ rfl
    revert ends
    generalize action opened = result
    generalize action opened.resumed = result'
    rintro (same | same)
    · rw [same]
    · rw [same]

namespace Resumes

protected theorem pure (value : α) : Resumes (pure value : SessionAction α) :=
  fun _ => rfl

protected theorem bind {action : SessionAction α} {next : α → SessionAction β}
    (first : Resumes action) (second : ∀ value, Resumes (next value)) :
    Resumes (action >>= next) :=
  resumes_iff_inStep.mpr <| InStep.bind (resumes_iff_inStep.mp first) fun value =>
    resumes_iff_inStep.mp (second value)

theorem outside (action : BuildAction α) : Resumes (SessionAction.outside action) := by
  intro opened
  have sameWorld : opened.resumed.world = opened.world := rfl
  simp only [SessionAction.outside, sameWorld]
  cases action opened.world <;> rfl

theorem revise {change : Session → Session}
    (commutes : ∀ session, change session.resumed = (change session).resumed) :
    Resumes (SessionAction.revise change) := by
  intro opened
  have changed : change opened.resumed.session = (change opened.session).resumed :=
    commutes opened.session
  simp only [SessionAction.revise, changed]
  rfl

theorem consult {look : Session → FileSystem → Except BuildError α}
    (same : ∀ session files, look session.resumed files = look session files) :
    Resumes (SessionAction.consult look) := by
  intro opened
  have answer : look opened.resumed.session opened.resumed.world.files =
      look opened.session opened.world.files := same _ _
  simp only [SessionAction.consult, answer]
  cases look opened.session opened.world.files <;> rfl

theorem current_bind {next : Session → SessionAction β}
    (same : ∀ session, next session.resumed = next session)
    (resumes : ∀ session, Resumes (next session)) : Resumes (SessionAction.current >>= next) := by
  intro opened
  have action : next opened.resumed.session = next opened.session := same opened.session
  change next opened.resumed.session opened.resumed = _
  rw [action, resumes opened.session opened]
  rfl

theorem forM {step : α → SessionAction PUnit} {values : List α}
    (each : ∀ value, Resumes (step value)) : Resumes (values.forM step) :=
  resumes_iff_inStep.mpr <| InStep.forM fun value _ => resumes_iff_inStep.mp (each value)

theorem mapM {step : α → SessionAction β} {values : List α} (each : ∀ value, Resumes (step value)) :
    Resumes (values.mapM step) :=
  resumes_iff_inStep.mpr <| InStep.mapM fun value _ => resumes_iff_inStep.mp (each value)

end Resumes

end SessionAction

namespace Session

open SessionAction

variable (toolchain : Toolchain) (outputRoot : Path)

theorem resumes_forgetClass (name : String) (source : Path) :
    Resumes (forgetClass toolchain outputRoot name source) := by
  refine Resumes.current_bind (fun _ => rfl) fun session => ?_
  split
  · exact Resumes.bind (Resumes.outside _) fun _ => Resumes.revise fun _ => rfl
  · exact Resumes.pure _

theorem resumes_forgetPrevious (batch : List Declaration) (declaration : Declaration) :
    Resumes (forgetPrevious toolchain outputRoot batch declaration) := by
  refine Resumes.current_bind (fun _ => rfl) fun session => ?_
  split
  · exact Resumes.pure _
  · split
    · exact resumes_forgetClass toolchain outputRoot _ _
    · exact Resumes.pure _

theorem record_resumed (session : Session) (name : String) (source : Path) :
    session.resumed.record name source = (session.record name source).resumed := by
  have owner : session.resumed.classToSource[name]? = session.classToSource[name]? := rfl
  simp only [record, owner]
  cases session.classToSource[name]? with
  | none => rfl
  | some previous =>
      have type : session.resumed.recordedType? previous = session.recordedType? previous := rfl
      simp only [type]
      by_cases moved : (decide (previous.location ≠ source.location) &&
          decide (session.recordedType? previous = some name)) = true
      · rw [if_pos moved, if_pos moved]
        rfl
      · rw [if_neg moved, if_neg moved]
        rfl

theorem resumes_refreshOneAlong (order : EdgeOrder) (declaration : Declaration) :
    Resumes (refreshOneAlong order toolchain outputRoot declaration) :=
  Resumes.bind (Resumes.consult fun _ _ => rfl) fun abi =>
    Resumes.revise fun session =>
      record_resumed { session with graph := session.graph.updateAlong order abi } abi.className _

theorem resumes_refreshAlong (orders : Nat → EdgeOrder) (sources : List Path) :
    Resumes (refreshAlong orders toolchain outputRoot sources) := by
  have declares : ∀ source : Path, Resumes (do
      let name ← SessionAction.consult fun _ files => toolchain.typeDeclaredBy files source
      pure (Declaration.mk source name)) := fun source =>
    Resumes.bind (Resumes.consult fun _ _ => rfl) fun _ => Resumes.pure _
  refine Resumes.bind (Resumes.mapM declares) fun batch => ?_
  refine Resumes.bind (Resumes.forM (resumes_forgetPrevious toolchain outputRoot batch)) fun _ => ?_
  exact Resumes.forM fun entry =>
    resumes_refreshOneAlong toolchain outputRoot (orders entry.2) entry.1

theorem resumes_removeSources (sources : List Path) :
    Resumes (removeSources toolchain outputRoot sources) := by
  refine Resumes.forM fun source => Resumes.current_bind (fun _ => rfl) fun session => ?_
  split
  · exact Resumes.pure _
  · exact Resumes.bind (Resumes.revise fun _ => rfl) fun _ =>
      resumes_forgetClass toolchain outputRoot _ _

/-! ## Going on -/

/-- What may be asked of a session that goes on.  In between, anything may happen to the world. -/
inductive Request
  | refresh (outputRoot : Path) (sources : List Path)
  | remove (outputRoot : Path) (sources : List Path)
  | elsewhere (change : World → World)

def meet (toolchain : Toolchain) (orders : Nat → EdgeOrder) : Request → SessionAction Unit
  | .refresh outputRoot sources => refreshAlong orders toolchain outputRoot sources
  | .remove outputRoot sources => removeSources toolchain outputRoot sources
  | .elsewhere change => fun opened => .ok () { opened with world := change opened.world }

/-- Meets requests one after the other, whether or not they fail, and tells how each ended.  The
edges come in other orders each time. -/
def meetAll (toolchain : Toolchain) :
    (Nat → Nat → EdgeOrder) → List Request → OpenSession → List (Option BuildError) × OpenSession
  | _, [], opened => ([], opened)
  | orders, request :: requests, opened =>
    match meet toolchain (orders 0) request opened with
    | .ok () next =>
      let (ends, last) := meetAll toolchain (orders <| · + 1) requests next
      (none :: ends, last)
    | .error error next =>
      let (ends, last) := meetAll toolchain (orders <| · + 1) requests next
      (some error :: ends, last)

theorem resumes_meet (orders : Nat → EdgeOrder) (request : Request) :
    Resumes (meet toolchain orders request) := by
  cases request with
  | refresh outputRoot sources => exact resumes_refreshAlong toolchain outputRoot orders sources
  | remove outputRoot sources => exact resumes_removeSources toolchain outputRoot sources
  | elsewhere change => exact fun _ => rfl

theorem meetAll_resumed (orders : Nat → Nat → EdgeOrder) (requests : List Request)
    (opened : OpenSession) :
    meetAll toolchain orders requests opened.resumed =
      ((meetAll toolchain orders requests opened).1,
        (meetAll toolchain orders requests opened).2.resumed) := by
  induction requests generalizing orders opened with
  | nil => rfl
  | cons request requests ih =>
      have step := resumes_meet toolchain (orders 0) request opened
      simp only [meetAll]
      rw [step]
      cases meet toolchain (orders 0) request opened with
      | ok _ next => simp only [ih _ next]
      | error error next => simp only [ih _ next]

section Orders

variable {toolchain : Toolchain} (partitions : toolchain.Partitions)
include partitions

theorem meet_eq (orders orders' : Nat → EdgeOrder) (request : Request) {opened : OpenSession}
    (healthy : opened.session.graph.Healthy) :
    meet toolchain orders request opened = meet toolchain orders' request opened := by
  cases request with
  | refresh outputRoot sources =>
      exact (refreshAlong_eq partitions sources healthy).trans
        (refreshAlong_eq partitions sources healthy).symm
  | remove outputRoot sources => rfl
  | elsewhere change => rfl

theorem keepsHealthy_meet (orders : Nat → EdgeOrder) (request : Request) :
    Moves KeepsHealthy (meet toolchain orders request) := by
  cases request with
  | refresh outputRoot sources => exact keepsHealthy_refreshAlong partitions sources
  | remove outputRoot sources => exact keepsHealthy_removeSources sources
  | elsewhere change => exact fun _ => id

theorem meetAll_eq (orders orders' : Nat → Nat → EdgeOrder) (requests : List Request)
    {opened : OpenSession} (healthy : opened.session.graph.Healthy) :
    meetAll toolchain orders requests opened = meetAll toolchain orders' requests opened := by
  induction requests generalizing orders orders' opened with
  | nil => rfl
  | cons request requests ih =>
      have kept := keepsHealthy_meet partitions (orders 0) request opened
      simp only [meetAll]
      rw [meet_eq partitions (orders' 0) (orders 0) request healthy]
      cases ended : meet toolchain (orders 0) request opened with
      | ok _ next =>
          simp only [ih (orders <| · + 1) (orders' <| · + 1) (kept.of_ok ended healthy)]
      | error error next =>
          simp only [ih (orders <| · + 1) (orders' <| · + 1) (kept.of_error ended healthy)]

end Orders

theorem ofStored_eq_resumed {session : Session} (paired : session.Paired) :
    ofStored session.classToSource session.graph = session.resumed := by
  have types := paired.sourceToClass_ofStored session.graph
  rw [resumed, ← types]
  rfl

/-- What the cache file of a session may hold: its graph is visited in order, or in any order. -/
inductive StoredAs (session : Session) : CacheData → Prop
  | sorted : StoredAs session session.toCacheData
  | visited {stored : StoredGraph} (stores : session.graph.StoresAs stored) :
      StoredAs session
        { session.toCacheData with graph := Zstandard.compress (encodeGraph stored) }

theorem StoredAs.ofCacheData {session : Session} {data : CacheData} (holds : session.StoredAs data)
    (storable : session.graph.Storable) :
    ofCacheData data = .ok (ofStored session.classToSource session.graph) := by
  cases holds with
  | sorted => exact session.ofCacheData_of_graph (Graph.deserialize_serialize storable)
  | @visited stored stores =>
      obtain ⟨visited, sort, visits⟩ := stores.storesWith
      have restores := Graph.OctetForm.restores_messagePack visits storable
      exact session.ofCacheData_of_graph
        (Graph.OctetForm.read_write restores (visits.ofStored storable.names))

section Removing

/-- `A` mentions `B`, and has a unit with one nested in it. -/
def mentioning : OpenSession where
  session :=
    { classToSource := Std.ExtTreeMap.ofList
        [("A", ⟨"src/first.java"⟩), ("B", ⟨"src/second.java"⟩)] compare
      sourceToClass := Std.ExtTreeMap.ofList
        [(Path.location ⟨"src/first.java"⟩, "A"), (Path.location ⟨"src/second.java"⟩, "B")] compare
      graph := Graph.empty.update (SourceAbi.ofTypes "A" ["B"] [])
      isCold := true }
  world :=
    { files :=
        { entries := Std.ExtTreeMap.ofList
            [(["out"], .directory), (["out", "A.class"], .file []), (["out", "A$N.class"], .file []),
              (["out", "B.class"], .file [])] compare
          host := { workingDirectory := [] } } }

private theorem mentioning_holds :
    mentioning.session.Paired ∧ mentioning.session.toCacheData.classToSource.length < 2 ^ 32 ∧
    (∀ entry ∈ mentioning.session.toCacheData.classToSource,
      (Text.Utf8.encode entry.1).length < 2 ^ 32 ∧ (Text.Utf8.encode entry.2).length < 2 ^ 32) ∧
    mentioning.session.toCacheData.graph.length < 2 ^ 32 ∧
    returns (persist ⟨"cache/pair.bin"⟩) mentioning ∧
    ((stateAfter (persist ⟨"cache/pair.bin"⟩) mentioning).world.files.read
      ⟨"cache/pair.bin"⟩).toOption.isSome := by
  decide +kernel

private theorem healthy_mentioning : mentioning.session.graph.Healthy :=
  Graph.Healthy.empty.update ⟨_, SourceAbi.partitioned_ofTypes "A" ["B"] []⟩

private theorem plainText_partitions : PlainText.toolchain.Partitions := by
  intro files path abi surface
  obtain ⟨text, -, made⟩ := bind_eq_ok.1 surface
  rw [← Except.ok.inj made]
  exact SourceAbi.partitioned_ofTypes _ _ _

end Removing

end Session

end AbiBuild
