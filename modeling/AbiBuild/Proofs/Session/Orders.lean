import AbiBuild.Proofs.Session.Reflects
import AbiBuild.Session.Orders
import AbiBuild.Session.Snapshot

/-!
# Sessions do not depend on the order of edges

As long as a graph has both sides of each dependency and none of them in two ways, the order in which
its edges come shows in nothing that a session does.  Removing sources keeps the graph so, and so does
taking in surfaces that keep their public and private types apart.
-/

namespace AbiBuild

open Files Dependency

section Loops

variable {ε σ α : Type} {holds : σ → Prop}

def Retains (holds : σ → Prop) (before after : σ) : Prop := holds before → holds after

instance : Accumulates (Retains holds) where
  refl _ := id
  trans first second := second ∘ first

theorem bind_eq_of_retains {β : Type} {action : EStateM ε σ α} {next other : α → EStateM ε σ β}
    (retains : Moves (Retains holds) action)
    (same : ∀ value state, holds state → next value state = other value state) {state : σ}
    (start : holds state) : (action >>= next) state = (action >>= other) state := by
  simp only [bind, EStateM.bind]
  cases ended : action state with
  | ok value middle => exact same value middle ((retains state).of_ok ended start)
  | error _ _ => rfl

theorem forM_eq_of_retains {step other : α → EStateM ε σ PUnit} {values : List α}
    (same : ∀ value state, holds state → step value state = other value state)
    (retains : ∀ value, Moves (Retains holds) (step value)) {state : σ} (start : holds state) :
    values.forM step state = values.forM other state := by
  induction values generalizing state with
  | nil => rfl
  | cons value values ih =>
      change (step value >>= fun _ => values.forM step) state =
        (other value >>= fun _ => values.forM other) state
      have others : (step value >>= fun _ => values.forM other) state =
          (other value >>= fun _ => values.forM other) state := by
        simp only [bind, EStateM.bind, same value state start]
      exact (bind_eq_of_retains (retains value) (fun _ _ => ih) start).trans others

theorem forM_zipIdx (step : α → EStateM ε σ PUnit) (values : List α) (start : Nat) :
    (values.zipIdx start).forM (fun entry => step entry.1) = values.forM step := by
  induction values generalizing start with
  | nil => rfl
  | cons value values ih =>
      change (step value >>= fun _ => (values.zipIdx (start + 1)).forM fun entry => step entry.1) =
        (step value >>= fun _ => values.forM step)
      rw [ih]

end Loops

/-- Each surface that can be read keeps its public and its private types apart. -/
def Toolchain.Partitions (toolchain : Toolchain) : Prop :=
  ∀ files path abi, toolchain.surfaceOf files path = .ok abi → abi.Partitioned

namespace Session

open SessionAction

variable {toolchain : Toolchain} {outputRoot : Path} {order : EdgeOrder} {orders : Nat → EdgeOrder}

theorem snapshotAlong_eq {session : Session} (healthy : session.graph.Healthy) (order : EdgeOrder) :
    session.snapshotAlong order = session.snapshot := by
  have peers : ∀ order direction name, session.graph.peersAlong order direction name =
      session.graph.peersOf direction name :=
    Graph.peersAlong_eq healthy.mirrored healthy.settled
  refine List.map_congr_left fun name _ => ?_
  simp only [classSnapshotAlong, dependenciesAlong, peers]

theorem learnAlong_eq {session : Session} (healthy : session.graph.Healthy) (order : EdgeOrder)
    (abi : SourceAbi) (source : Path) :
    session.learnAlong order abi source = session.learn abi source := by
  rw [learnAlong, learn, Graph.updateAlong_eq healthy.mirrored healthy.settled]

/-! ## What keeps a graph healthy -/

abbrev KeepsHealthy : OpenSession → OpenSession → Prop :=
  Retains fun opened => opened.session.graph.Healthy

theorem keepsHealthy_outside {α : Type} (action : BuildAction α) :
    Moves KeepsHealthy (outside action) := by
  intro opened
  rw [ends_outside]
  exact (ends_true action opened.world).imp (fun _ _ _ => id) fun _ _ _ => id

theorem keepsHealthy_current : Moves KeepsHealthy current := fun _ => id

theorem keepsHealthy_revise {change : Session → Session}
    (keeps : ∀ session, session.graph.Healthy → (change session).graph.Healthy) :
    Moves KeepsHealthy (revise change) :=
  fun opened => keeps opened.session

theorem keepsHealthy_forgetClass (name : String) (source : Path) :
    Moves KeepsHealthy (forgetClass toolchain outputRoot name source) := by
  refine Moves.bind keepsHealthy_current fun session => ?_
  split
  · exact Moves.bind (keepsHealthy_outside _) fun _ =>
      keepsHealthy_revise fun _ healthy => healthy.delete name
  · exact Moves.pure _

theorem keepsHealthy_forgetPrevious (batch : List Declaration) (declaration : Declaration) :
    Moves KeepsHealthy (forgetPrevious toolchain outputRoot batch declaration) := by
  refine Moves.bind keepsHealthy_current fun session => ?_
  split
  · exact Moves.pure _
  · split
    · exact keepsHealthy_forgetClass _ _
    · exact Moves.pure _

theorem keepsHealthy_removeSources (sources : List Path) :
    Moves KeepsHealthy (removeSources toolchain outputRoot sources) := by
  refine Moves.forM fun source _ => Moves.bind keepsHealthy_current fun session => ?_
  split
  · exact Moves.pure _
  · exact Moves.bind (keepsHealthy_revise fun _ => id) fun _ => keepsHealthy_forgetClass _ _

theorem keepsHealthy_declarations (sources : List Path) :
    Moves KeepsHealthy (sources.mapM fun source => do
      let name ← consult fun _ files => toolchain.typeDeclaredBy files source
      pure (Declaration.mk source name)) := by
  intro opened
  refine (ends_declarations toolchain sources opened).imp ?_ ?_
  · rintro _ _ ⟨rfl, -⟩
    exact id
  · rintro _ _ rfl
    exact id

section Refresh

variable (partitions : toolchain.Partitions)
include partitions

theorem keepsHealthy_refreshOneAlong (declaration : Declaration) :
    Moves KeepsHealthy (refreshOneAlong order toolchain outputRoot declaration) := by
  intro opened
  simp only [refreshOneAlong, ends_bind, ends_look, ends_revise]
  cases surface : toolchain.surfaceOf opened.world.files
      (Outputs.unitPath outputRoot declaration.name toolchain.outputExtension) with
  | error error => exact id
  | ok abi =>
      intro healthy
      rw [learnAlong_eq healthy]
      exact healthy_learn healthy (partitions _ _ _ surface) _

theorem keepsHealthy_refreshAlong (sources : List Path) :
    Moves KeepsHealthy (refreshAlong orders toolchain outputRoot sources) := by
  refine Moves.bind (keepsHealthy_declarations sources) fun batch => Moves.bind
    (Moves.forM fun declaration _ => keepsHealthy_forgetPrevious batch declaration) fun _ => ?_
  exact Moves.forM fun entry _ => keepsHealthy_refreshOneAlong partitions entry.1

omit partitions in
theorem refreshOneAlong_eq (declaration : Declaration) {opened : OpenSession}
    (healthy : opened.session.graph.Healthy) :
    refreshOneAlong order toolchain outputRoot declaration opened =
      refreshOne toolchain outputRoot declaration opened := by
  simp only [refreshOneAlong, refreshOne, bind, EStateM.bind, consult]
  cases toolchain.surfaceOf opened.world.files
      (Outputs.unitPath outputRoot declaration.name toolchain.outputExtension) with
  | error error => rfl
  | ok abi => simp only [revise, learnAlong_eq healthy]

theorem refreshAlong_eq (sources : List Path) {opened : OpenSession}
    (healthy : opened.session.graph.Healthy) :
    refreshAlong orders toolchain outputRoot sources opened =
      refresh toolchain outputRoot sources opened := by
  have units : ∀ (batch : List Declaration) (state : OpenSession), state.session.graph.Healthy →
      (batch.zipIdx.forM fun entry =>
        refreshOneAlong (orders entry.2) toolchain outputRoot entry.1) state =
      batch.forM (refreshOne toolchain outputRoot) state := by
    intro batch state kept
    have retains : ∀ entry : Declaration × Nat,
        Moves KeepsHealthy (refreshOneAlong (orders entry.2) toolchain outputRoot entry.1) :=
      fun entry => keepsHealthy_refreshOneAlong partitions entry.1
    have same : ∀ (entry : Declaration × Nat) (opened : OpenSession),
        opened.session.graph.Healthy →
        refreshOneAlong (orders entry.2) toolchain outputRoot entry.1 opened =
          refreshOne toolchain outputRoot entry.1 opened :=
      fun entry _ => refreshOneAlong_eq entry.1
    rw [← forM_zipIdx (refreshOne toolchain outputRoot) batch 0]
    exact forM_eq_of_retains same retains kept
  rw [refreshAlong, refresh]
  refine bind_eq_of_retains (keepsHealthy_declarations sources) (fun batch _ kept => ?_) healthy
  exact bind_eq_of_retains
    (Moves.forM fun declaration _ => keepsHealthy_forgetPrevious batch declaration)
    (fun _ => units batch) kept

end Refresh

end Session

end AbiBuild
