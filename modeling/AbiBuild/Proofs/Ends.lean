import AbiBuild.Session.Basic

/-!
# How actions end

An action either returns or fails, and in both cases leaves a state behind.  What holds then is
found by going through its steps.
-/

namespace AbiBuild

variable {ε σ α β : Type}

/-- Run from this state, the action returns so or fails so. -/
def Ends (action : EStateM ε σ α) (state : σ) (done : α → σ → Prop) (failed : ε → σ → Prop) : Prop :=
  match action state with
  | .ok value next => done value next
  | .error error next => failed error next

theorem Ends.imp {action : EStateM ε σ α} {state : σ} {done done' : α → σ → Prop}
    {failed failed' : ε → σ → Prop} (ends : Ends action state done failed)
    (returns : ∀ value next, done value next → done' value next)
    (fails : ∀ error next, failed error next → failed' error next) :
    Ends action state done' failed' := by
  unfold Ends at *
  cases hresult : action state with
  | ok value next => exact returns value next (by simpa [hresult] using ends)
  | error error next => exact fails error next (by simpa [hresult] using ends)

theorem Ends.and {action : EStateM ε σ α} {state : σ} {done done' : α → σ → Prop}
    {failed failed' : ε → σ → Prop} (first : Ends action state done failed)
    (second : Ends action state done' failed') :
    Ends action state (fun value next => done value next ∧ done' value next)
      (fun error next => failed error next ∧ failed' error next) := by
  unfold Ends at *
  cases hresult : action state with
  | ok value next => exact ⟨by simpa [hresult] using first, by simpa [hresult] using second⟩
  | error error next => exact ⟨by simpa [hresult] using first, by simpa [hresult] using second⟩

theorem Ends.result {action : EStateM ε σ α} {state : σ} {done : α → σ → Prop}
    {failed : ε → σ → Prop} (ends : Ends action state done failed) :
    Ends action state (fun value next => action state = .ok value next ∧ done value next)
      (fun error next => action state = .error error next ∧ failed error next) := by
  unfold Ends at *
  cases hresult : action state with
  | ok value next => exact ⟨rfl, by simpa [hresult] using ends⟩
  | error error next => exact ⟨rfl, by simpa [hresult] using ends⟩

theorem Ends.of_imp {action : EStateM ε σ α} {state : σ} {condition : Prop} {done : α → σ → Prop}
    (ends : condition → Ends action state done fun _ _ => True) :
    Ends action state (fun value next => condition → done value next) fun _ _ => True := by
  unfold Ends at *
  cases hresult : action state with
  | ok value next => exact fun holds => by simpa [hresult] using ends holds
  | error error next => trivial

theorem ends_true (action : EStateM ε σ α) (state : σ) :
    Ends action state (fun _ _ => True) (fun _ _ => True) := by
  unfold Ends
  cases action state <;> trivial

theorem Ends.forall {ι : Type} {action : EStateM ε σ α} {state : σ} {done : ι → α → σ → Prop}
    (each : ∀ index, Ends action state (done index) (fun _ _ => True)) :
    Ends action state (fun value next => ∀ index, done index value next) (fun _ _ => True) := by
  unfold Ends at *
  cases hresult : action state with
  | ok value next => exact fun index => by simpa [hresult] using each index
  | error error next => trivial

theorem Ends.of_ok {action : EStateM ε σ α} {state next : σ} {value : α} {done : α → σ → Prop}
    {failed : ε → σ → Prop} (ends : Ends action state done failed)
    (returns : action state = .ok value next) : done value next := by
  rwa [Ends, returns] at ends

theorem Ends.of_error {action : EStateM ε σ α} {state next : σ} {error : ε} {done : α → σ → Prop}
    {failed : ε → σ → Prop} (ends : Ends action state done failed)
    (fails : action state = .error error next) : failed error next := by
  rwa [Ends, fails] at ends

@[simp] theorem ends_pure (value : α) (state : σ) (done : α → σ → Prop) (failed : ε → σ → Prop) :
    Ends (pure value) state done failed ↔ done value state := Iff.rfl

@[simp] theorem ends_throw (error : ε) (state : σ) (done : α → σ → Prop) (failed : ε → σ → Prop) :
    Ends (throw error) state done failed ↔ failed error state := Iff.rfl

@[simp] theorem ends_bind (action : EStateM ε σ α) (next : α → EStateM ε σ β) (state : σ)
    (done : β → σ → Prop) (failed : ε → σ → Prop) :
    Ends (action >>= next) state done failed ↔
      Ends action state (fun value state => Ends (next value) state done failed) failed := by
  simp only [Ends, bind, EStateM.bind]
  cases action state <;> rfl

@[simp] theorem ends_tryCatch (action : EStateM ε σ α) (handle : ε → EStateM ε σ α) (state : σ)
    (done : α → σ → Prop) (failed : ε → σ → Prop) :
    Ends (tryCatch action handle) state done failed ↔
      Ends action state done fun error state => Ends (handle error) state done failed := by
  change Ends (EStateM.tryCatch action handle) state done failed ↔ _
  delta EStateM.tryCatch
  simp only [Ends]
  cases action state <;> rfl

@[simp] theorem ends_ite (condition : Prop) [Decidable condition] (first second : EStateM ε σ α)
    (state : σ) (done : α → σ → Prop) (failed : ε → σ → Prop) :
    Ends (if condition then first else second) state done failed ↔
      if condition then Ends first state done failed else Ends second state done failed := by
  split <;> rfl

theorem Ends.forM {step : α → EStateM ε σ PUnit} {failed : ε → σ → Prop}
    (holds : List α → σ → Prop)
    (keeps : ∀ value rest state, holds (value :: rest) state →
      Ends (step value) state (fun _ next => holds rest next) failed)
    (values : List α) (state : σ) (start : holds values state) :
    Ends (values.forM step) state (fun _ next => holds [] next) failed := by
  induction values generalizing state with
  | nil => exact start
  | cons value values ih =>
      change Ends (step value >>= fun _ => values.forM step) state _ _
      rw [ends_bind]
      refine (keeps value values state start).imp ?_ fun _ _ fails => fails
      exact fun _ next kept => ih next kept

theorem exists_of_bind_eq_ok {action : EStateM ε σ α} {next : α → EStateM ε σ β} {state last : σ}
    {result : β} (returns : (action >>= next) state = .ok result last) :
    ∃ value middle, action state = .ok value middle ∧ next value middle = .ok result last := by
  simp only [bind, EStateM.bind] at returns
  cases first : action state with
  | ok value middle => exact ⟨value, middle, rfl, by simpa [first] using returns⟩
  | error error middle => simp [first] at returns

/-! ## Running an action -/

/-- The state that an action leaves behind. -/
def stateAfter (action : EStateM ε σ α) (state : σ) : σ :=
  match action state with
  | .ok _ next | .error _ next => next

theorem stateAfter_of_eq_ok {action : EStateM ε σ α} {state next : σ} {value : α}
    (returns : action state = .ok value next) : stateAfter action state = next := by
  rw [stateAfter, returns]

/-- Does the action return, rather than fail? -/
def returns (action : EStateM ε σ α) (state : σ) : Bool :=
  match action state with
  | .ok _ _ => true
  | .error _ _ => false

theorem exists_of_returns {action : EStateM ε σ α} {state : σ} (succeeds : returns action state) :
    ∃ value, action state = .ok value (stateAfter action state) := by
  unfold returns at succeeds
  unfold stateAfter
  cases ends : action state with
  | ok value next => exact ⟨value, rfl⟩
  | error error next => simp [ends] at succeeds

theorem exists_of_fails {action : EStateM ε σ α} {state : σ} (fails : returns action state = false) :
    ∃ error, action state = .error error (stateAfter action state) := by
  unfold returns at fails
  unfold stateAfter
  cases ends : action state with
  | ok value next => simp [ends] at fails
  | error error next => exact ⟨error, rfl⟩

theorem stateAfter_of_eq_error {action : EStateM ε σ α} {state next : σ} {error : ε}
    (fails : action state = .error error next) : stateAfter action state = next := by
  rw [stateAfter, fails]

theorem bind_eq_error {action : EStateM ε σ α} {next : α → EStateM ε σ β} {state last : σ}
    {error : ε} (fails : action state = .error error last) :
    (action >>= next) state = .error error last := by
  simp only [bind, EStateM.bind, fails]

theorem Ends.stateAfter {action : EStateM ε σ α} {state : σ} {holds : σ → Prop}
    (ends : Ends action state (fun _ next => holds next) fun _ next => holds next) :
    holds (stateAfter action state) := by
  unfold Ends at ends
  unfold AbiBuild.stateAfter
  cases result : action state with
  | ok value next => simpa [result] using ends
  | error error next => simpa [result] using ends

def outcome? (action : EStateM ε σ α) (state : σ) : Option (α × σ) :=
  match action state with
  | .ok value next => some (value, next)
  | .error _ _ => none

theorem eq_ok_of_outcome? {action : EStateM ε σ α} {state next : σ} {value : α}
    (ends : outcome? action state = some (value, next)) : action state = .ok value next := by
  unfold outcome? at ends
  cases result : action state with
  | ok other last => simpa [result] using ends
  | error error last => simp [result] at ends

def error? (action : EStateM ε σ α) (state : σ) : Option ε :=
  match action state with
  | .ok _ _ => none
  | .error error _ => some error

theorem eq_error_of_error? {action : EStateM ε σ α} {state : σ} {error : ε}
    (fails : error? action state = some error) :
    action state = .error error (stateAfter action state) := by
  unfold error? at fails
  unfold stateAfter
  cases result : action state with
  | ok value next => simp [result] at fails
  | error other next => simpa [result] using fails

/-! ## What every step respects -/

/-- Relations that hold of a whole run once they hold of each step. -/
class Accumulates (related : σ → σ → Prop) : Prop where
  refl : ∀ state, related state state
  trans : ∀ {first second third}, related first second → related second third →
    related first third

instance {τ : Type} (related : σ → σ → Prop) [Accumulates related] (view : τ → σ) :
    Accumulates (InvImage related view) where
  refl state := Accumulates.refl (view state)
  trans first second := (inferInstance : Accumulates related).trans first second

def Moves (related : σ → σ → Prop) (action : EStateM ε σ α) : Prop :=
  ∀ state, Ends action state (fun _ next => related state next) (fun _ next => related state next)

theorem Moves.imp {first second : σ → σ → Prop} {action : EStateM ε σ α}
    (moves : Moves first action) (weaker : ∀ state next, first state next → second state next) :
    Moves second action :=
  fun state => (moves state).imp (fun _ next => weaker state next) fun _ next => weaker state next

namespace Moves

variable {related : σ → σ → Prop} [Accumulates related]

protected theorem pure (value : α) : Moves related (pure value : EStateM ε σ α) :=
  fun state => Accumulates.refl state

protected theorem throw (error : ε) : Moves related (throw error : EStateM ε σ α) :=
  fun state => Accumulates.refl state

protected theorem bind {action : EStateM ε σ α} {next : α → EStateM ε σ β}
    (first : Moves related action) (second : ∀ value, Moves related (next value)) :
    Moves related (action >>= next) := by
  intro state
  rw [ends_bind]
  refine (first state).imp ?_ fun _ _ moved => moved
  intro value middle moved
  exact (second value middle).imp (fun _ _ => Accumulates.trans moved)
    (fun _ _ => Accumulates.trans moved)

protected theorem tryCatch {action : EStateM ε σ α} {handle : ε → EStateM ε σ α}
    (first : Moves related action) (second : ∀ error, Moves related (handle error)) :
    Moves related (tryCatch action handle) := by
  intro state
  rw [ends_tryCatch]
  refine (first state).imp (fun _ _ moved => moved) ?_
  intro error middle moved
  exact (second error middle).imp (fun _ _ => Accumulates.trans moved)
    (fun _ _ => Accumulates.trans moved)

protected theorem forM {step : α → EStateM ε σ PUnit} {values : List α}
    (each : ∀ value ∈ values, Moves related (step value)) : Moves related (values.forM step) := by
  induction values with
  | nil => exact Moves.pure ()
  | cons value values ih =>
      rw [List.forall_mem_cons] at each
      exact Moves.bind each.1 fun _ => ih each.2

end Moves

/-! ## Steps of builds and sessions -/

section Build

open Files

instance [DecidableEq FileSystem] : DecidableEq World := fun first second =>
  decidable_of_iff (first.files = second.files ∧ first.notices = second.notices) <| by
    cases first
    cases second
    simp

variable {world : World} {done : α → World → Prop} {failed : BuildError → World → Prop}

@[simp] theorem ends_notify (notice : Notice) (world : World) (done : Unit → World → Prop)
    (failed : BuildError → World → Prop) :
    Ends (BuildAction.notify notice) world done failed ↔
      done () { world with notices := world.notices ++ [notice] } := Iff.rfl

@[simp] theorem ends_inspect (look : FileSystem → α) :
    Ends (BuildAction.inspect look) world done failed ↔ done (look world.files) world := Iff.rfl

@[simp] theorem ends_consult (look : FileSystem → Except BuildError α) :
    Ends (BuildAction.consult look) world done failed ↔
      match look world.files with
      | .ok value => done value world
      | .error error => failed error world := by
  simp only [Ends, BuildAction.consult]
  cases look world.files <;> rfl

@[simp] theorem ends_change (action : FileAction α) :
    Ends (BuildAction.change action) world done failed ↔
      Ends action world.files (fun value files => done value { world with files })
        (fun fault files => failed (.io fault) { world with files }) := by
  simp only [Ends, BuildAction.change]
  cases action world.files <;> rfl

@[simp] theorem ends_tryChange (action : FileAction Unit) (world : World)
    (done : Unit → World → Prop) (failed : BuildError → World → Prop) :
    Ends (BuildAction.tryChange action) world done failed ↔
      Ends action world.files (fun _ files => done () { world with files })
        (fun _ files => done () { world with files }) := by
  simp only [Ends, BuildAction.tryChange]
  cases action world.files <;> rfl

end Build

section Session

open Files SessionAction

variable {opened : OpenSession} {done : α → OpenSession → Prop}
  {failed : BuildError → OpenSession → Prop}

@[simp] theorem ends_outside (action : BuildAction α) :
    Ends (outside action) opened done failed ↔
      Ends action opened.world (fun value world => done value { opened with world })
        (fun error world => failed error { opened with world }) := by
  simp only [Ends, outside]
  cases action opened.world <;> rfl

@[simp] theorem ends_current (opened : OpenSession) (done : Session → OpenSession → Prop)
    (failed : BuildError → OpenSession → Prop) :
    Ends current opened done failed ↔ done opened.session opened := Iff.rfl

@[simp] theorem ends_revise (change : Session → Session) (opened : OpenSession)
    (done : Unit → OpenSession → Prop) (failed : BuildError → OpenSession → Prop) :
    Ends (revise change) opened done failed ↔
      done () { opened with session := change opened.session } := Iff.rfl

@[simp] theorem ends_look (look : Session → FileSystem → Except BuildError α) :
    Ends (SessionAction.consult look) opened done failed ↔
      match look opened.session opened.world.files with
      | .ok value => done value opened
      | .error error => failed error opened := by
  simp only [Ends, SessionAction.consult]
  cases look opened.session opened.world.files <;> rfl

@[simp] theorem ends_run (session : Session) (action : SessionAction α) (world : World)
    (done : α → World → Prop) (failed : BuildError → World → Prop) :
    Ends (run session action) world done failed ↔
      Ends action ⟨session, world⟩ (fun value opened => done value opened.world)
        (fun error opened => failed error opened.world) := by
  simp only [Ends, run]
  cases action ⟨session, world⟩ <;> rfl

/-- After a compilation that succeeds the session is changed, and after one that fails the user is
told; the report is made either way. -/
theorem ends_compiled {compile : BuildAction Int} {commit : SessionAction Unit}
    {notice : Int → Notice} {report : Int → α} {compiled : Int → World → Prop}
    (compiles : Ends compile opened.world compiled
      fun error world => failed error { opened with world })
    (good : ∀ next : OpenSession, next.session = opened.session → compiled 0 next.world →
      Ends commit next (fun _ last => done (report 0) last) failed)
    (bad : ∀ exitCode world notices, exitCode ≠ 0 → compiled exitCode world →
      done (report exitCode) { opened with world := { world with notices } }) :
    Ends (do
        let exitCode ← outside compile
        if exitCode = 0 then commit
        else outside (BuildAction.notify (notice exitCode))
        pure (report exitCode)) opened done failed := by
  rw [ends_bind, ends_outside]
  refine compiles.imp ?_ fun _ _ fails => fails
  intro exitCode world compiled
  rw [ends_ite]
  split
  next succeeds =>
    subst succeeds
    rw [ends_bind]
    exact good { opened with world } rfl compiled
  next fails =>
    rw [ends_bind, ends_outside, ends_notify]
    exact bad exitCode world _ fails compiled

end Session

/-! ## What steps respect about files -/

section Files

open Files SessionAction

variable {related : FileSystem → FileSystem → Prop}

abbrev OnFiles (related : FileSystem → FileSystem → Prop) : World → World → Prop :=
  InvImage related World.files

abbrev OnOpenFiles (related : FileSystem → FileSystem → Prop) : OpenSession → OpenSession → Prop :=
  InvImage (OnFiles related) OpenSession.world

theorem moves_change {action : FileAction α} (moves : Moves related action) :
    Moves (OnFiles related) (BuildAction.change action) := by
  intro world
  rw [ends_change]
  exact moves world.files

theorem moves_outside {action : BuildAction α} (moves : Moves (OnFiles related) action) :
    Moves (OnOpenFiles related) (outside action) := by
  intro opened
  rw [ends_outside]
  exact moves opened.world

variable [Accumulates related]

theorem moves_current : Moves (OnOpenFiles related) current :=
  fun opened => Accumulates.refl opened.world.files

theorem moves_revise (change : Session → Session) : Moves (OnOpenFiles related) (revise change) :=
  fun opened => Accumulates.refl opened.world.files

theorem moves_look (look : Session → FileSystem → Except BuildError α) :
    Moves (OnOpenFiles related) (SessionAction.consult look) := by
  intro opened
  rw [ends_look]
  split <;> exact Accumulates.refl opened.world.files

end Files

end AbiBuild
