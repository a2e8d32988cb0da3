import AbiBuild.Proofs.Ends

/-!
# Runs that end alike

Two runs of an action from different states may go on side by side.  Then they return one value or
fail with one error, and the states that they leave behind are still related.
-/

namespace AbiBuild

variable {ε σ α β : Type}

/-- Both runs return one value, or both fail with one error. -/
inductive EndAlike (done : α → σ → σ → Prop) (failed : ε → σ → σ → Prop) :
    EStateM.Result ε σ α → EStateM.Result ε σ α → Prop
  | returned {value : α} {next other : σ} (holds : done value next other) :
      EndAlike done failed (.ok value next) (.ok value other)
  | failed {error : ε} {next other : σ} (holds : failed error next other) :
      EndAlike done failed (.error error next) (.error error other)

namespace EndAlike

variable {done : α → σ → σ → Prop} {failed : ε → σ → σ → Prop} {first second : EStateM.Result ε σ α}

theorem imp {done' : α → σ → σ → Prop} {failed' : ε → σ → σ → Prop}
    (alike : EndAlike done failed first second)
    (returns : ∀ value next other, done value next other → done' value next other)
    (fails : ∀ error next other, failed error next other → failed' error next other) :
    EndAlike done' failed' first second := by
  cases alike with
  | returned holds => exact .returned (returns _ _ _ holds)
  | failed holds => exact .failed (fails _ _ _ holds)

theorem result (alike : EndAlike done failed first second) :
    EndAlike (fun value next other => first = .ok value next ∧ second = .ok value other ∧
        done value next other)
      (fun error next other => first = .error error next ∧ second = .error error other ∧
        failed error next other) first second := by
  cases alike with
  | returned holds => exact .returned ⟨rfl, rfl, holds⟩
  | failed holds => exact .failed ⟨rfl, rfl, holds⟩

theorem exists_of_ok (alike : EndAlike done failed first second) {value : α} {next : σ}
    (returns : first = .ok value next) :
    ∃ other, second = .ok value other ∧ done value next other := by
  cases alike with
  | returned holds =>
      injection returns with sameValue sameNext
      subst sameValue sameNext
      exact ⟨_, rfl, holds⟩
  | failed holds => cases returns

protected theorem bind {action action' : EStateM ε σ β} {next next' : β → EStateM ε σ α}
    {state state' : σ}
    (begins : EndAlike (fun value middle middle' =>
      EndAlike done failed (next value middle) (next' value middle')) failed (action state)
        (action' state')) :
    EndAlike done failed ((action >>= next) state) ((action' >>= next') state') := by
  simp only [bind, EStateM.bind]
  revert begins
  generalize action state = result
  generalize action' state' = result'
  rintro (goesOn | fails)
  · exact goesOn
  · exact .failed fails

protected theorem tryCatch {action : EStateM ε σ α} {handle : ε → EStateM ε σ α} {state state' : σ}
    (begins : EndAlike done
      (fun error middle middle' => EndAlike done failed (handle error middle) (handle error middle'))
      (action state) (action state')) :
    EndAlike done failed (tryCatch action handle state) (tryCatch action handle state') := by
  change EndAlike _ _ (EStateM.tryCatch action handle state) (EStateM.tryCatch action handle state')
  delta EStateM.tryCatch
  dsimp only
  revert begins
  generalize action state = result
  generalize action state' = result'
  rintro (returns | handled)
  · exact .returned returns
  · exact handled

theorem bind_of_ok {action action' : EStateM ε σ β} {next next' : β → EStateM ε σ α}
    {state state' middle middle' : σ} {value value' : β} (begins : action state = .ok value middle)
    (begins' : action' state' = .ok value' middle')
    (goesOn : EndAlike done failed (next value middle) (next' value' middle')) :
    EndAlike done failed ((action >>= next) state) ((action' >>= next') state') := by
  simp only [bind, EStateM.bind, begins, begins']
  exact goesOn

end EndAlike

abbrev EndRelated (related : σ → σ → Prop) (first second : EStateM.Result ε σ α) : Prop :=
  EndAlike (fun _ => related) (fun _ => related) first second

theorem EndRelated.bind {before after : σ → σ → Prop} {action action' : EStateM ε σ β}
    {next next' : β → EStateM ε σ α} {state state' : σ}
    (weaker : ∀ middle middle', before middle middle' → after middle middle')
    (begins : EndRelated before (action state) (action' state'))
    (goesOn : ∀ value middle middle', action state = .ok value middle → before middle middle' →
      EndRelated after (next value middle) (next' value middle')) :
    EndRelated after ((action >>= next) state) ((action' >>= next') state') := by
  refine EndAlike.bind (begins.result.imp ?_ fun _ _ _ failed => weaker _ _ failed.2.2)
  rintro value middle middle' ⟨returns, -, holds⟩
  exact goesOn value middle middle' returns holds

def InStep (related : σ → σ → Prop) (action : EStateM ε σ α) : Prop :=
  ∀ state other, related state other →
    EndAlike (fun _ => related) (fun _ => related) (action state) (action other)

namespace InStep

variable {related : σ → σ → Prop}

protected theorem pure (value : α) : InStep related (pure value : EStateM ε σ α) :=
  fun _ _ holds => .returned holds

protected theorem bind {action : EStateM ε σ α} {next : α → EStateM ε σ β}
    (first : InStep related action) (second : ∀ value, InStep related (next value)) :
    InStep related (action >>= next) :=
  fun state other holds =>
    .bind ((first state other holds).imp (fun value _ _ => second value _ _) fun _ _ _ => id)

theorem forM {step : α → EStateM ε σ PUnit} {values : List α}
    (each : ∀ value ∈ values, InStep related (step value)) :
    InStep related (values.forM step) := by
  induction values with
  | nil => exact InStep.pure ()
  | cons value values ih =>
      rw [List.forall_mem_cons] at each
      exact InStep.bind each.1 fun _ => ih each.2

theorem mapM {step : α → EStateM ε σ β} {values : List α}
    (each : ∀ value ∈ values, InStep related (step value)) : InStep related (values.mapM step) := by
  induction values with
  | nil => exact InStep.pure []
  | cons value values ih =>
      rw [List.forall_mem_cons] at each
      rw [List.mapM_cons]
      exact InStep.bind each.1 fun _ => InStep.bind (ih each.2) fun _ => InStep.pure _

end InStep

/-! ## Worlds with the same files -/

section SameFiles

open Files

def SameFiles (world other : World) : Prop := other.files = world.files

theorem inStep_inspect (look : FileSystem → α) : InStep SameFiles (BuildAction.inspect look) := by
  intro world other same
  have answer : look other.files = look world.files := congrArg look same
  simp only [BuildAction.inspect, answer]
  exact .returned same

theorem inStep_notify (notice : Notice) : InStep SameFiles (BuildAction.notify notice) :=
  fun _ _ same => .returned same

theorem inStep_change (action : FileAction α) : InStep SameFiles (BuildAction.change action) := by
  intro world other same
  have runs : action other.files = action world.files := congrArg action same
  simp only [BuildAction.change, runs]
  cases action world.files with
  | ok value files => exact .returned rfl
  | error fault files => exact .failed rfl

theorem inStep_tryChange (action : FileAction Unit) :
    InStep SameFiles (BuildAction.tryChange action) := by
  intro world other same
  have runs : action other.files = action world.files := congrArg action same
  simp only [BuildAction.tryChange, runs]
  cases action world.files with
  | ok value files => exact .returned rfl
  | error fault files => exact .returned rfl

end SameFiles

end AbiBuild
