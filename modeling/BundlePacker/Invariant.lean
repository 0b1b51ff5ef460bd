/-!
# Invariants of actions

An action works on a state and may fail.  It keeps a property of states when it leaves a state with
the property wherever it found one, whether it succeeds or fails.  Actions that are composed of
actions with a common property keep it as well.
-/

namespace BundlePacker

variable {ε σ α β : Type}

/-- The state that an action leaves, whether it succeeds or fails. -/
def stateAfter (action : EStateM ε σ α) (state : σ) : σ :=
  match action state with
  | .ok _ next => next
  | .error _ next => next

/-- Whether an action leaves a state with a property wherever it found one. -/
def Keeps (property : σ → Prop) (action : EStateM ε σ α) : Prop :=
  ∀ state, property state → property (stateAfter action state)

/-- A computation that succeeds has succeeded in its first part. -/
theorem exists_of_bind_eq_ok {first : Except ε α} {next : α → Except ε β} {result : β}
    (success : first >>= next = .ok result) :
    ∃ value, first = .ok value ∧ next value = .ok result := by
  cases first with
  | error fault => cases success
  | ok value => exact ⟨value, rfl, success⟩

/-- An action goes on with its second part where the first one has succeeded. -/
theorem run_bind_of_ok {first : EStateM ε σ α} {next : α → EStateM ε σ β} {state middle : σ}
    {value : α} (ran : first state = .ok value middle) :
    (first >>= next) state = next value middle := by
  simp [Bind.bind, EStateM.bind, ran]

/-- An action ends where its first part has failed. -/
theorem run_bind_of_error {first : EStateM ε σ α} {next : α → EStateM ε σ β} {state middle : σ}
    {fault : ε} (ran : first state = .error fault middle) :
    (first >>= next) state = .error fault middle := by
  simp [Bind.bind, EStateM.bind, ran]

/-- An action that succeeds has succeeded in both of its parts. -/
theorem exists_of_run_bind_eq_ok {first : EStateM ε σ α} {next : α → EStateM ε σ β}
    {state last : σ} {result : β} (ran : (first >>= next) state = .ok result last) :
    ∃ value middle, first state = .ok value middle ∧ next value middle = .ok result last := by
  cases began : first state with
  | ok value middle => exact ⟨value, middle, rfl, (run_bind_of_ok began).symm.trans ran⟩
  | error fault middle =>
    rw [run_bind_of_error began] at ran
    cases ran

theorem run_get (state : σ) : (get : EStateM ε σ σ) state = .ok state state :=
  rfl

namespace Keeps

variable {property : σ → Prop}

/-- What is kept holds of the state in which an action succeeds. -/
theorem of_ok {action : EStateM ε σ α} (keeps : Keeps property action) {state next : σ} {value : α}
    (holds : property state) (ran : action state = .ok value next) : property next := by
  have kept := keeps state holds
  rwa [stateAfter, ran] at kept

theorem pure (value : α) : Keeps property (pure value : EStateM ε σ α) :=
  fun _ holds => holds

theorem throw (error : ε) : Keeps property (throw error : EStateM ε σ α) :=
  fun _ holds => holds

theorem get : Keeps property (get : EStateM ε σ σ) :=
  fun _ holds => holds

/-- The second part has to keep a property only for the values that the first part gives. -/
theorem bind_of_ok {first : EStateM ε σ α} {next : α → EStateM ε σ β}
    (first_keeps : Keeps property first)
    (next_keeps : ∀ state value middle, property state → first state = .ok value middle →
      Keeps property (next value)) : Keeps property (first >>= next) := by
  intro state holds
  have after_first := first_keeps state holds
  simp only [stateAfter, Bind.bind, EStateM.bind] at after_first ⊢
  cases ran : first state with
  | ok value middle =>
    rw [ran] at after_first
    exact next_keeps state value middle holds ran middle after_first
  | error fault middle =>
    rw [ran] at after_first
    exact after_first

theorem bind {first : EStateM ε σ α} {next : α → EStateM ε σ β} (first_keeps : Keeps property first)
    (next_keeps : ∀ value, Keeps property (next value)) : Keeps property (first >>= next) :=
  bind_of_ok first_keeps fun _ value _ _ _ => next_keeps value

theorem seqRight {first : EStateM ε σ α} {second : EStateM ε σ β}
    (first_keeps : Keeps property first) (second_keeps : Keeps property second) :
    Keeps property (first *> second) := by
  intro state holds
  have after_first := first_keeps state holds
  simp only [stateAfter, SeqRight.seqRight, EStateM.seqRight] at after_first ⊢
  cases ran : first state with
  | ok value middle =>
    rw [ran] at after_first
    exact second_keeps middle after_first
  | error fault middle =>
    rw [ran] at after_first
    exact after_first

end Keeps

end BundlePacker
