/-!
# What operations come to

A stateful operation ends with a value or an error, and in both cases with a state.
-/

set_option autoImplicit false

namespace EStateM

/-- A second operation starts where the first has ended, if that has not failed. -/
theorem bind_apply {ε σ α β : Type} (op : EStateM ε σ α) (next : α → EStateM ε σ β) (s : σ) :
    (op >>= next) s = match op s with
      | .ok a t => next a t
      | .error e t => .error e t := by
  show EStateM.bind op next s = _
  unfold EStateM.bind
  cases op s <;> rfl

section

variable {ε σ α β : Type} {op : EStateM ε σ α} {next : α → EStateM ε σ β} {s t : σ}

theorem bind_eq_ok_iff {b : β} :
    (op >>= next) s = .ok b t ↔ ∃ a u, op s = .ok a u ∧ next a u = .ok b t := by
  rw [bind_apply]
  constructor
  · intro h
    cases first : op s with
    | ok a u =>
      rw [first] at h
      exact ⟨a, u, rfl, h⟩
    | error e u =>
      rw [first] at h
      cases h
  · rintro ⟨a, u, first, second⟩
    rw [first]
    exact second

theorem bind_eq_error_iff {e : ε} :
    (op >>= next) s = .error e t ↔
      op s = .error e t ∨ ∃ a u, op s = .ok a u ∧ next a u = .error e t := by
  rw [bind_apply]
  constructor
  · intro h
    cases first : op s with
    | ok a u =>
      rw [first] at h
      exact .inr ⟨a, u, rfl, h⟩
    | error e u =>
      rw [first] at h
      cases h
      exact .inl rfl
  · rintro (first | ⟨a, u, first, second⟩)
    · rw [first]
    · rw [first]
      exact second

end

namespace Result

variable {ε σ τ υ α : Type}

/-- The state that an operation ends in. -/
def state : Result ε σ α → σ
  | ok _ s => s
  | error _ s => s

/-- What an operation returns. -/
def outcome : Result ε σ α → Except ε α
  | ok a _ => .ok a
  | error e _ => .error e

/-- The same outcome with another state. -/
def mapState (f : σ → τ) : Result ε σ α → Result ε τ α
  | ok a s => ok a (f s)
  | error e s => error e (f s)

@[simp] theorem state_mapState (f : σ → τ) (r : Result ε σ α) :
    (r.mapState f).state = f r.state := by
  cases r <;> rfl

@[simp] theorem outcome_mapState (f : σ → τ) (r : Result ε σ α) :
    (r.mapState f).outcome = r.outcome := by
  cases r <;> rfl

theorem mapState_mapState (g : τ → υ) (f : σ → τ) (r : Result ε σ α) :
    (r.mapState f).mapState g = r.mapState fun s => g (f s) := by
  cases r <;> rfl

end Result

end EStateM
