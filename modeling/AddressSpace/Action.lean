import AddressSpace.Failure
/-!
# Actions

An action reads and changes a state and gives a value or a failure. The state goes on from where the action left it
also when it fails, so that a failing action leaves things as they were is a fact to be shown of each action and not
part of what an action is.
-/

namespace AddressSpace

/-- A computation on a state `σ` that may fail. -/
abbrev Action (σ α : Type) := EStateM Failure σ α

namespace Action

variable {σ τ α : Type}

/-- The outcome of an action, with the state that it leaves. -/
def run (a : Action σ α) (s : σ) : Except Failure α × σ :=
  match a s with
  | .ok x t => (.ok x, t)
  | .error e t => (.error e, t)

/-- An outcome that depends on no state. -/
def ofExcept : Except Failure α → Action σ α
  | .ok a => pure a
  | .error e => throw e

instance : MonadLift (Except Failure) (EStateM Failure σ) := ⟨ofExcept⟩

/-- The value, or the failure where there is none. -/
def demand (f : Failure) : Option α → Action σ α
  | some a => pure a
  | none => throw f

/-- Runs an action on a part of the state. -/
def on (part : σ → τ) (withPart : σ → τ → σ) (a : Action τ α) : Action σ α := fun s =>
  match a (part s) with
  | .ok x t => .ok x (withPart s t)
  | .error e t => .error e (withPart s t)

/-- Runs an action and words its failure anew. -/
def rewording (f : Failure → Failure) (a : Action σ α) : Action σ α := fun s =>
  match a s with
  | .ok x t => .ok x t
  | .error e t => .error (f e) t

end Action

end AddressSpace
