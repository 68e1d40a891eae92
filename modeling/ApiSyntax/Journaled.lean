/-
  ApiSyntax/Journaled.lean --- a value together with what happened to it.
-/
import ApiSyntax.Action
import ApiSyntax.Event

set_option autoImplicit false

namespace ApiSyntax

/-- A value with the events of its changes, in the order in which they came. -/
structure Journaled (σ : Type) where
  value : σ
  events : Array Event

namespace Journaled

variable {σ ε α : Type}

/-- A value to which nothing has happened yet. -/
def start (value : σ) : Journaled σ := ⟨value, #[]⟩

/-- An event is recorded. -/
def note (e : Event) : Action (Journaled σ) ε Unit := .change fun j =>
  { j with events := j.events.push e }

/-- A change that may be refused.  If it is not, the event that the old value gives is
recorded. -/
def change (f : σ → Except ε σ) (event : σ → Event) : Action (Journaled σ) ε Unit := fun j =>
  match f j.value with
  | .ok value => (.ok (), ⟨value, j.events.push (event j.value)⟩)
  | .error e => (.error e, j)

/-- A question about the value.  If it is answered, the event that the answer gives is
recorded. -/
def ask (f : σ → Except ε α) (event : α → Event) : Action (Journaled σ) ε α := fun j =>
  match f j.value with
  | .ok a => (.ok a, { j with events := j.events.push (event a) })
  | .error e => (.error e, j)

end Journaled

end ApiSyntax
