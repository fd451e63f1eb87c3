/-!
# Events

What the library reports while it works: a level, a message and named fields. `Logged` is a
computation together with the events it reported, in order; an operation that fails has reported
events too, so the failure stands inside.
-/

namespace DecisionTable

inductive Severity where
  | debug
  | info
  | warn
  deriving DecidableEq, Inhabited

/-- The name of a severity in a log. -/
def Severity.name : Severity → String
  | .debug => "DEBUG"
  | .info => "INFO"
  | .warn => "WARN"

structure Event where
  severity : Severity
  message : String
  fields : List (String × String) := []
  deriving DecidableEq, Inhabited

structure Logged (α : Type) where
  value : α
  events : List Event := []

namespace Logged

variable {α β : Type}

instance : Monad Logged where
  pure value := { value }
  bind x f :=
    let y := f x.value
    { value := y.value, events := x.events ++ y.events }

instance : LawfulMonad Logged :=
  .mk' Logged (fun _ => by simp [Functor.map]) (fun _ _ => by simp [bind, pure])
    (fun _ _ _ => by simp [bind])

@[simp] theorem value_pure (a : α) : (pure a : Logged α).value = a := rfl
@[simp] theorem events_pure (a : α) : (pure a : Logged α).events = [] := rfl
@[simp] theorem value_bind (x : Logged α) (f : α → Logged β) :
    (x >>= f).value = (f x.value).value := rfl
@[simp] theorem events_bind (x : Logged α) (f : α → Logged β) :
    (x >>= f).events = x.events ++ (f x.value).events := rfl

/-- Reports an event. -/
def report (event : Event) : Logged Unit :=
  { value := (), events := [event] }

end Logged

end DecisionTable
