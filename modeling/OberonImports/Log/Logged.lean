import OberonImports.Log.Event

/-!
# Computations with a log

A computation mentions events and then fails or succeeds. One after the other, two computations
mention the events of the first before those of the second, which does not run if the first fails.
-/

namespace OberonImports

/-- The events that a computation mentions, in order, and its result. -/
structure Logged (ε α : Type) where
  events : List Event
  result : Except ε α

namespace Logged

variable {ε α β : Type}

/-- The computation that mentions nothing. -/
def ofExcept (result : Except ε α) : Logged ε α := ⟨[], result⟩

def fail (error : ε) : Logged ε α := ⟨[], .error error⟩

def log (events : List Event) : Logged ε Unit := ⟨events, .ok ()⟩

def bind (first : Logged ε α) (next : α → Logged ε β) : Logged ε β :=
  match first.result with
  | .error error => ⟨first.events, .error error⟩
  | .ok value => ⟨first.events ++ (next value).events, (next value).result⟩

instance : Monad (Logged ε) where
  pure value := ⟨[], .ok value⟩
  bind := bind

/-- The computation with its failure put in other terms. -/
def mapError {ε' : Type} (f : ε → ε') (computation : Logged ε α) : Logged ε' α :=
  ⟨computation.events, computation.result.mapError f⟩

@[simp] theorem result_pure (value : α) : (pure value : Logged ε α).result = .ok value := rfl

@[simp] theorem events_pure (value : α) : (pure value : Logged ε α).events = [] := rfl

@[simp] theorem result_log (events : List Event) : (log events : Logged ε Unit).result = .ok () :=
  rfl

@[simp] theorem result_fail (error : ε) : (fail error : Logged ε α).result = .error error := rfl

@[simp] theorem result_bind (first : Logged ε α) (next : α → Logged ε β) :
    (first >>= next).result = first.result.bind fun value => (next value).result := by
  show (Logged.bind first next).result = _
  unfold Logged.bind
  split <;> simp_all [Except.bind]

@[simp] theorem result_mapError {ε' : Type} (f : ε → ε') (computation : Logged ε α) :
    (computation.mapError f).result = computation.result.mapError f := rfl

@[simp] theorem result_ofExcept (result : Except ε α) : (ofExcept result).result = result := rfl

end Logged

end OberonImports
