import CallClusters.Event
import CallClusters.Fault

/-! Computations that report events as they go and may stop with a fault. What was reported
before the fault stays reported. -/

namespace CallClusters

structure Traced (W α : Type) where
  events : List (Event W)
  result : Except Fault α

namespace Traced

variable {W α β : Type}

protected def pure (a : α) : Traced W α := ⟨[], .ok a⟩

/-- The second part runs only if the first has a result; its events come after. -/
protected def bind (x : Traced W α) (f : α → Traced W β) : Traced W β :=
  match x.result with
  | .error fault => ⟨x.events, .error fault⟩
  | .ok a => let y := f a; ⟨x.events ++ y.events, y.result⟩

instance : Monad (Traced W) where
  pure := Traced.pure
  bind := Traced.bind

def emit (event : Event W) : Traced W Unit := ⟨[event], .ok ()⟩

def emitAll (events : List (Event W)) : Traced W Unit := ⟨events, .ok ()⟩

def fail (fault : Fault) : Traced W α := ⟨[], .error fault⟩

def ofExcept (result : Except Fault α) : Traced W α := ⟨[], result⟩

end Traced

end CallClusters
