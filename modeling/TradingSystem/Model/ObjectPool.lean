import TradingSystem.Lib.Effects
import TradingSystem.Model.Order

/-!
# The object pool (`ObjectPool.hpp`)

A pool owns `size` objects. A pointer to one of them is its slot number, and the stack of free slots is
a list with its top at the head.
-/

namespace TradingSystem

structure ObjectPool (T : Type) (size : Nat) where
  pool : Nat → T
  freeStack : List Nat

namespace ObjectPool

variable {T : Type} {size : Nat}

/-- The stack after pushing slots `0`, `1`, .. , `n - 1` in this order. -/
def pushAll : Nat → List Nat
  | 0 => []
  | n + 1 => n :: pushAll n

def new (init : T) : ObjectPool T size := ⟨fun _ => init, pushAll size⟩

def acquire : EStateM Exn (ObjectPool T size) Nat := fun p =>
  match p.freeStack with
  | [] => .error (.runtimeError "freeStack is full: there are no objects to acquire") p
  | slot :: rest => .ok slot { p with freeStack := rest }

def release (slot : Nat) : EStateM Exn (ObjectPool T size) Unit := fun p =>
  if slot ≥ size then
    .error (.runtimeError "ObjectPool::release received pointer outside pool bounds") p
  else .ok () { p with freeStack := slot :: p.freeStack }

/-- `*slot = obj` -/
def write (p : ObjectPool T size) (slot : Nat) (obj : T) : ObjectPool T size :=
  { p with pool := fun i => if i = slot then obj else p.pool i }

end ObjectPool

end TradingSystem
