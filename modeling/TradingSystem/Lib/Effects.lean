import Mathlib.Tactic.TypeStar

/-!
# Stateful computations that throw

`EStateM ε σ` is the effect of a member function: it changes an object of type `σ` and may throw, and
what it changed before throwing stays changed. The lemmas run such a computation on a state; `zoom`
runs a computation of a part of the object on the whole.
-/

namespace Lib

universe u

variable {ε σ τ α β : Type u}

/-- Run a computation of a part of the state. -/
def zoom (get : σ → τ) (set : τ → σ → σ) (x : EStateM ε τ α) : EStateM ε σ α := fun s =>
  match x (get s) with
  | .ok a t => .ok a (set t s)
  | .error e t => .error e (set t s)

namespace Effects

@[simp] theorem ofExcept_ok (a : α) (s : σ) : (ofExcept (.ok a : Except ε α) : EStateM ε σ α) s = .ok a s := rfl

@[simp] theorem ofExcept_error (e : ε) (s : σ) :
    (ofExcept (.error e : Except ε α) : EStateM ε σ α) s = .error e s := rfl

theorem bind_run (x : EStateM ε σ α) (f : α → EStateM ε σ β) (s : σ) :
    (x >>= f) s = match x s with
      | .ok a s' => f a s'
      | .error e s' => .error e s' := rfl

theorem bind_ok {x : EStateM ε σ α} {s s' : σ} {a : α} (h : x s = .ok a s') (f : α → EStateM ε σ β) :
    (x >>= f) s = f a s' := by
  rw [bind_run, h]

theorem bind_error {x : EStateM ε σ α} {s s' : σ} {e : ε} (h : x s = .error e s')
    (f : α → EStateM ε σ β) : (x >>= f) s = .error e s' := by
  rw [bind_run, h]

@[simp] theorem pure_run (a : α) (s : σ) : (pure a : EStateM ε σ α) s = .ok a s := rfl

@[simp] theorem modify_run (f : σ → σ) (s : σ) :
    (modify f : EStateM ε σ PUnit) s = .ok ⟨⟩ (f s) := rfl

@[simp] theorem get_bind (f : σ → EStateM ε σ β) (s : σ) : (get >>= f) s = f s s := rfl

@[simp] theorem throw_bind (e : ε) (f : α → EStateM ε σ β) (s : σ) :
    ((throw e : EStateM ε σ α) >>= f) s = .error e s := rfl

@[simp] theorem modify_bind (g : σ → σ) (f : PUnit → EStateM ε σ β) (s : σ) :
    ((modify g : EStateM ε σ PUnit) >>= f) s = f ⟨⟩ (g s) := rfl

/-- The handler starts from the state at the throw. -/
theorem tryCatch_run (x : EStateM ε σ α) (handle : ε → EStateM ε σ α) (s : σ) :
    (tryCatch x handle) s = match x s with
      | .error e s' => handle e s'
      | r => r := by
  show EStateM.tryCatch x handle s = _
  delta EStateM.tryCatch
  cases x s <;> rfl

theorem tryCatch_ok {x : EStateM ε σ α} {s s' : σ} {a : α} (h : x s = .ok a s')
    (handle : ε → EStateM ε σ α) : (tryCatch x handle) s = .ok a s' := by
  rw [tryCatch_run, h]

theorem tryCatch_error {x : EStateM ε σ α} {s s' : σ} {e : ε} (h : x s = .error e s')
    (handle : ε → EStateM ε σ α) : (tryCatch x handle) s = handle e s' := by
  rw [tryCatch_run, h]

theorem zoom_ok {get : σ → τ} {set : τ → σ → σ} {x : EStateM ε τ α} {s : σ} {t : τ} {a : α}
    (h : x (get s) = .ok a t) : zoom get set x s = .ok a (set t s) := by
  simp only [zoom, h]

theorem zoom_error {get : σ → τ} {set : τ → σ → σ} {x : EStateM ε τ α} {s : σ} {t : τ} {e : ε}
    (h : x (get s) = .error e t) : zoom get set x s = .error e (set t s) := by
  simp only [zoom, h]

end Effects

end Lib
