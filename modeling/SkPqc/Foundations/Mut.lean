import SkPqc.Foundations.Outcome

/-!
# Calls through a mutable reference

A method that takes `&mut self` returns an outcome and leaves a state behind,
whichever way it ends: what was written before an error or a panic stays
written.  `Mut` keeps the state of every ending, so that "a failed call changes
nothing" is a property of the code.

Main results:

- Theorem `Mut.run_bind_of_ok`: after a first part that returned, the second
  part runs on the state that the first one left.
- Theorem `Mut.run_bind_of_err`: after a first part that failed, the state it
  left is the final one.
-/

namespace Rust

/-- A call on a state `σ`: how it ends, and the state it leaves. -/
structure Mut (σ ε α : Type) where
  run : σ → Outcome ε α × σ

namespace Mut

variable {σ ε α β : Type}

protected def bind (x : Mut σ ε α) (f : α → Mut σ ε β) : Mut σ ε β where
  run s :=
    match x.run s with
    | (.ok a, s') => (f a).run s'
    | (.err e, s') => (.err e, s')
    | (.panic, s') => (.panic, s')

instance : Monad (Mut σ ε) where
  pure a := ⟨fun s => (.ok a, s)⟩
  bind := Mut.bind

/-- Read the state. -/
def get : Mut σ ε σ := ⟨fun s => (.ok s, s)⟩

/-- Write the state. -/
def modify (f : σ → σ) : Mut σ ε Unit := ⟨fun s => (.ok (), f s)⟩

/-- A call that does not touch the state. -/
def lift (x : Outcome ε α) : Mut σ ε α := ⟨fun s => (x, s)⟩

@[simp] theorem run_pure (a : α) (s : σ) : (pure a : Mut σ ε α).run s = (.ok a, s) := rfl

@[simp] theorem run_lift (x : Outcome ε α) (s : σ) : (lift x).run s = (x, s) := rfl

@[simp] theorem run_modify (f : σ → σ) (s : σ) :
    (modify f : Mut σ ε Unit).run s = (.ok (), f s) := rfl

@[simp] theorem run_get_bind (f : σ → Mut σ ε β) (s : σ) :
    (get >>= f).run s = (f s).run s := rfl

@[simp] theorem run_modify_bind (g : σ → σ) (f : Unit → Mut σ ε β) (s : σ) :
    (modify g >>= f).run s = (f ()).run (g s) := rfl

@[simp] theorem run_pure_bind (a : α) (f : α → Mut σ ε β) (s : σ) :
    (pure a >>= f).run s = (f a).run s := rfl

@[simp] theorem run_lift_ok_bind (a : α) (f : α → Mut σ ε β) (s : σ) :
    (lift (.ok a) >>= f).run s = (f a).run s := rfl

@[simp] theorem run_lift_err_bind (e : ε) (f : α → Mut σ ε β) (s : σ) :
    (lift (.err e : Outcome ε α) >>= f).run s = (.err e, s) := rfl

theorem run_bind_of_ok {x : Mut σ ε α} {f : α → Mut σ ε β} {s s' : σ} {a : α}
    (h : x.run s = (.ok a, s')) : (x >>= f).run s = (f a).run s' := by
  change (Mut.bind x f).run s = (f a).run s'
  simp only [Mut.bind, h]

theorem run_bind_of_err {x : Mut σ ε α} {f : α → Mut σ ε β} {s s' : σ} {e : ε}
    (h : x.run s = (.err e, s')) : (x >>= f).run s = (.err e, s') := by
  change (Mut.bind x f).run s = (.err e, s')
  simp only [Mut.bind, h]

end Mut

end Rust
