import Mathlib.Logic.Basic
import Mathlib.Tactic.Common

/-! # Programs of asynchronous tasks

The program of an asynchronous task is a tree. It has returned a value, it has panicked, or it
awaits an operation and goes on with the result of that operation. `Op` is the type of operations
and `Ret op` the type of the results of `op`; what an operation does to the world is said elsewhere
(`Async.Run`). A function that may fail is a program of `Fallible`: its early exits are those of
`ExceptT`, so that `let x ← f` stands for the `?` of the source. -/

namespace Vendimint.Async

/-- A program: a value, a panic, or an operation and what follows each of its results. -/
inductive Prog (Op : Type) (Ret : Op → Type) (α : Type) : Type
  | pure (a : α)
  | panic
  | await (op : Op) (k : Ret op → Prog Op Ret α)

variable {Op : Type} {Ret : Op → Type} {ε α β γ : Type}

namespace Prog

/-- First `p`, then `f` on its value. -/
def bind : Prog Op Ret α → (α → Prog Op Ret β) → Prog Op Ret β
  | pure a, f => f a
  | panic, _ => panic
  | await op k, f => await op fun r => (k r).bind f

instance : Monad (Prog Op Ret) where
  pure := Prog.pure
  bind := Prog.bind

/-- Await one operation and return its result. -/
def call (op : Op) : Prog Op Ret (Ret op) := await op pure

@[simp] theorem pure_bind (a : α) (f : α → Prog Op Ret β) : (pure a).bind f = f a := rfl

@[simp] theorem panic_bind (f : α → Prog Op Ret β) : (panic : Prog Op Ret α).bind f = panic := rfl

@[simp] theorem await_bind (op : Op) (k : Ret op → Prog Op Ret α) (f : α → Prog Op Ret β) :
    (await op k).bind f = await op fun r => (k r).bind f := rfl

@[simp] theorem call_bind (op : Op) (f : Ret op → Prog Op Ret β) :
    (call op).bind f = await op f := rfl

@[simp] theorem bind_eq (p : Prog Op Ret α) (f : α → Prog Op Ret β) : p >>= f = p.bind f := rfl

theorem bind_assoc (p : Prog Op Ret α) (f : α → Prog Op Ret β) (g : β → Prog Op Ret γ) :
    (p.bind f).bind g = p.bind fun a => (f a).bind g := by
  induction p with
  | pure a => rfl
  | panic => rfl
  | await op k ih => exact congrArg (await op) (funext ih)

@[simp] theorem ite_bind (c : Prop) [Decidable c] (p q : Prog Op Ret α) (f : α → Prog Op Ret β) :
    (if c then p else q).bind f = if c then p.bind f else q.bind f := by split_ifs <;> rfl

@[simp] theorem pure_eq (a : α) : (Pure.pure a : Prog Op Ret α) = pure a := rfl

end Prog

/-! ### Functions that may fail -/

/-- Programs that return a value or an error. -/
abbrev Fallible (Op : Type) (Ret : Op → Type) (ε : Type) := ExceptT ε (Prog Op Ret)

namespace Fallible

/-- A program read as one that may fail. -/
def of (p : Prog Op Ret (Except ε α)) : Fallible Op Ret ε α := ExceptT.mk p

/-- `unwrap` on a failing value. -/
def unwrapFailed : Fallible Op Ret ε α := ExceptT.mk .panic

/-- `unwrap` of an option. -/
def unwrap : Option α → Fallible Op Ret ε α
  | some a => pure a
  | none => unwrapFailed

/-- What follows a result: an error ends the function. -/
def andThen (f : α → Prog Op Ret (Except ε β)) : Except ε α → Prog Op Ret (Except ε β)
  | .ok a => f a
  | .error e => .pure (.error e)

@[simp] theorem andThen_ok (f : α → Prog Op Ret (Except ε β)) (a : α) : andThen f (.ok a) = f a := rfl

@[simp] theorem andThen_error (f : α → Prog Op Ret (Except ε β)) (e : ε) :
    andThen f (.error e) = .pure (.error e) := rfl

theorem andThen_assoc (p : Prog Op Ret (Except ε α)) (f : α → Prog Op Ret (Except ε β))
    (g : β → Prog Op Ret (Except ε γ)) :
    (p.bind (andThen f)).bind (andThen g) = p.bind (andThen fun a => (f a).bind (andThen g)) := by
  rw [Prog.bind_assoc]
  refine congrArg p.bind (funext fun r => ?_)
  cases r <;> rfl

@[simp] theorem run_bind (x : Fallible Op Ret ε α) (f : α → Fallible Op Ret ε β) :
    (x >>= f).run = x.run.bind (andThen fun a => (f a).run) := rfl

@[simp] theorem run_of (p : Prog Op Ret (Except ε α)) : (of p).run = p := rfl

@[simp] theorem run_pure (a : α) : (Pure.pure a : Fallible Op Ret ε α).run = .pure (.ok a) := rfl

@[simp] theorem run_ite (c : Prop) [Decidable c] (x y : Fallible Op Ret ε α) :
    (if c then x else y).run = if c then x.run else y.run := by split_ifs <;> rfl

@[simp] theorem run_throw (e : ε) : (throw e : Fallible Op Ret ε α).run = .pure (.error e) := rfl

@[simp] theorem run_lift (p : Prog Op Ret α) :
    (liftM p : Fallible Op Ret ε α).run = p.bind fun a => .pure (.ok a) := rfl

@[simp] theorem run_unwrapFailed : (unwrapFailed : Fallible Op Ret ε α).run = .panic := rfl

@[simp] theorem run_unwrap_some (a : α) :
    (unwrap (some a) : Fallible Op Ret ε α).run = .pure (.ok a) := rfl

@[simp] theorem run_unwrap_none : (unwrap none : Fallible Op Ret ε α).run = .panic := rfl

end Fallible

end Vendimint.Async
