import Mathlib.Data.Prod.Basic

/-!
Programs that act on the outside world only through calls. A program is the
finite tree of the calls it issues: each node carries one call and a
continuation for every answer of that call's own answer type. Failure is an
ordinary answer, so a program that stops at the first failed call is written
over the exception transformer of this monad.
-/

namespace Effects

inductive Program (Call : Type) (Ret : Call → Type) (α : Type) : Type
  | ret (a : α)
  | call (c : Call) (k : Ret c → Program Call Ret α)

namespace Program

variable {Call : Type} {Ret : Call → Type} {α β γ ε : Type}

def bind : Program Call Ret α → (α → Program Call Ret β) → Program Call Ret β
  | .ret a, f => f a
  | .call c k, f => .call c (fun r => (k r).bind f)

instance : Monad (Program Call Ret) where
  pure := .ret
  bind := bind

@[simp] theorem pure_eq (a : α) : (pure a : Program Call Ret α) = .ret a := rfl

@[simp] theorem ret_bind (a : α) (f : α → Program Call Ret β) :
    (Program.ret a : Program Call Ret α) >>= f = f a := rfl

@[simp] theorem call_bind (c : Call) (k : Ret c → Program Call Ret α)
    (f : α → Program Call Ret β) :
    Program.call c k >>= f = .call c (fun r => k r >>= f) := rfl

theorem bind_ret (p : Program Call Ret α) : p >>= Program.ret = p := by
  induction p with
  | ret a => rfl
  | call c k ih => exact congrArg (Program.call c) (funext ih)

theorem bind_bind (p : Program Call Ret α) (f : α → Program Call Ret β)
    (g : β → Program Call Ret γ) :
    p >>= f >>= g = p >>= fun a => f a >>= g := by
  induction p with
  | ret a => rfl
  | call c k ih => exact congrArg (Program.call c) (funext ih)

instance : LawfulMonad (Program Call Ret) :=
  LawfulMonad.mk' _ bind_ret (fun _ _ => rfl) bind_bind

/-- Sequencing in the exception transformer runs the rest of the program only
after a success. -/
theorem run_bind (x : ExceptT ε (Program Call Ret) α)
    (f : α → ExceptT ε (Program Call Ret) β) :
    (x >>= f).run = x.run >>= fun
      | .ok a => (f a).run
      | .error e => .ret (.error e) := by
  rw [ExceptT.run_bind]
  congr 1
  funext r
  cases r <;> rfl

theorem run_lift (p : Program Call Ret α) (f : α → ExceptT ε (Program Call Ret) β) :
    ((liftM p : ExceptT ε (Program Call Ret) α) >>= f).run = p >>= fun a => (f a).run := by
  have lifted : (Except.ok <$> p : Program Call Ret (Except ε α)) =
      p >>= fun a => .ret (.ok a) := (bind_pure_comp _ _).symm
  rw [run_bind, ExceptT.run_liftM, lifted, bind_assoc]
  rfl

/-- Stop early on a failed answer, after giving the failure its own type. -/
def mapErr {ε' : Type} (x : Program Call Ret (Except ε α)) (f : ε → ε') :
    ExceptT ε' (Program Call Ret) α :=
  ExceptT.mk (x >>= fun r => .ret (r.mapError f))

/-- A handler answers every call at once and returns the changed state. -/
abbrev Handler (Call : Type) (Ret : Call → Type) (σ : Type) : Type :=
  σ → (c : Call) → Ret c × σ

variable {σ : Type}

/-- Run a program to its end against a handler. -/
def exec (h : Handler Call Ret σ) : Program Call Ret α → σ → α × σ
  | .ret a, s => (a, s)
  | .call c k, s => exec h (k (h s c).1) (h s c).2

@[simp] theorem exec_ret (h : Handler Call Ret σ) (a : α) (s : σ) :
    exec h (.ret a) s = (a, s) := rfl

@[simp] theorem exec_call (h : Handler Call Ret σ) (c : Call)
    (k : Ret c → Program Call Ret α) (s : σ) :
    exec h (.call c k) s = exec h (k (h s c).1) (h s c).2 := rfl

end Program
end Effects
