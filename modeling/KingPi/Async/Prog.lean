import Mathlib.Tactic.Common

/-!
# Asynchronous Programs

A program written with `async`/`await`, as a tree. Between two suspension
points such a program is ordinary sequential code, so all that the rest of
the system can observe is the order of its awaits and what each of them is
answered with. `Prog` records exactly that: a program returns a value, raises
an exception, or awaits an effect and goes on from the answer.

The answer to an effect is `Except ε (R e)`, so an awaited call can raise.
`Prog.bind` passes an exception on and `Prog.tryCatch` stops it, which is how
a `try` statement around an `await` reads.

Nothing here fixes what an effect does. `eval` answers the effects from a
function, for a program whose world stands still, and `calls` lists the effects
awaited on the way; `solo` runs a program alone against a stateful server; the
interleaved semantics is in `Async.Pool`.

## Main definitions

* `Prog`: A program that suspends at each of its effects.
* `Prog.call`: The program that awaits one effect.
* `Prog.outcome`: What a finished program returned or raised.
* `Prog.eval`, `Prog.calls`: Running a program against fixed answers.
* `Prog.solo`: Running a program alone against a stateful server.

## Theorems

* `eval_bind`, `calls_bind`: Evaluation goes through sequencing.
* `solo_bind`, `solo_tryCatch`: The same for a program that runs alone.
* `solo_total`: A program whose effects are all served runs to its end.
-/

namespace Async

/-- A program that suspends at each of its effects. -/
inductive Prog (E : Type) (R : E → Type) (ε α : Type) : Type where
  | ret (a : α)
  | raise (x : ε)
  | await (e : E) (k : Except ε (R e) → Prog E R ε α)

namespace Prog

variable {E : Type} {R : E → Type} {ε α β σ : Type}

/-- Sequencing: an exception skips the continuation. -/
def bind : Prog E R ε α → (α → Prog E R ε β) → Prog E R ε β
  | ret a, f => f a
  | raise x, _ => raise x
  | await e k, f => await e (fun r => (k r).bind f)

/-- Exception handling: only the guarded program's own exceptions reach the
    handler. -/
def tryCatch : Prog E R ε α → (ε → Prog E R ε α) → Prog E R ε α
  | ret a, _ => ret a
  | raise x, h => h x
  | await e k, h => await e (fun r => (k r).tryCatch h)

/-- A computed result as a program. -/
def fromExcept : Except ε α → Prog E R ε α
  | .ok a => ret a
  | .error x => raise x

/-- The program that awaits one effect and returns or raises its answer. -/
def call (e : E) : Prog E R ε (R e) := await e fromExcept

instance : Monad (Prog E R ε) where
  pure := ret
  bind := bind

@[simp] theorem pure_eq (a : α) : (pure a : Prog E R ε α) = ret a := rfl

@[simp] theorem bind_eq (p : Prog E R ε α) (f : α → Prog E R ε β) : p >>= f = p.bind f := rfl

theorem bind_bind {γ : Type} (p : Prog E R ε α) (f : α → Prog E R ε β)
    (g : β → Prog E R ε γ) : (p.bind f).bind g = p.bind fun a => (f a).bind g := by
  induction p with
  | ret a => rfl
  | raise x => rfl
  | await e k ih => exact congrArg (await e) (funext ih)

/-- What a finished program returned or raised. -/
def outcome : Prog E R ε α → Option (Except ε α)
  | ret a => some (.ok a)
  | raise x => some (.error x)
  | await _ _ => none

/-- Run a program against fixed answers, one for each effect. -/
def eval (answer : (e : E) → Except ε (R e)) : Prog E R ε α → Except ε α
  | ret a => .ok a
  | raise x => .error x
  | await e k => (k (answer e)).eval answer

/-- The effects a program awaits when they are answered so, in order. -/
def calls (answer : (e : E) → Except ε (R e)) : Prog E R ε α → List E
  | ret _ => []
  | raise _ => []
  | await e k => e :: (k (answer e)).calls answer

/-- Run a program alone: the server answers each effect and moves the state.
    It may refuse an effect, and then the run has no result. -/
def solo (serve : (e : E) → σ → Option (Except ε (R e) × σ)) :
    Prog E R ε α → σ → Option (Except ε α × σ)
  | ret a, s => some (.ok a, s)
  | raise x, s => some (.error x, s)
  | await e k, s => match serve e s with
    | none => none
    | some (r, s') => (k r).solo serve s'

section Eval

variable (answer : (e : E) → Except ε (R e))

@[simp] theorem eval_raise (x : ε) : (raise x : Prog E R ε α).eval answer = .error x := rfl

@[simp] theorem eval_call (e : E) : (call e : Prog E R ε (R e)).eval answer = answer e := by
  unfold call
  rw [eval]
  cases answer e with
  | ok a => rfl
  | error x => rfl

@[simp] theorem eval_fromExcept (r : Except ε α) :
    (fromExcept r : Prog E R ε α).eval answer = r := by
  cases r with
  | ok a => rfl
  | error x => rfl

/-- Evaluation goes through sequencing. -/
theorem eval_bind (p : Prog E R ε α) (f : α → Prog E R ε β) :
    (p.bind f).eval answer = (p.eval answer).bind (fun a => (f a).eval answer) := by
  induction p with
  | ret a => rfl
  | raise x => rfl
  | await e k ih => exact ih (answer e)

@[simp] theorem calls_raise (x : ε) : (raise x : Prog E R ε α).calls answer = [] := rfl

@[simp] theorem calls_fromExcept (r : Except ε α) :
    (fromExcept r : Prog E R ε α).calls answer = [] := by
  cases r with
  | ok a => rfl
  | error x => rfl

@[simp] theorem calls_call (e : E) : (call e : Prog E R ε (R e)).calls answer = [e] := by
  unfold call
  rw [calls, calls_fromExcept]

/-- The effects of a sequence: those of the first program, and those of the
    rest if it returns. -/
theorem calls_bind (p : Prog E R ε α) (f : α → Prog E R ε β) :
    (p.bind f).calls answer = p.calls answer ++ match p.eval answer with
      | .ok a => (f a).calls answer
      | .error _ => [] := by
  induction p with
  | ret a => rfl
  | raise x => rfl
  | await e k ih =>
      rw [bind, calls, calls, eval, List.cons_append]
      exact congrArg _ (ih (answer e))

end Eval

section Solo

variable (serve : (e : E) → σ → Option (Except ε (R e) × σ))

@[simp] theorem solo_ret (a : α) (s : σ) :
    (ret a : Prog E R ε α).solo serve s = some (.ok a, s) := rfl

@[simp] theorem solo_raise (x : ε) (s : σ) :
    (raise x : Prog E R ε α).solo serve s = some (.error x, s) := rfl

@[simp] theorem solo_fromExcept (r : Except ε α) (s : σ) :
    (fromExcept r : Prog E R ε α).solo serve s = some (r, s) := by
  cases r with
  | ok a => rfl
  | error x => rfl

@[simp] theorem solo_call (e : E) (s : σ) :
    (call e : Prog E R ε (R e)).solo serve s = serve e s := by
  unfold call
  rw [solo]
  cases hserve : serve e s with
  | none => rfl
  | some rs => exact solo_fromExcept serve rs.1 rs.2

/-- Running alone goes through sequencing. -/
theorem solo_bind (p : Prog E R ε α) (f : α → Prog E R ε β) (s : σ) :
    (p.bind f).solo serve s
      = match p.solo serve s with
        | none => none
        | some (.ok a, s') => (f a).solo serve s'
        | some (.error x, s') => some (.error x, s') := by
  induction p generalizing s with
  | ret a => rfl
  | raise x => rfl
  | await e k ih =>
      rw [bind, solo, solo]
      cases serve e s with
      | none => rfl
      | some rs => exact ih rs.1 rs.2

/-- Running alone goes through exception handling. -/
theorem solo_tryCatch (p : Prog E R ε α) (h : ε → Prog E R ε α) (s : σ) :
    (p.tryCatch h).solo serve s
      = match p.solo serve s with
        | none => none
        | some (.ok a, s') => some (.ok a, s')
        | some (.error x, s') => (h x).solo serve s' := by
  induction p generalizing s with
  | ret a => rfl
  | raise x => rfl
  | await e k ih =>
      rw [tryCatch, solo, solo]
      cases serve e s with
      | none => rfl
      | some rs => exact ih rs.1 rs.2

/-- A program whose effects are all served runs to its end. -/
theorem solo_total (hserve : ∀ e s, ∃ rs, serve e s = some rs) (p : Prog E R ε α) (s : σ) :
    ∃ rs, p.solo serve s = some rs := by
  induction p generalizing s with
  | ret a => exact ⟨_, rfl⟩
  | raise x => exact ⟨_, rfl⟩
  | await e k ih =>
      rcases hserve e s with ⟨⟨r, s'⟩, hrs⟩
      rcases ih r s' with ⟨rs, h⟩
      refine ⟨rs, ?_⟩
      rw [solo, hrs]
      exact h

/-- What every effect preserves, a run preserves. -/
theorem solo_inv (I : σ → Prop) (hserve : ∀ e s r s', serve e s = some (r, s') → I s → I s')
    (p : Prog E R ε α) (s s' : σ) (r : Except ε α) (h : p.solo serve s = some (r, s'))
    (hs : I s) : I s' := by
  induction p generalizing s with
  | ret a =>
      rw [solo_ret, Option.some.injEq, Prod.mk.injEq] at h
      rw [← h.2]
      exact hs
  | raise x =>
      rw [solo_raise, Option.some.injEq, Prod.mk.injEq] at h
      rw [← h.2]
      exact hs
  | await e k ih =>
      rw [solo] at h
      cases hrs : serve e s with
      | none =>
          rw [hrs] at h
          exact absurd h (by simp only [reduceCtorEq, not_false_eq_true])
      | some rs =>
          rw [hrs] at h
          exact ih rs.1 rs.2 h (hserve e s rs.1 rs.2 hrs hs)

end Solo

end Prog

end Async
