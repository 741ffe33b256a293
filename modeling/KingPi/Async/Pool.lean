import KingPi.Async.Prog
import Mathlib.Logic.Function.Basic

/-!
# Interleaved Runs

Any number of programs over one shared state, in any order of steps.

A `System` says what program serves each request and how the shared state
answers an effect. The answer depends on a parameter `o : O`, the choice the
outside world makes at that moment (success, a fault, what came back over
the network); `serve` returns `none` where that choice is not open, which
includes an effect that has to wait. A label names one step: a request
arrives, a task takes one effect, a finished task is answered, a task is
abandoned, or the environment moves on its own. Since the choices are part
of the label, `step` is a function and a run can be executed.

`Safe` is the proof rule for one task among the others. Between two of its
own steps the task may find the shared state moved by anybody else, so an
assertion about it has to survive `Rely`; at each of its own steps it has to
preserve the invariant that everybody relies on. `safe_bind` and
`safe_tryCatch` make the rule compositional, one specification for each
function of the program.

`Outline` collects what has to be shown once for a system, and
`Outline.sound` is the induction over runs: the invariant holds in every
reachable configuration and every answered task satisfies its
postcondition.

## Main definitions

* `System`: The requests of a system, their programs and their effects.
* `step`: One step of a configuration.
* `Reaches`: The configurations of the runs out of a configuration.
* `Moves`: A relation that contains every step.
* `Safe`: A task keeps the invariant and ends in its postcondition.
* `Outline`: The obligations of an invariant proof.

## Theorems

* `reaches_of_run`: An executed run is a reachability.
* `step_cases`: What a step found and what it leaves.
* `reaches_solo`: A task that runs alone reaches its last state.
* `reaches_bounded`: Only so many requests arrive in a run.
* `Moves.reaches`: What every step does to the shared state, every run does.
* `safe_bind`: Sequencing composes specifications.
* `safe_tryCatch`: Exception handling composes specifications.
* `safe_rely`: A safe task stays safe when others move.
* `Outline.sound`: The obligations hold in every reachable configuration.
-/

namespace Async

/-- The requests of a system, the program serving each, and the effects of
    programs on the shared state. -/
structure System (E : Type) (R : E → Type) (ε α Q O A σ : Type) where
  body : Q → Prog E R ε α
  onStart : Nat → Q → σ → σ
  serve : Nat → (e : E) → O → σ → Option (Except ε (R e) × σ)
  onAnswer : Nat → Q → Except ε α → σ → σ
  onAbort : Nat → σ → σ
  env : A → σ → Option σ

/-- Where a request stands. -/
inductive Task (E : Type) (R : E → Type) (ε α Q : Type) where
  | running (q : Q) (p : Prog E R ε α)
  | answered (q : Q) (r : Except ε α)
  | aborted (q : Q)

/-- The shared state and the requests that have arrived so far. -/
structure Config (E : Type) (R : E → Type) (ε α Q σ : Type) where
  shared : σ
  task : Nat → Option (Task E R ε α Q)

/-- One step of a run. -/
inductive Label (Q O A : Type) where
  | start (i : Nat) (q : Q)
  | act (i : Nat) (o : O)
  | answer (i : Nat)
  | abort (i : Nat)
  | env (a : A)

section Runs

variable {E : Type} {R : E → Type} {ε α Q O A σ : Type}

/-- The configuration before any request. -/
def Config.init (s : σ) : Config E R ε α Q σ := { shared := s, task := fun _ => none }

/-- Record where task `i` stands. -/
def Config.put (c : Config E R ε α Q σ) (s : σ) (i : Nat) (t : Task E R ε α Q) :
    Config E R ε α Q σ :=
  { shared := s, task := fun j => if j = i then some t else c.task j }

@[simp] theorem Config.put_task_self (c : Config E R ε α Q σ) (s : σ) (i : Nat)
    (t : Task E R ε α Q) : (c.put s i t).task i = some t := by
  simp only [Config.put, if_true]

theorem Config.put_task_other (c : Config E R ε α Q σ) (s : σ) (i j : Nat)
    (t : Task E R ε α Q) (h : j ≠ i) : (c.put s i t).task j = c.task j := by
  simp only [Config.put, if_neg h]

variable (S : System E R ε α Q O A σ)

/-- One step, or `none` where the label is not possible. -/
def step (c : Config E R ε α Q σ) : Label Q O A → Option (Config E R ε α Q σ)
  | .start i q => match c.task i with
    | none => some (c.put (S.onStart i q c.shared) i (.running q (S.body q)))
    | some _ => none
  | .act i o => match c.task i with
    | some (.running q (.await e k)) => match S.serve i e o c.shared with
      | some (r, s) => some (c.put s i (.running q (k r)))
      | none => none
    | _ => none
  | .answer i => match c.task i with
    | some (.running q p) => match p.outcome with
      | some r => some (c.put (S.onAnswer i q r c.shared) i (.answered q r))
      | none => none
    | _ => none
  | .abort i => match c.task i with
    | some (.running q _) => some (c.put (S.onAbort i c.shared) i (.aborted q))
    | _ => none
  | .env a => match S.env a c.shared with
    | some s => some { c with shared := s }
    | none => none

/-- A whole run, or `none` where one of its labels is not possible. -/
def run : Config E R ε α Q σ → List (Label Q O A) → Option (Config E R ε α Q σ)
  | c, [] => some c
  | c, l :: ls => match step S c l with
    | none => none
    | some d => run d ls

/-- The configurations of the runs out of a configuration. -/
inductive Reaches (c : Config E R ε α Q σ) : Config E R ε α Q σ → Prop where
  | refl : Reaches c c
  | step (d e : Config E R ε α Q σ) (l : Label Q O A) :
      Reaches c d → step S d l = some e → Reaches c e

variable {S}

theorem reaches_trans {a b c : Config E R ε α Q σ}
    (h1 : Reaches S a b) (h2 : Reaches S b c) : Reaches S a c := by
  induction h2 with
  | refl => exact h1
  | step d e l _ hstep ih => exact Reaches.step d e l ih hstep

/-- An executed run is a reachability. -/
theorem reaches_of_run (ls : List (Label Q O A)) (c d : Config E R ε α Q σ)
    (h : run S c ls = some d) : Reaches S c d := by
  induction ls generalizing c with
  | nil =>
      rw [run, Option.some.injEq] at h
      rw [← h]
      exact Reaches.refl
  | cons l ls ih =>
      rw [run] at h
      cases hstep : step S c l with
      | none =>
          rw [hstep] at h
          exact absurd h (by simp only [reduceCtorEq, not_false_eq_true])
      | some e =>
          rw [hstep] at h
          exact reaches_trans (Reaches.step c e l Reaches.refl hstep) (ih e h)

/-- An executed run, seen through a function of the configuration it ends in. -/
theorem reaches_of_run_map {β : Type} (ls : List (Label Q O A)) (c : Config E R ε α Q σ)
    (f : Config E R ε α Q σ → β) (b : β) (h : (run S c ls).map f = some b) :
    ∃ d, Reaches S c d ∧ f d = b := by
  rcases Option.map_eq_some_iff.mp h with ⟨d, hd, hf⟩
  exact ⟨d, reaches_of_run ls c d hd, hf⟩

variable (S) in
/-- A task that runs alone from here on reaches the state it ends in. `fate`
    makes the outside world's choice at each effect. -/
theorem reaches_solo (i : Nat) (q : Q) (fate : E → O) (p : Prog E R ε α) :
    ∀ (c : Config E R ε α Q σ) (r : Except ε α) (s : σ),
      c.task i = some (.running q p) →
      p.solo (fun e => S.serve i e (fate e)) c.shared = some (r, s) →
      ∃ d, Reaches S c d ∧ d.shared = S.onAnswer i q r s ∧
        d.task i = some (.answered q r) ∧ ∀ j, j ≠ i → d.task j = c.task j := by
  induction p with
  -- Induction on the program: nothing but its own effects happens, and a finished
  -- program is answered in one more step.
  | ret a =>
      intro c r s ht hs
      simp only [Prog.solo, Option.some.injEq, Prod.mk.injEq] at hs
      refine ⟨c.put (S.onAnswer i q r s) i (.answered q r),
        Reaches.step c _ (.answer i) Reaches.refl ?_, rfl, c.put_task_self _ _ _,
        fun j hj => c.put_task_other _ _ _ _ hj⟩
      simp only [step, ht, Prog.outcome, hs.1, hs.2]
  | raise x =>
      intro c r s ht hs
      simp only [Prog.solo, Option.some.injEq, Prod.mk.injEq] at hs
      refine ⟨c.put (S.onAnswer i q r s) i (.answered q r),
        Reaches.step c _ (.answer i) Reaches.refl ?_, rfl, c.put_task_self _ _ _,
        fun j hj => c.put_task_other _ _ _ _ hj⟩
      simp only [step, ht, Prog.outcome, hs.1, hs.2]
  | await e k ih =>
      intro c r s ht hs
      rw [Prog.solo] at hs
      cases hserve : S.serve i e (fate e) c.shared with
      | none =>
          rw [hserve] at hs
          exact absurd hs (by simp only [reduceCtorEq, not_false_eq_true])
      | some rs =>
          rcases rs with ⟨r1, s1⟩
          rw [hserve] at hs
          have hstep : step S c (.act i (fate e)) = some (c.put s1 i (.running q (k r1))) := by
            simp only [step, ht, hserve]
          -- What is left of the program runs from the state the effect has left.
          rcases ih r1 (c.put s1 i (.running q (k r1))) r s (c.put_task_self _ _ _) hs with
            ⟨d, hd, hsh, htask, hother⟩
          refine ⟨d, reaches_trans (Reaches.step c _ _ Reaches.refl hstep) hd, hsh, htask, ?_⟩
          intro j hj
          rw [hother j hj, c.put_task_other _ _ _ _ hj]

variable (S) in
/-- A request that arrives and then runs alone is answered. -/
theorem reaches_request (i : Nat) (q : Q) (fate : E → O) (c : Config E R ε α Q σ)
    (r : Except ε α) (s : σ) (hfree : c.task i = none)
    (hs : (S.body q).solo (fun e => S.serve i e (fate e)) (S.onStart i q c.shared)
      = some (r, s)) :
    ∃ d, Reaches S c d ∧ d.shared = S.onAnswer i q r s ∧
      d.task i = some (.answered q r) ∧ ∀ j, j ≠ i → d.task j = c.task j := by
  have hstart : step S c (.start i q)
      = some (c.put (S.onStart i q c.shared) i (.running q (S.body q))) := by
    simp only [step, hfree]
  rcases reaches_solo S i q fate (S.body q) _ r s (c.put_task_self _ _ _) hs with
    ⟨d, hd, hsh, htask, hother⟩
  refine ⟨d, reaches_trans (Reaches.step c _ _ Reaches.refl hstart) hd, hsh, htask, ?_⟩
  intro j hj
  rw [hother j hj, c.put_task_other _ _ _ _ hj]

/-- The ways a step can go: what it found, and what it leaves. -/
inductive StepOf (S : System E R ε α Q O A σ) (c : Config E R ε α Q σ) :
    Label Q O A → Config E R ε α Q σ → Prop where
  | start (i : Nat) (q : Q) : c.task i = none →
      StepOf S c (.start i q) (c.put (S.onStart i q c.shared) i (.running q (S.body q)))
  | act (i : Nat) (o : O) (q : Q) (e : E) (k : Except ε (R e) → Prog E R ε α)
      (r : Except ε (R e)) (s : σ) : c.task i = some (.running q (.await e k)) →
      S.serve i e o c.shared = some (r, s) → StepOf S c (.act i o) (c.put s i (.running q (k r)))
  | answer (i : Nat) (q : Q) (p : Prog E R ε α) (r : Except ε α) :
      c.task i = some (.running q p) → p.outcome = some r →
      StepOf S c (.answer i) (c.put (S.onAnswer i q r c.shared) i (.answered q r))
  | abort (i : Nat) (q : Q) (p : Prog E R ε α) : c.task i = some (.running q p) →
      StepOf S c (.abort i) (c.put (S.onAbort i c.shared) i (.aborted q))
  | env (a : A) (s : σ) : S.env a c.shared = some s →
      StepOf S c (.env a) { c with shared := s }

/-- A step went one of these ways. -/
theorem step_cases (c d : Config E R ε α Q σ) (l : Label Q O A) (h : step S c l = some d) :
    StepOf S c l d := by
  cases l with
  | start i q =>
      rw [step] at h
      split at h
      · rename_i hfree
        rw [← Option.some.inj h]
        exact .start i q hfree
      · exact absurd h (by simp only [reduceCtorEq, not_false_eq_true])
  -- An effect needs a task that awaits it and a choice that is open.
  | act i o =>
      rw [step] at h
      split at h
      · rename_i q e k htask
        split at h
        · rename_i r s hserve
          rw [← Option.some.inj h]
          exact .act i o q e k r s htask hserve
        · exact absurd h (by simp only [reduceCtorEq, not_false_eq_true])
      · exact absurd h (by simp only [reduceCtorEq, not_false_eq_true])
  | answer i =>
      rw [step] at h
      split at h
      · rename_i q p htask
        split at h
        · rename_i r hout
          rw [← Option.some.inj h]
          exact .answer i q p r htask hout
        · exact absurd h (by simp only [reduceCtorEq, not_false_eq_true])
      · exact absurd h (by simp only [reduceCtorEq, not_false_eq_true])
  | abort i =>
      rw [step] at h
      split at h
      · rename_i q p htask
        rw [← Option.some.inj h]
        exact .abort i q p htask
      · exact absurd h (by simp only [reduceCtorEq, not_false_eq_true])
  | env a =>
      rw [step] at h
      split at h
      · rename_i s henv
        rw [← Option.some.inj h]
        exact .env a s henv
      · exact absurd h (by simp only [reduceCtorEq, not_false_eq_true])

/-- A step moves one request at most. -/
theorem step_task (c d : Config E R ε α Q σ) (l : Label Q O A) (h : step S c l = some d) :
    ∃ i, ∀ j, j ≠ i → d.task j = c.task j := by
  cases step_cases c d l h with
  | start i _ _ => exact ⟨i, fun j hj => c.put_task_other _ i j _ hj⟩
  | act i _ _ _ _ _ _ _ _ => exact ⟨i, fun j hj => c.put_task_other _ i j _ hj⟩
  | answer i _ _ _ _ _ => exact ⟨i, fun j hj => c.put_task_other _ i j _ hj⟩
  | abort i _ _ _ => exact ⟨i, fun j hj => c.put_task_other _ i j _ hj⟩
  | env _ _ _ => exact ⟨0, fun _ _ => rfl⟩

/-- Only so many requests arrive in a run. -/
theorem reaches_bounded (c d : Config E R ε α Q σ) (n : Nat)
    (hn : ∀ i, n ≤ i → c.task i = none) (h : Reaches S c d) :
    ∃ m, ∀ i, m ≤ i → d.task i = none := by
  induction h with
  | refl => exact ⟨n, hn⟩
  | step d e l _ hstep ih =>
      rcases ih with ⟨m, hm⟩
      rcases step_task d e l hstep with ⟨i, hi⟩
      -- A step adds one request at most.
      refine ⟨max m (i + 1), fun j hj => ?_⟩
      rw [hi j (by omega)]
      exact hm j (by omega)

/-- Every way a step can move the shared state is in `G`. -/
structure Moves (S : System E R ε α Q O A σ) (G : σ → σ → Prop) : Prop where
  start : ∀ i q s, G s (S.onStart i q s)
  serve : ∀ i e o s r s', S.serve i e o s = some (r, s') → G s s'
  answer : ∀ i q r s, G s (S.onAnswer i q r s)
  abort : ∀ i s, G s (S.onAbort i s)
  env : ∀ a s s', S.env a s = some s' → G s s'

theorem Moves.step {G : σ → σ → Prop} (hG : Moves S G) (c d : Config E R ε α Q σ)
    (l : Label Q O A) (h : step S c l = some d) : G c.shared d.shared := by
  cases step_cases c d l h with
  | start i q _ => exact hG.start i q _
  | act i o q e k r s _ hserve => exact hG.serve i e o _ r s hserve
  | answer i q p r _ _ => exact hG.answer i q r _
  | abort i _ _ _ => exact hG.abort i _
  | env a s henv => exact hG.env a _ s henv

/-- What holds of every step, and composes, holds of every run. -/
theorem Moves.reaches {G : σ → σ → Prop} (hG : Moves S G) (hrefl : ∀ s, G s s)
    (htrans : ∀ s s' s'', G s s' → G s' s'' → G s s'') (c d : Config E R ε α Q σ)
    (h : Reaches S c d) : G c.shared d.shared := by
  induction h with
  | refl => exact hrefl _
  | step d e l _ hstep ih => exact htrans _ _ _ ih (hG.step d e l hstep)

end Runs

section Safe

variable {E : Type} {R : E → Type} {ε α β O σ : Type}
variable (serve : (e : E) → O → σ → Option (Except ε (R e) × σ))
variable (Inv : σ → Prop) (Rely : σ → σ → Prop)

/-- A task keeps the invariant at each of its steps and ends in its
    postcondition, whatever `Rely` does to the shared state in between. -/
def Safe (Post : Except ε α → σ → Prop) : Prog E R ε α → σ → Prop
  | .ret a, s => Post (.ok a) s
  | .raise x, s => Post (.error x) s
  | .await e k, s => ∀ s₁, Rely s s₁ → Inv s₁ → ∀ o r s₂, serve e o s₁ = some (r, s₂) →
      Inv s₂ ∧ Safe Post (k r) s₂

variable {serve Inv Rely}

/-- Sequencing composes specifications: the first program's postcondition is
    that the rest is safe from where it returned. -/
theorem safe_bind {Post : Except ε β → σ → Prop} (p : Prog E R ε α) (f : α → Prog E R ε β)
    (s : σ) (hp : Safe serve Inv Rely (fun r s' => match r with
      | .ok a => Safe serve Inv Rely Post (f a) s'
      | .error x => Post (.error x) s') p s) :
    Safe serve Inv Rely Post (p.bind f) s := by
  induction p generalizing s with
  -- Induction on the first program: its effects come first, and the obligation
  -- for each of them is the one it had alone.
  | ret a => exact hp
  | raise x => exact hp
  | await e k ih =>
      intro s₁ hrely hinv o r s₂ hserve
      rcases hp s₁ hrely hinv o r s₂ hserve with ⟨hinv₂, hsafe⟩
      exact ⟨hinv₂, ih r s₂ hsafe⟩

/-- Exception handling composes specifications. -/
theorem safe_tryCatch {Post : Except ε α → σ → Prop} (p : Prog E R ε α)
    (h : ε → Prog E R ε α) (s : σ) (hp : Safe serve Inv Rely (fun r s' => match r with
      | .ok a => Post (.ok a) s'
      | .error x => Safe serve Inv Rely Post (h x) s') p s) :
    Safe serve Inv Rely Post (p.tryCatch h) s := by
  induction p generalizing s with
  | ret a => exact hp
  | raise x => exact hp
  | await e k ih =>
      intro s₁ hrely hinv o r s₂ hserve
      rcases hp s₁ hrely hinv o r s₂ hserve with ⟨hinv₂, hsafe⟩
      exact ⟨hinv₂, ih r s₂ hsafe⟩

/-- A computed result is safe when it satisfies the postcondition already. -/
theorem safe_fromExcept {Post : Except ε α → σ → Prop} (r : Except ε α) (s : σ)
    (h : Post r s) : Safe serve Inv Rely Post (.fromExcept r) s := by
  cases r with
  | ok a => exact h
  | error x => exact h

/-- One effect is safe when every answer to it keeps the invariant and
    satisfies the postcondition. -/
theorem safe_call (e : E) {Post : Except ε (R e) → σ → Prop} (s : σ)
    (h : ∀ s₁, Rely s s₁ → Inv s₁ → ∀ o r s₂, serve e o s₁ = some (r, s₂) →
      Inv s₂ ∧ Post r s₂) : Safe serve Inv Rely Post (.call e) s := by
  intro s₁ hrely hinv o r s₂ hserve
  rcases h s₁ hrely hinv o r s₂ hserve with ⟨hinv₂, hpost⟩
  exact ⟨hinv₂, safe_fromExcept r s₂ hpost⟩

/-- A safe task stays safe when the others move, provided that what it ends
    in survives them too. -/
theorem safe_rely (htrans : ∀ a b c, Rely a b → Rely b c → Rely a c)
    {Post : Except ε α → σ → Prop} (hpost : ∀ r s s', Rely s s' → Post r s → Post r s')
    (p : Prog E R ε α) (s s' : σ) (hmove : Rely s s')
    (hp : Safe serve Inv Rely Post p s) : Safe serve Inv Rely Post p s' := by
  cases p with
  | ret a => exact hpost _ _ _ hmove hp
  | raise x => exact hpost _ _ _ hmove hp
  | await e k =>
      -- Two moves of the others are one.
      intro s₁ hrely
      exact hp s₁ (htrans _ _ _ hmove hrely)

end Safe

section Outline

variable {E : Type} {R : E → Type} {ε α Q O A σ : Type}

/-- What an invariant proof of a system has to show. `Rely i` is what anybody
    but task `i` may do to the shared state; `Fresh i` is what is known of an
    identifier before its request arrives. -/
structure Outline (S : System E R ε α Q O A σ) where
  Inv : σ → Prop
  Rely : Nat → σ → σ → Prop
  Fresh : Nat → σ → Prop
  Post : Nat → Q → Except ε α → σ → Prop
  rely_refl : ∀ i s, Rely i s s
  rely_trans : ∀ i a b c, Rely i a b → Rely i b c → Rely i a c
  fresh_rely : ∀ i s s', Rely i s s' → Fresh i s → Fresh i s'
  post_rely : ∀ i q r s s', Rely i s s' → Post i q r s → Post i q r s'
  start_spec : ∀ i q s, Inv s → Fresh i s → Inv (S.onStart i q s) ∧
    Safe (S.serve i) Inv (Rely i) (Post i q) (S.body q) (S.onStart i q s)
  start_rely : ∀ i j q s, j ≠ i → Rely j s (S.onStart i q s)
  serve_rely : ∀ i j e o s r s', j ≠ i → S.serve i e o s = some (r, s') → Rely j s s'
  answer_spec : ∀ i q r s, Inv s → Post i q r s →
    Inv (S.onAnswer i q r s) ∧ Post i q r (S.onAnswer i q r s)
  answer_rely : ∀ i j q r s, j ≠ i → Rely j s (S.onAnswer i q r s)
  abort_spec : ∀ i s, Inv s → Inv (S.onAbort i s)
  abort_rely : ∀ i j s, j ≠ i → Rely j s (S.onAbort i s)
  env_spec : ∀ a s s', S.env a s = some s' → Inv s → Inv s'
  env_rely : ∀ a j s s', S.env a s = some s' → Rely j s s'

namespace Outline

variable {S : System E R ε α Q O A σ} (P : Outline S)

/-- What is known of a task in a reachable configuration. -/
def TaskOk (i : Nat) (t : Option (Task E R ε α Q)) (s : σ) : Prop :=
  match t with
  | none => P.Fresh i s
  | some (.running q p) => Safe (S.serve i) P.Inv (P.Rely i) (P.Post i q) p s
  | some (.answered q r) => P.Post i q r s
  | some (.aborted _) => True

theorem taskOk_rely (i : Nat) (t : Option (Task E R ε α Q)) (s s' : σ)
    (hmove : P.Rely i s s') (h : P.TaskOk i t s) : P.TaskOk i t s' := by
  rcases t with _ | t
  · exact P.fresh_rely i s s' hmove h
  · cases t with
    | running q p =>
        exact safe_rely (P.rely_trans i) (fun r a b => P.post_rely i q r a b) p s s' hmove h
    | answered q r => exact P.post_rely i q r s s' hmove h
    | aborted q => trivial

/-- What is known of a configuration: the invariant, and of each task what
    its stage allows. -/
def Holds (c : Config E R ε α Q σ) : Prop :=
  P.Inv c.shared ∧ ∀ i, P.TaskOk i (c.task i) c.shared

/-- A step of task `i` to a state where the invariant holds and the task is
    in order leaves every other task in order. -/
theorem holds_put (c : Config E R ε α Q σ) (s : σ) (i : Nat) (t : Task E R ε α Q)
    (hc : P.Holds c) (hinv : P.Inv s) (htask : P.TaskOk i (some t) s)
    (hrely : ∀ j, j ≠ i → P.Rely j c.shared s) : P.Holds (c.put s i t) := by
  refine ⟨hinv, fun j => ?_⟩
  -- The task that moved is given; the others saw a step they rely on.
  by_cases hj : j = i
  · rw [hj, c.put_task_self]
    exact htask
  · rw [c.put_task_other _ _ _ _ hj]
    exact P.taskOk_rely j _ _ _ (hrely j hj) (hc.2 j)

/-- A finished program is safe exactly when its outcome is. -/
theorem post_of_outcome (i : Nat) (q : Q) (p : Prog E R ε α) (r : Except ε α) (s : σ)
    (hout : p.outcome = some r) (hp : Safe (S.serve i) P.Inv (P.Rely i) (P.Post i q) p s) :
    P.Post i q r s := by
  cases p with
  | ret a =>
      rw [← Option.some.inj hout]
      exact hp
  | raise x =>
      rw [← Option.some.inj hout]
      exact hp
  | await e k => exact absurd hout (by simp only [Prog.outcome, reduceCtorEq, not_false_eq_true])

theorem holds_step (c d : Config E R ε α Q σ) (l : Label Q O A) (hc : P.Holds c)
    (hstep : step S c l = some d) : P.Holds d := by
  cases step_cases c d l hstep with
  | start i q hfree =>
      have hi := hc.2 i
      rw [hfree] at hi
      rcases P.start_spec i q c.shared hc.1 hi with ⟨hinv, hsafe⟩
      exact P.holds_put c _ i _ hc hinv hsafe (fun j hj => P.start_rely i j q _ hj)
  | act i o q e k r s htask hserve =>
      have hi := hc.2 i
      rw [htask] at hi
      -- The task was left to itself since its last step, so it may rely on that.
      rcases hi c.shared (P.rely_refl i _) hc.1 o r s hserve with ⟨hinv, hsafe⟩
      exact P.holds_put c s i _ hc hinv hsafe (fun j hj => P.serve_rely i j e o _ r s hj hserve)
  | answer i q p r htask hout =>
      have hi := hc.2 i
      rw [htask] at hi
      rcases P.answer_spec i q r c.shared hc.1 (P.post_of_outcome i q p r _ hout hi) with
        ⟨hinv, hpost⟩
      exact P.holds_put c _ i _ hc hinv hpost (fun j hj => P.answer_rely i j q r _ hj)
  | abort i q p _ =>
      exact P.holds_put c _ i _ hc (P.abort_spec i _ hc.1) trivial
        (fun j hj => P.abort_rely i j _ hj)
  | env a s henv =>
      exact ⟨P.env_spec a _ _ henv hc.1,
        fun j => P.taskOk_rely j _ _ _ (P.env_rely a j _ _ henv) (hc.2 j)⟩

/-- The obligations hold in every reachable configuration, by induction over
    the run. -/
theorem sound (s : σ) (hinv : P.Inv s) (hfresh : ∀ i, P.Fresh i s)
    (c : Config E R ε α Q σ) (hr : Reaches S (Config.init s) c) : P.Holds c := by
  induction hr with
  | refl => exact ⟨hinv, hfresh⟩
  | step d e l _ hstep ih => exact P.holds_step d e l ih hstep

end Outline

end Outline

end Async
