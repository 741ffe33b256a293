import KingPi.Async.Pool
import Mathlib.Algebra.Order.BigOperators.Group.Finset

/-!
# Progress

When every program makes a bounded number of calls, a run can only get stuck
or come to an end: each step of a task uses up one of its calls, or is its
last. So if there is always some task that can move, all of them can be
brought to their end.

`Within` bounds the calls of a program and says something of each of them. It
composes, like specifications do. What a call is followed by may be part of
it, as long as that stays true when the program is continued.

## Main definitions

* `Prog.next`: The effect a program awaits.
* `Within`: A program makes so many calls at most, each of some kind.
* `ReachesBy`: The configurations reached by steps of some kind.

## Theorems

* `acts_bounded`: A task makes as many calls in a run as its program at most.
* `reaches_within`: What holds of a request's program holds of what is left of
  it.
* `finishes`: Tasks that can always move can all be finished.
-/

namespace Async

section Programs

variable {E : Type} {R : E → Type} {ε α β : Type}

/-- The effect a program awaits. -/
def Prog.next : Prog E R ε α → Option E
  | .ret _ => none
  | .raise _ => none
  | .await e _ => some e

/-- A program makes so many calls at most, and something holds of each of them
    and of what each answer to it is followed by. -/
def Within (P : (e : E) → (Except ε (R e) → Option E) → Prop) : Nat → Prog E R ε α → Prop
  | _, .ret _ => True
  | _, .raise _ => True
  | 0, .await _ _ => False
  | n + 1, .await e k => P e (fun r => (k r).next) ∧ ∀ r, Within P n (k r)

/-- What is said of a call stays true when more follows it. -/
def Continues (P : (e : E) → (Except ε (R e) → Option E) → Prop) : Prop :=
  ∀ e g g', (∀ r, g r = none ∨ g' r = g r) → P e g → P e g'

variable {P : (e : E) → (Except ε (R e) → Option E) → Prop}

theorem within_ret (n : Nat) (a : α) : Within P n (.ret a : Prog E R ε α) := by
  cases n with
  | zero => trivial
  | succ n => trivial

theorem within_raise (n : Nat) (x : ε) : Within P n (.raise x : Prog E R ε α) := by
  cases n with
  | zero => trivial
  | succ n => trivial

theorem within_fromExcept (n : Nat) (r : Except ε α) :
    Within P n (.fromExcept r : Prog E R ε α) := by
  cases r with
  | ok a => exact within_ret n a
  | error x => exact within_raise n x

theorem within_mono (p : Prog E R ε α) (m n : Nat) (hmn : m ≤ n) (h : Within P m p) :
    Within P n p := by
  induction p generalizing m n with
  | ret a => exact within_ret n a
  | raise x => exact within_raise n x
  | await e k ih =>
      cases m with
      | zero => exact h.elim
      | succ m =>
          rcases Nat.exists_eq_add_of_le' (show 1 ≤ n by omega) with ⟨n, rfl⟩
          exact ⟨h.1, fun r => ih r m n (by omega) (h.2 r)⟩

/-- One call, which nothing follows. -/
theorem within_call (e : E) (h : P e (fun _ => none)) :
    Within P 1 (.call e : Prog E R ε (R e)) := by
  refine ⟨?_, fun r => within_fromExcept 0 r⟩
  have hnone : (fun r : Except ε (R e) => (Prog.fromExcept r : Prog E R ε (R e)).next)
      = fun _ => none := by
    funext r
    cases r with
    | ok a => rfl
    | error x => rfl
  rw [hnone]
  exact h

theorem next_bind (p : Prog E R ε α) (f : α → Prog E R ε β) :
    p.next = none ∨ (p.bind f).next = p.next := by
  cases p with
  | ret a => exact Or.inl rfl
  | raise x => exact Or.inl rfl
  | await e k => exact Or.inr rfl

theorem next_tryCatch (p : Prog E R ε α) (h : ε → Prog E R ε α) :
    p.next = none ∨ (p.tryCatch h).next = p.next := by
  cases p with
  | ret a => exact Or.inl rfl
  | raise x => exact Or.inl rfl
  | await e k => exact Or.inr rfl

/-- The calls of a sequence. -/
theorem within_bind (hP : Continues P) (p : Prog E R ε α) (f : α → Prog E R ε β) (m n : Nat)
    (hp : Within P m p) (hf : ∀ a, Within P n (f a)) : Within P (m + n) (p.bind f) := by
  induction p generalizing m with
  | ret a => exact within_mono _ n _ (Nat.le_add_left n m) (hf a)
  | raise x => exact within_raise _ x
  | await e k ih =>
      cases m with
      | zero => exact hp.elim
      | succ m =>
          rw [Nat.succ_add]
          exact ⟨hP e _ _ (fun r => next_bind (k r) f) hp.1, fun r => ih r m (hp.2 r)⟩

/-- The calls of a guarded program and of the handler. -/
theorem within_tryCatch (hP : Continues P) (p : Prog E R ε α) (h : ε → Prog E R ε α) (m n : Nat)
    (hp : Within P m p) (hh : ∀ x, Within P n (h x)) : Within P (m + n) (p.tryCatch h) := by
  induction p generalizing m with
  | ret a => exact within_ret _ a
  | raise x => exact within_mono _ n _ (Nat.le_add_left n m) (hh x)
  | await e k ih =>
      cases m with
      | zero => exact hp.elim
      | succ m =>
          rw [Nat.succ_add]
          exact ⟨hP e _ _ (fun r => next_tryCatch (k r) h) hp.1, fun r => ih r m (hp.2 r)⟩

end Programs

section Runs

variable {E : Type} {R : E → Type} {ε α Q O A σ : Type} {S : System E R ε α Q O A σ}

/-- The request a task serves. -/
def Task.request : Task E R ε α Q → Q
  | .running q _ => q
  | .answered q _ => q
  | .aborted q => q

/-- A call of task `i`. -/
def Label.isAct (i : Nat) : Label Q O A → Bool
  | .act j _ => j == i
  | _ => false

variable {P : (e : E) → (Except ε (R e) → Option E) → Prop}

/-- What holds of a request's program holds of what is left of it. -/
theorem reaches_within (bound : Q → Nat) (hbody : ∀ q, Within P (bound q) (S.body q)) (s : σ)
    (c : Config E R ε α Q σ) (h : Reaches S (Config.init s) c) (i : Nat) (q : Q)
    (p : Prog E R ε α) (htask : c.task i = some (.running q p)) : Within P (bound q) p := by
  induction h generalizing i q p with
  | refl => exact absurd htask (by simp only [Config.init, reduceCtorEq, not_false_eq_true])
  | step c d l _ hl ih =>
      -- A step puts one task in its place, and what the others have left is what they
      -- had left before.
      have hput : ∀ (s : σ) (j : Nat) (t : Task E R ε α Q), (c.put s j t).task i
          = some (.running q p) → (∀ q' p', t = .running q' p' → Within P (bound q') p') →
          Within P (bound q) p := by
        intro s j t hi ht
        by_cases hij : i = j
        · rw [hij, c.put_task_self, Option.some.injEq] at hi
          exact ht q p hi
        · rw [c.put_task_other _ _ _ _ hij] at hi
          exact ih i q p hi
      cases step_cases c d l hl with
      | start j q' hfree =>
          refine hput _ j _ htask (fun q₁ p₁ heq => ?_)
          cases heq
          exact hbody q'
      | act j o q' e k r s hj _ =>
          refine hput _ j _ htask (fun q₁ p₁ heq => ?_)
          cases heq
          -- The program was at a call, so there was one left to make.
          have hk := ih j q' _ hj
          cases hb : bound q' with
          | zero =>
              rw [hb] at hk
              exact hk.elim
          | succ n =>
              rw [hb] at hk
              exact within_mono _ n _ (Nat.le_succ n) (hk.2 r)
      | answer j q' p' r _ _ =>
          exact hput _ j _ htask (fun q₁ p₁ heq => absurd heq (by simp only [reduceCtorEq,
            not_false_eq_true]))
      | abort j q' p' _ =>
          exact hput _ j _ htask (fun q₁ p₁ heq => absurd heq (by simp only [reduceCtorEq,
            not_false_eq_true]))
      | env a s _ => exact ih i q p htask

/-- How the calls of a task in a run are bounded, by where it stands before the
    run and after it. -/
def CallsBounded (P : (e : E) → (Except ε (R e) → Option E) → Prop) (bound : Q → Nat)
    (calls : Nat) (after : Option (Task E R ε α Q)) : Option (Task E R ε α Q) → Prop
  | none => (after = none ∧ calls = 0) ∨ ∃ t, after = some t ∧ calls ≤ bound t.request
  | some (.running q p) => (∃ t, after = some t ∧ t.request = q) ∧ ∀ n, Within P n p → calls ≤ n
  | some (.answered q r) => after = some (.answered q r) ∧ calls = 0
  | some (.aborted q) => after = some (.aborted q) ∧ calls = 0

/-- By induction over the run: a step of another task changes nothing, and a
    call of this one is one call less to come. -/
theorem acts_of_run (bound : Q → Nat) (hbody : ∀ q, Within P (bound q) (S.body q))
    (ls : List (Label Q O A)) (c d : Config E R ε α Q σ) (h : run S c ls = some d) (i : Nat) :
    CallsBounded P bound (ls.countP (Label.isAct i)) (d.task i) (c.task i) := by
  induction ls generalizing c with
  | nil =>
      rw [run, Option.some.injEq] at h
      rw [← h, List.countP_nil]
      cases c.task i with
      | none => exact Or.inl ⟨rfl, rfl⟩
      | some t =>
          cases t with
          | running q p => exact ⟨⟨_, rfl, rfl⟩, fun n _ => Nat.zero_le n⟩
          | answered q r => exact ⟨rfl, rfl⟩
          | aborted q => exact ⟨rfl, rfl⟩
  | cons l ls ih =>
      rw [run] at h
      cases hl : step S c l with
      | none =>
          rw [hl] at h
          exact absurd h (by simp only [reduceCtorEq, not_false_eq_true])
      | some e =>
          rw [hl] at h
          have hrest := ih e h
          -- Only a call of the task itself counts.
          have hskip : l.isAct i = false →
              (l :: ls).countP (Label.isAct i) = ls.countP (Label.isAct i) := by
            intro hact
            rw [List.countP_cons, hact]
            rfl
          cases step_cases c e l hl with
          | start j q hfree =>
              rw [hskip rfl]
              by_cases hij : i = j
              · rw [hij, c.put_task_self] at hrest
                rw [hij, hfree]
                rcases hrest with ⟨⟨t, ht, hq⟩, hcalls⟩
                refine Or.inr ⟨t, ht, ?_⟩
                rw [hq]
                exact hcalls _ (hbody q)
              · rwa [c.put_task_other _ _ _ _ hij] at hrest
          | act j o q e k r s htask hserve =>
              by_cases hij : i = j
              · rw [hij, c.put_task_self] at hrest
                rw [hij, htask]
                -- This call is one of the `n + 1` that were left, and the rest makes `n`.
                rcases hrest with ⟨hreq, hcalls⟩
                refine ⟨hreq, fun n hn => ?_⟩
                cases n with
                | zero => exact hn.elim
                | succ n =>
                    rw [List.countP_cons_of_pos (show (Label.act j o : Label Q O A).isAct j = true
                      from beq_self_eq_true j)]
                    exact Nat.succ_le_succ (hcalls n (hn.2 r))
              · rw [hskip (beq_eq_false_iff_ne.mpr (Ne.symm hij))]
                rwa [c.put_task_other _ _ _ _ hij] at hrest
          | answer j q p r htask hout =>
              rw [hskip rfl]
              by_cases hij : i = j
              · rw [hij, c.put_task_self] at hrest
                rw [hij, htask]
                refine ⟨⟨_, hrest.1, rfl⟩, fun n _ => ?_⟩
                rw [hrest.2]
                exact Nat.zero_le n
              · rwa [c.put_task_other _ _ _ _ hij] at hrest
          | abort j q p htask =>
              rw [hskip rfl]
              by_cases hij : i = j
              · rw [hij, c.put_task_self] at hrest
                rw [hij, htask]
                refine ⟨⟨_, hrest.1, rfl⟩, fun n _ => ?_⟩
                rw [hrest.2]
                exact Nat.zero_le n
              · rwa [c.put_task_other _ _ _ _ hij] at hrest
          | env a s henv =>
              rw [hskip rfl]
              exact hrest

/-- A task makes as many calls in a run as its program at most. -/
theorem acts_bounded (bound : Q → Nat) (hbody : ∀ q, Within P (bound q) (S.body q)) (s : σ)
    (ls : List (Label Q O A)) (d : Config E R ε α Q σ) (h : run S (Config.init s) ls = some d)
    (i : Nat) (t : Task E R ε α Q) (ht : d.task i = some t) :
    ls.countP (Label.isAct i) ≤ bound t.request := by
  rcases acts_of_run bound hbody ls _ d h i with ⟨hnone, _⟩ | ⟨t', ht', hcalls⟩
  · rw [ht] at hnone
    exact absurd hnone (by simp only [reduceCtorEq, not_false_eq_true])
  · rw [ht, Option.some.injEq] at ht'
    rw [ht']
    exact hcalls

/-- The configurations reached by steps of some kind. -/
inductive ReachesBy (S : System E R ε α Q O A σ) (ok : Label Q O A → Prop)
    (c : Config E R ε α Q σ) : Config E R ε α Q σ → Prop where
  | refl : ReachesBy S ok c c
  | step (d e : Config E R ε α Q σ) (l : Label Q O A) : ReachesBy S ok c d → ok l →
      Async.step S d l = some e → ReachesBy S ok c e

variable {ok : Label Q O A → Prop}

theorem reaches_of_by (c d : Config E R ε α Q σ) (h : ReachesBy S ok c d) : Reaches S c d := by
  induction h with
  | refl => exact Reaches.refl
  | step d e l _ _ hstep ih => exact Reaches.step d e l ih hstep

theorem reachesBy_trans (a b c : Config E R ε α Q σ) (h : ReachesBy S ok a b)
    (h' : ReachesBy S ok b c) : ReachesBy S ok a c := by
  induction h' with
  | refl => exact h
  | step d e l _ hl hstep ih => exact ReachesBy.step d e l ih hl hstep

/-- A call of a task that is under way, or its answer. -/
def Label.isMove : Label Q O A → Bool
  | .act _ _ => true
  | .answer _ => true
  | _ => false

/-- Where a task can get by moves: one under way may be answered, and any other
    stays. -/
def MovedTo (t t' : Option (Task E R ε α Q)) : Prop :=
  match t with
  | some (.running q _) => (∃ p, t' = some (.running q p)) ∨ ∃ r, t' = some (.answered q r)
  | t => t' = t

theorem movedTo_refl (t : Option (Task E R ε α Q)) : MovedTo t t := by
  rcases t with _ | t
  · rfl
  · cases t with
    | running q p => exact Or.inl ⟨p, rfl⟩
    | answered q r => rfl
    | aborted q => rfl

theorem movedTo_trans (t t' t'' : Option (Task E R ε α Q)) (h : MovedTo t t')
    (h' : MovedTo t' t'') : MovedTo t t'' := by
  rcases t with _ | t
  · cases h
    exact h'
  · cases t with
    | running q p =>
        rcases h with ⟨p', rfl⟩ | ⟨r, rfl⟩
        · exact h'
        · exact Or.inr ⟨r, h'⟩
    | answered q r =>
        cases h
        exact h'
    | aborted q =>
        cases h
        exact h'

/-- The bound on the calls a task may still make, and one for its answer. -/
def weight (n : Nat) : Option (Task E R ε α Q) → Nat
  | some (.running _ _) => n + 1
  | _ => 0

/-- A move takes from the weight of the task that moves. -/
theorem move_weight (c d : Config E R ε α Q σ) (l : Label Q O A) (hmove : l.isMove = true)
    (h : step S c l = some d) (left : Nat → Nat)
    (hleft : ∀ i q p, c.task i = some (.running q p) → Within P (left i) p) :
    ∃ j, ∃ left' : Nat → Nat, (∃ t, c.task j = some t) ∧
      (∀ i q p, d.task i = some (.running q p) → Within P (left' i) p) ∧
      (∀ i, i ≠ j → weight (left' i) (d.task i) = weight (left i) (c.task i)) ∧
      weight (left' j) (d.task j) < weight (left j) (c.task j) ∧
      ∀ i, MovedTo (c.task i) (d.task i) := by
  cases step_cases c d l h with
  | start j q hfree => exact absurd hmove Bool.false_ne_true
  | abort j q p htask => exact absurd hmove Bool.false_ne_true
  | env a s henv => exact absurd hmove Bool.false_ne_true
  | act j o q e k r s htask hserve =>
      have hj := hleft j q _ htask
      rcases Nat.exists_eq_add_of_le' (show 1 ≤ left j from by
        cases hl : left j with
        | zero =>
            rw [hl] at hj
            exact hj.elim
        | succ n => exact Nat.succ_le_succ (Nat.zero_le n)) with ⟨n, hn⟩
      rw [hn] at hj
      -- The task that moves has one call less to come, the others as many as before.
      refine ⟨j, Function.update left j n, ⟨_, htask⟩, ?_, ?_, ?_, ?_⟩
      · intro i q' p' hi
        by_cases hij : i = j
        · rw [hij, c.put_task_self, Option.some.injEq, Task.running.injEq] at hi
          rw [hij, Function.update_self, ← hi.2]
          exact hj.2 r
        · rw [c.put_task_other _ _ _ _ hij] at hi
          rw [Function.update_of_ne hij]
          exact hleft i q' p' hi
      · intro i hij
        rw [c.put_task_other _ _ _ _ hij, Function.update_of_ne hij]
      · rw [c.put_task_self, Function.update_self, htask, hn]
        exact Nat.lt_succ_self _
      · intro i
        by_cases hij : i = j
        · rw [hij, c.put_task_self, htask]
          exact Or.inl ⟨_, rfl⟩
        · rw [c.put_task_other _ _ _ _ hij]
          exact movedTo_refl _
  | answer j q p r htask hout =>
      -- An answered task has no weight, whatever was left to it.
      refine ⟨j, left, ⟨_, htask⟩, ?_, ?_, ?_, ?_⟩
      · intro i q' p' hi
        by_cases hij : i = j
        · rw [hij, c.put_task_self] at hi
          exact absurd hi (by simp only [Option.some.injEq, reduceCtorEq, not_false_eq_true])
        · rw [c.put_task_other _ _ _ _ hij] at hi
          exact hleft i q' p' hi
      · intro i hij
        rw [c.put_task_other _ _ _ _ hij]
      · rw [c.put_task_self, htask]
        exact Nat.succ_pos _
      · intro i
        by_cases hij : i = j
        · rw [hij, c.put_task_self, htask]
          exact Or.inr ⟨r, rfl⟩
        · rw [c.put_task_other _ _ _ _ hij]
          exact movedTo_refl _

/-- If some task can always move while one is under way, then all of them can
    be brought to their answers, by induction on what they may still do. -/
theorem finishes (bound : Q → Nat) (hbody : ∀ q, Within P (bound q) (S.body q)) (s : σ)
    (hok : ∀ l, ok l → l.isMove = true)
    (hmoves : ∀ c, Reaches S (Config.init s) c → (∃ i q p, c.task i = some (.running q p)) →
      ∃ l d, ok l ∧ step S c l = some d)
    (c : Config E R ε α Q σ) (hc : Reaches S (Config.init s) c) :
    ∃ d, ReachesBy S ok c d ∧ (∀ i, MovedTo (c.task i) (d.task i)) ∧
      ∀ i q p, d.task i ≠ some (.running q p) := by
  rcases reaches_bounded _ c 0 (fun _ _ => rfl) hc with ⟨n, hn⟩
  have hinduct : ∀ (total : Nat) (c : Config E R ε α Q σ) (left : Nat → Nat),
      Reaches S (Config.init s) c → (∀ i, n ≤ i → c.task i = none) →
      (∀ i q p, c.task i = some (.running q p) → Within P (left i) p) →
      ∑ i ∈ Finset.range n, weight (left i) (c.task i) < total →
      ∃ d, ReachesBy S ok c d ∧ (∀ i, MovedTo (c.task i) (d.task i)) ∧
        ∀ i q p, d.task i ≠ some (.running q p) := by
    intro total
    induction total with
    | zero => exact fun _ _ _ _ _ h => absurd h (Nat.not_lt_zero _)
    | succ total ih =>
        intro c left hc hn hleft htotal
        by_cases hrun : ∃ i q p, c.task i = some (.running q p)
        · rcases hmoves c hc hrun with ⟨l, e, hl, hstep⟩
          rcases move_weight c e l (hok l hl) hstep left hleft with
            ⟨j, left', ⟨t, ht⟩, hleft', hsame, hless, hmoved⟩
          -- Tasks from `n` on do not exist, so the one that moves is counted.
          have hjn : j ∈ Finset.range n := by
            rw [Finset.mem_range]
            by_contra hle
            rw [hn j (Nat.le_of_not_lt hle)] at ht
            exact absurd ht (by simp only [reduceCtorEq, not_false_eq_true])
          -- The other tasks weigh what they did.
          have hsum : ∑ i ∈ Finset.range n, weight (left' i) (e.task i)
              < ∑ i ∈ Finset.range n, weight (left i) (c.task i) := by
            refine Finset.sum_lt_sum (fun i _ => ?_) ⟨j, hjn, hless⟩
            by_cases hij : i = j
            · rw [hij]
              exact hless.le
            · exact (hsame i hij).le
          have hnone : ∀ i, n ≤ i → e.task i = none := by
            intro i hi
            have := hmoved i
            rw [hn i hi] at this
            exact this
          rcases ih e left' (Reaches.step c e l hc hstep) hnone hleft' (by omega) with
            ⟨d, hd, hmoved', hdone⟩
          exact ⟨d, reachesBy_trans _ _ _ (ReachesBy.step c e l .refl hl hstep) hd,
            fun i => movedTo_trans _ _ _ (hmoved i) (hmoved' i), hdone⟩
        · exact ⟨c, .refl, fun i => movedTo_refl _, fun i q p h => hrun ⟨i, q, p, h⟩⟩
  -- To begin with, a task has left what its request may do in all.
  refine hinduct _ c (fun i => match c.task i with
    | some t => bound t.request
    | none => 0) hc hn (fun i q p hi => ?_) (Nat.lt_succ_self _)
  rw [hi]
  exact reaches_within bound hbody s c hc i q p hi

end Runs

end Async
