import KingPi.Async.Pool

/-!
# What One Task Records

Suppose the shared state keeps a log, and every record in it belongs to the
task that made it. The other tasks can do a lot to the shared state, but they
cannot touch a task's own records, so what those look like depends on the
task's program alone.

`Records` is the proof rule that goes with it. It follows one program and
everything it may have recorded so far; what an effect can record is given by
`notes`. No invariant and no interference come into it, so that it reads like
a specification of a sequential program, and it composes in the same way.

`Logged.sound` brings the local specifications back into a run: in every
reachable configuration the records of a task are its arrival, what its
program recorded, and its answer if it has been given one.

## Main definitions

* `Records`: A program keeps an assertion about what it has recorded.
* `Logged`: A system whose shared state keeps a log.
* `Logged.of`: The records of a task.

## Theorems

* `records_bind`, `records_tryCatch`: Local specifications compose.
* `Logged.follows`: What effects preserve holds of every task.
* `Logged.sound`: The records of a task in a reachable configuration.
-/

namespace Async

section Records

variable {E : Type} {R : E → Type} {ε α β ρ : Type}
variable (notes : (e : E) → Except ε (R e) → List ρ → Prop)

/-- A program that has recorded some list satisfies its assertion before each
    of its effects and at its end, whatever it is answered and whatever is
    recorded on the way. -/
def Records (Post : Option (Except ε α) → List ρ → Prop) : Prog E R ε α → List ρ → Prop
  | .ret a, l => Post (some (.ok a)) l
  | .raise x, l => Post (some (.error x)) l
  | .await e k, l => Post none l ∧ ∀ r l', notes e r l' → Records Post (k r) (l ++ l')

variable {notes}

/-- What holds of a program's records now. -/
theorem records_post {Post : Option (Except ε α) → List ρ → Prop} (p : Prog E R ε α)
    (l : List ρ) (h : Records notes Post p l) : Post p.outcome l := by
  cases p with
  | ret a => exact h
  | raise x => exact h
  | await e k => exact h.1

theorem records_mono {Post Post' : Option (Except ε α) → List ρ → Prop}
    (hpost : ∀ o l, Post o l → Post' o l) (p : Prog E R ε α) (l : List ρ)
    (h : Records notes Post p l) : Records notes Post' p l := by
  induction p generalizing l with
  | ret a => exact hpost _ l h
  | raise x => exact hpost _ l h
  | await e k ih => exact ⟨hpost _ l h.1, fun r l' hl' => ih r _ (h.2 r l' hl')⟩

theorem records_true (p : Prog E R ε α) (l : List ρ) :
    Records notes (fun _ _ => True) p l := by
  induction p generalizing l with
  | ret a => trivial
  | raise x => trivial
  | await e k ih => exact ⟨trivial, fun r l' _ => ih r _⟩

/-- Local specifications compose along a sequence. -/
theorem records_bind {Post : Option (Except ε β) → List ρ → Prop} (p : Prog E R ε α)
    (f : α → Prog E R ε β) (l : List ρ) (hp : Records notes (fun o l' => match o with
      | none => Post none l'
      | some (.ok a) => Records notes Post (f a) l'
      | some (.error x) => Post (some (.error x)) l') p l) :
    Records notes Post (p.bind f) l := by
  induction p generalizing l with
  | ret a => exact hp
  | raise x => exact hp
  | await e k ih => exact ⟨hp.1, fun r l' hl' => ih r _ (hp.2 r l' hl')⟩

/-- Local specifications compose with exception handling. -/
theorem records_tryCatch {Post : Option (Except ε α) → List ρ → Prop} (p : Prog E R ε α)
    (h : ε → Prog E R ε α) (l : List ρ) (hp : Records notes (fun o l' => match o with
      | none => Post none l'
      | some (.ok a) => Post (some (.ok a)) l'
      | some (.error x) => Records notes Post (h x) l') p l) :
    Records notes Post (p.tryCatch h) l := by
  induction p generalizing l with
  | ret a => exact hp
  | raise x => exact hp
  | await e k ih => exact ⟨hp.1, fun r l' hl' => ih r _ (hp.2 r l' hl')⟩

theorem records_fromExcept {Post : Option (Except ε α) → List ρ → Prop} (r : Except ε α)
    (l : List ρ) (h : Post (some r) l) : Records notes Post (.fromExcept r) l := by
  cases r with
  | ok a => exact h
  | error x => exact h

/-- One effect. -/
theorem records_call (e : E) {Post : Option (Except ε (R e)) → List ρ → Prop} (l : List ρ)
    (hnow : Post none l) (h : ∀ r l', notes e r l' → Post (some r) (l ++ l')) :
    Records notes Post (.call e) l :=
  ⟨hnow, fun r l' hl' => records_fromExcept r _ (h r l' hl')⟩

end Records

section Logged

variable {E : Type} {R : E → Type} {ε α Q O A σ : Type}

/-- A system whose shared state keeps a log of what its tasks do. `notes` says
    what an effect of a task can record, by how it is answered. -/
structure Logged (S : System E R ε α Q O A σ) (ρ : Type) where
  log : σ → List ρ
  owner : ρ → Nat
  started : Nat → Q → ρ
  answered : Nat → Q → Except ε α → ρ
  notes : Nat → (e : E) → Except ε (R e) → List ρ → Prop
  owner_started : ∀ i q, owner (started i q) = i
  owner_answered : ∀ i q r, owner (answered i q r) = i
  owner_notes : ∀ i e r l, notes i e r l → ∀ x ∈ l, owner x = i
  start_log : ∀ i q s, log (S.onStart i q s) = log s ++ [started i q]
  serve_log : ∀ i e o s r s', S.serve i e o s = some (r, s') →
    ∃ l, notes i e r l ∧ log s' = log s ++ l
  answer_log : ∀ i q r s, log (S.onAnswer i q r s) = log s ++ [answered i q r]
  abort_log : ∀ i s, log (S.onAbort i s) = log s
  env_log : ∀ a s s', S.env a s = some s' → log s' = log s

namespace Logged

variable {ρ : Type} {S : System E R ε α Q O A σ} (L : Logged S ρ)

/-- The records of a task. -/
def of (i : Nat) (l : List ρ) : List ρ := l.filter (fun x => L.owner x == i)

theorem of_append (i : Nat) (l l' : List ρ) : L.of i (l ++ l') = L.of i l ++ L.of i l' :=
  List.filter_append ..

theorem of_own (i : Nat) (l : List ρ) (h : ∀ x ∈ l, L.owner x = i) : L.of i l = l :=
  List.filter_eq_self.mpr (fun x hx => beq_iff_eq.mpr (h x hx))

theorem of_other (i j : Nat) (l : List ρ) (h : ∀ x ∈ l, L.owner x = i) (hj : j ≠ i) :
    L.of j l = [] := by
  refine List.filter_eq_nil_iff.mpr (fun x hx hown => ?_)
  -- The records belong to `i`, and so to nobody else.
  rw [beq_iff_eq, h x hx] at hown
  exact hj hown.symm

theorem mem_of (i : Nat) (l : List ρ) (x : ρ) : x ∈ L.of i l ↔ x ∈ l ∧ L.owner x = i := by
  rw [of, List.mem_filter, beq_iff_eq]

variable (K : Nat → Q → Prog E R ε α → List ρ → Prop)

/-- The records of a task, by where it stands. `K` relates what is left of its
    program to what it has recorded. -/
def Kept (i : Nat) (t : Option (Task E R ε α Q)) (own : List ρ) : Prop :=
  match t with
  | none => own = []
  | some (.running q p) => ∃ l, own = L.started i q :: l ∧ K i q p l
  | some (.answered q r) => ∃ l p, own = L.started i q :: l ++ [L.answered i q r] ∧
      p.outcome = some r ∧ K i q p l
  | some (.aborted q) => ∃ l p, own = L.started i q :: l ∧ K i q p l

/-- A task that moves adds to its own records and to nobody else's. -/
theorem kept_put (c : Config E R ε α Q σ) (s : σ) (i : Nat) (t : Task E R ε α Q) (new : List ρ)
    (hlog : L.log s = L.log c.shared ++ new) (hown : ∀ x ∈ new, L.owner x = i)
    (hc : ∀ j, L.Kept K j (c.task j) (L.of j (L.log c.shared)))
    (ht : L.Kept K i (some t) (L.of i (L.log c.shared) ++ new)) (j : Nat) :
    L.Kept K j ((c.put s i t).task j) (L.of j (L.log s)) := by
  by_cases hj : j = i
  · rw [hj, c.put_task_self, hlog, L.of_append, L.of_own i new hown]
    exact ht
  -- The new records are not about `j`, whose task has not moved either.
  · rw [c.put_task_other _ _ _ _ hj, hlog, L.of_append, L.of_other i j new hown hj,
      List.append_nil]
    exact hc j

/-- What an effect preserves between a program and its records holds of every
    task in every reachable configuration, by induction over the run. -/
theorem follows (hbody : ∀ i q, K i q (S.body q) [])
    (hcall : ∀ i q e k l r new, K i q (.await e k) l → L.notes i e r new →
      K i q (k r) (l ++ new)) (s : σ) (hlog : L.log s = [])
    (c : Config E R ε α Q σ) (hr : Reaches S (Config.init s) c) :
    ∀ i, L.Kept K i (c.task i) (L.of i (L.log c.shared)) := by
  induction hr with
  | refl =>
      intro i
      rw [show (Config.init s : Config E R ε α Q σ).shared = s from rfl, hlog]
      exact List.filter_nil ..
  | step c d lab _ hstep ih =>
      -- An arrival and an answer make one record each.
      have hsingle : ∀ (x : ρ) (i : Nat), L.owner x = i → ∀ y ∈ [x], L.owner y = i := by
        intro x i hx y hy
        rw [List.mem_singleton.mp hy]
        exact hx
      cases step_cases c d lab hstep with
      | start i q hfree =>
          have hi := ih i
          rw [hfree] at hi
          refine L.kept_put K c _ i _ _ (L.start_log i q _)
            (hsingle _ i (L.owner_started i q)) ih ⟨[], ?_, hbody i q⟩
          rw [show L.of i (L.log c.shared) = [] from hi]
          rfl
      | act i o q e k r s htask hserve =>
          have hi := ih i
          rw [htask] at hi
          rcases hi with ⟨l, hl, hk⟩
          -- An effect makes the records it may make, and the program goes on after them.
          rcases L.serve_log i e o _ r s hserve with ⟨new, hnew, hlog⟩
          refine L.kept_put K c s i _ new hlog (L.owner_notes i e r new hnew) ih
            ⟨l ++ new, ?_, hcall i q e k l r new hk hnew⟩
          rw [hl, List.cons_append]
      | answer i q p r htask hout =>
          have hi := ih i
          rw [htask] at hi
          rcases hi with ⟨l, hl, hk⟩
          refine L.kept_put K c _ i _ _ (L.answer_log i q r _)
            (hsingle _ i (L.owner_answered i q r)) ih ⟨l, p, ?_, hout, hk⟩
          rw [hl]
      | abort i q p htask =>
          have hi := ih i
          rw [htask] at hi
          rcases hi with ⟨l, hl, hk⟩
          -- A request that is abandoned leaves no record, and its program stands still.
          refine L.kept_put K c _ i _ [] ?_ (fun x hx => absurd hx List.not_mem_nil) ih
            ⟨l, p, ?_, hk⟩
          · rw [List.append_nil]
            exact L.abort_log i _
          · rw [hl, List.append_nil]
      | env a s henv =>
          intro i
          rw [show ({ c with shared := s } : Config E R ε α Q σ).shared = s from rfl,
            L.env_log a _ _ henv]
          exact ih i

/-- The records of a task in every reachable configuration, from the local
    specifications of the programs. -/
theorem sound (Post : Nat → Q → Option (Except ε α) → List ρ → Prop)
    (hbody : ∀ i q, Records (L.notes i) (Post i q) (S.body q) []) (s : σ)
    (hlog : L.log s = []) (c : Config E R ε α Q σ) (hr : Reaches S (Config.init s) c) :
    ∀ i, L.Kept (fun i q p l => Records (L.notes i) (Post i q) p l) i (c.task i)
      (L.of i (L.log c.shared)) :=
  L.follows _ hbody (fun _ _ _ _ _ r new hk hnew => hk.2 r new hnew) s hlog c hr

end Logged

end Logged

end Async
