import KingPi.Async.Local

/-!
# Programs Under a Monitor

A `finally` block runs however the block before it went, and what it raises
replaces what it interrupted. To show that nothing is left behind one has to
know what there is to clean up at each point, and that depends on how far the
program got before something failed.

A monitor keeps track of that. It is an automaton that reads what a task
records and may refuse a record. `Watched` says that it never has to, whatever
the program is answered, and what its state is in the end. It is a
Hoare logic whose states are those of the monitor, and the two ways out of a
program are two cases of its postcondition, so that the rule for `finally` is
the rule for sequencing, used on both.

The states of the monitor exist in the proof only. `Logged.watched` brings
them into a run: the records of every task in a reachable configuration can
be replayed.

## Main definitions

* `Prog.tryFinally`: A `try` statement with a `finally` block.
* `lastly`: Its outcome.
* `Prog.asyncWith`: An `async with` statement.
* `Replays`: The moves of a monitor.
* `Watched`: A monitor never refuses what a program records.
* `Only`: The kind of calls a program makes.
* `Appends`: The monitor that keeps the records.

## Theorems

* `replays_inv`: What moves preserve, a replay preserves.
* `watched_bind`, `watched_tryCatch`, `watched_tryFinally`: The rules compose.
* `watched_only`: A program whose calls are always allowed.
* `records_tryFinally`: The same rule for the records themselves.
* `Logged.watched`: Replaying the records of a task.
-/

namespace Async

section Programs

variable {E : Type} {R : E → Type} {ε α β ρ M : Type}

/-- A `try` statement with a `finally` block, which runs in either case. If it
    raises, that is what the statement raises. -/
def Prog.tryFinally : Prog E R ε α → Prog E R ε Unit → Prog E R ε α
  | .ret a, f => f.bind fun _ => .ret a
  | .raise x, f => f.bind fun _ => .raise x
  | .await e k, f => .await e (fun r => (k r).tryFinally f)

/-- The outcome of such a statement, from those of its two blocks. -/
def lastly (r : Except ε α) : Except ε Unit → Except ε α
  | .ok _ => r
  | .error y => .error y

/-- An `async with` statement, for a context manager that lets every exception
    pass. It is left only if it has been entered. -/
def Prog.asyncWith (enter : Prog E R ε β) (exit : β → Prog E R ε Unit)
    (body : β → Prog E R ε α) : Prog E R ε α :=
  enter.bind fun b => (body b).tryFinally (exit b)

/-- The moves of a monitor along a list of records. -/
inductive Replays (Move : M → ρ → M → Prop) : M → List ρ → M → Prop where
  | nil (m : M) : Replays Move m [] m
  | cons (m m' m'' : M) (x : ρ) (l : List ρ) : Move m x m' → Replays Move m' l m'' →
      Replays Move m (x :: l) m''

variable {Move : M → ρ → M → Prop}

theorem replays_append (m m' m'' : M) (l l' : List ρ) (h : Replays Move m l m')
    (h' : Replays Move m' l' m'') : Replays Move m (l ++ l') m'' := by
  induction h with
  | nil m => exact h'
  | cons m₁ m₂ m₃ x l hmove _ ih => exact Replays.cons m₁ m₂ m'' x _ hmove (ih h')

theorem replays_singleton (m m' : M) (x : ρ) (h : Move m x m') : Replays Move m [x] m' :=
  Replays.cons m m' m' x [] h (Replays.nil m')

/-- What every move preserves, along with the records read so far, a replay
    preserves. -/
theorem replays_inv (I : List ρ → M → Prop) (hmove : ∀ l m x m', I l m → Move m x m' →
      I (l ++ [x]) m') (m m' : M) (l l' : List ρ) (h : Replays Move m l' m') (hm : I l m) :
    I (l ++ l') m' := by
  induction h generalizing l with
  | nil m =>
      rw [List.append_nil]
      exact hm
  | cons m₁ m₂ m₃ x l' hstep _ ih =>
      -- The invariant is about what was read so far, which the move makes longer.
      have := ih (l ++ [x]) (hmove l m₁ x m₂ hm hstep)
      rwa [List.append_assoc, List.singleton_append] at this

variable (notes : (e : E) → Except ε (R e) → List ρ → Prop) (Move)
variable (Pre : E → M → Prop)

/-- Started in a state of the monitor, the program makes its calls where they
    are allowed, the monitor can follow its records, and it ends as it should. -/
def Watched (Post : Except ε α → M → Prop) : Prog E R ε α → M → Prop
  | .ret a, m => Post (.ok a) m
  | .raise x, m => Post (.error x) m
  | .await e k, m => Pre e m ∧ ∀ r l, notes e r l →
      ∃ m', Replays Move m l m' ∧ Watched Post (k r) m'

variable {notes Move Pre}

theorem watched_mono {Post Post' : Except ε α → M → Prop}
    (hpost : ∀ r m, Post r m → Post' r m) (p : Prog E R ε α) (m : M)
    (h : Watched Move notes Pre Post p m) : Watched Move notes Pre Post' p m := by
  induction p generalizing m with
  | ret a => exact hpost _ m h
  | raise x => exact hpost _ m h
  | await e k ih =>
      -- The monitor moves as it did before, and only the end is looked at otherwise.
      refine ⟨h.1, fun r l hl => ?_⟩
      rcases h.2 r l hl with ⟨m', hm', hk⟩
      exact ⟨m', hm', ih r m' hk⟩

theorem watched_bind {Post : Except ε β → M → Prop} (p : Prog E R ε α)
    (f : α → Prog E R ε β) (m : M) (hp : Watched Move notes Pre (fun r m' => match r with
      | .ok a => Watched Move notes Pre Post (f a) m'
      | .error x => Post (.error x) m') p m) :
    Watched Move notes Pre Post (p.bind f) m := by
  induction p generalizing m with
  | ret a => exact hp
  | raise x => exact hp
  | await e k ih =>
      refine ⟨hp.1, fun r l hl => ?_⟩
      rcases hp.2 r l hl with ⟨m', hm', hk⟩
      exact ⟨m', hm', ih r m' hk⟩

theorem watched_tryCatch {Post : Except ε α → M → Prop} (p : Prog E R ε α)
    (h : ε → Prog E R ε α) (m : M) (hp : Watched Move notes Pre (fun r m' => match r with
      | .ok a => Post (.ok a) m'
      | .error x => Watched Move notes Pre Post (h x) m') p m) :
    Watched Move notes Pre Post (p.tryCatch h) m := by
  induction p generalizing m with
  | ret a => exact hp
  | raise x => exact hp
  | await e k ih =>
      refine ⟨hp.1, fun r l hl => ?_⟩
      rcases hp.2 r l hl with ⟨m', hm', hk⟩
      exact ⟨m', hm', ih r m' hk⟩

/-- The `finally` block starts wherever the block before it has ended. -/
theorem watched_tryFinally {Post : Except ε α → M → Prop} (p : Prog E R ε α)
    (f : Prog E R ε Unit) (m : M) (hp : Watched Move notes Pre (fun r m' =>
      Watched Move notes Pre (fun r' m'' => Post (lastly r r') m'') f m') p m) :
    Watched Move notes Pre Post (p.tryFinally f) m := by
  induction p generalizing m with
  -- The block is over, and the `finally` block runs from where the monitor is now.
  | ret a =>
      refine watched_bind f _ m (watched_mono (fun r m' h => ?_) f m hp)
      cases r with
      | ok u => exact h
      | error y => exact h
  | raise x =>
      refine watched_bind f _ m (watched_mono (fun r m' h => ?_) f m hp)
      cases r with
      | ok u => exact h
      | error y => exact h
  | await e k ih =>
      refine ⟨hp.1, fun r l hl => ?_⟩
      rcases hp.2 r l hl with ⟨m', hm', hk⟩
      exact ⟨m', hm', ih r m' hk⟩

/-- One effect. -/
theorem watched_call (e : E) {Post : Except ε (R e) → M → Prop} (m : M) (hpre : Pre e m)
    (h : ∀ r l, notes e r l → ∃ m', Replays Move m l m' ∧ Post r m') :
    Watched Move notes Pre Post (.call e) m := by
  refine ⟨hpre, fun r l hl => ?_⟩
  rcases h r l hl with ⟨m', hm', hpost⟩
  refine ⟨m', hm', ?_⟩
  cases r with
  | ok a => exact hpost
  | error x => exact hpost

/-- Every call a program may make is of some kind, whatever it is answered. -/
def Only (P : E → Prop) : Prog E R ε α → Prop
  | .ret _ => True
  | .raise _ => True
  | .await e k => P e ∧ ∀ r, Only P (k r)

variable {P : E → Prop}

theorem only_fromExcept (r : Except ε α) : Only P (.fromExcept r : Prog E R ε α) := by
  cases r with
  | ok a => trivial
  | error x => trivial

theorem only_call (e : E) (h : P e) : Only P (.call e : Prog E R ε (R e)) :=
  ⟨h, fun r => only_fromExcept r⟩

/-- The monitor that keeps the records. -/
def Appends (m : List ρ) (x : ρ) (m' : List ρ) : Prop := m' = m ++ [x]

theorem replays_appends (m l : List ρ) : Replays Appends m l (m ++ l) := by
  induction l generalizing m with
  | nil =>
      rw [List.append_nil]
      exact Replays.nil m
  | cons x l ih =>
      have htail := ih (m ++ [x])
      rw [List.append_assoc, List.singleton_append] at htail
      exact Replays.cons m (m ++ [x]) _ x l rfl htail

theorem appends_of_replays (m m' l : List ρ) (h : Replays Appends m l m') : m' = m ++ l := by
  induction h with
  | nil m => exact (List.append_nil m).symm
  | cons m m' m'' x l hmove _ ih =>
      rw [ih, show m' = m ++ [x] from hmove, List.append_assoc, List.singleton_append]

/-- A program whose calls are allowed whatever has been recorded. -/
theorem watched_only {Pre : E → List ρ → Prop} (p : Prog E R ε α) (m : List ρ)
    (h : Only (fun e => ∀ m, Pre e m) p) :
    Watched Appends notes Pre (fun _ _ => True) p m := by
  induction p generalizing m with
  | ret a => trivial
  | raise x => trivial
  -- The monitor that keeps the records can follow any.
  | await e k ih => exact ⟨h.1 m, fun r l _ => ⟨_, replays_appends m l, ih r _ (h.2 r)⟩⟩

/-- Local specifications compose with a `finally` block. -/
theorem records_tryFinally {Post : Option (Except ε α) → List ρ → Prop} (p : Prog E R ε α)
    (f : Prog E R ε Unit) (l : List ρ) (hp : Records notes (fun o l' => match o with
      | none => Post none l'
      | some r => Records notes (fun o' l'' => match o' with
        | none => Post none l''
        | some r' => Post (some (lastly r r')) l'') f l') p l) :
    Records notes Post (p.tryFinally f) l := by
  -- After the `finally` block the outcome of the first block is returned or raised,
  -- unless the `finally` block has raised.
  have hafter : ∀ (r : Except ε α) (q : Prog E R ε α) (l : List ρ),
      (∀ o, o = q.outcome → o = some r) →
      Records notes (fun o' l'' => match o' with
        | none => Post none l''
        | some r' => Post (some (lastly r r')) l'') f l →
      Records notes Post (f.bind fun _ => q) l := by
    intro r q l hq hf
    refine records_bind f _ l (records_mono (fun o l' h => ?_) f l hf)
    cases o with
    | none => exact h
    | some r' =>
        cases r' with
        | ok u =>
            have hout := hq q.outcome rfl
            cases q with
            | ret a =>
                cases hout
                exact h
            | raise x =>
                cases hout
                exact h
            | await e k => cases hout
        | error y => exact h
  induction p generalizing l with
  | ret a => exact hafter (.ok a) (.ret a) l (fun o ho => ho) hp
  | raise x => exact hafter (.error x) (.raise x) l (fun o ho => ho) hp
  | await e k ih => exact ⟨hp.1, fun r l' hl' => ih r _ (hp.2 r l' hl')⟩

end Programs

section Tasks

variable {E : Type} {R : E → Type} {ε α Q O A σ ρ M : Type}
variable {S : System E R ε α Q O A σ} (L : Logged S ρ)

/-- A task's records, replayed by the monitor, and what is left of its program
    from there. -/
def Logged.Replayed (Move : M → ρ → M → Prop) (Pre : Nat → E → M → Prop) (start : Nat → Q → M)
    (Post : Nat → Q → Except ε α → M → Prop) (i : Nat) (q : Q) (p : Prog E R ε α) (l : List ρ) :
    Prop :=
  ∃ m, Replays Move (start i q) l m ∧ Watched Move (L.notes i) (Pre i) (Post i q) p m

/-- If the monitor never refuses what the programs record, then the records of
    every task in a reachable configuration can be replayed. -/
theorem Logged.watched (Move : M → ρ → M → Prop) (Pre : Nat → E → M → Prop) (start : Nat → Q → M)
    (Post : Nat → Q → Except ε α → M → Prop)
    (hbody : ∀ i q, Watched Move (L.notes i) (Pre i) (Post i q) (S.body q) (start i q)) (s : σ)
    (hlog : L.log s = []) (c : Config E R ε α Q σ) (hr : Reaches S (Config.init s) c) :
    ∀ i, L.Kept (L.Replayed Move Pre start Post) i (c.task i) (L.of i (L.log c.shared)) := by
  refine L.follows _ (fun i q => ⟨_, Replays.nil _, hbody i q⟩) ?_ s hlog c hr
  rintro i q e k l r new ⟨m, hm, hk⟩ hnew
  -- One call more: its records are appended to what was replayed.
  rcases hk.2 r new hnew with ⟨m', hm', hk'⟩
  exact ⟨m', replays_append _ m m' l new hm hm', hk'⟩

end Tasks

end Async
