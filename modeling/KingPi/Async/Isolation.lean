import KingPi.Async.Simulation
import KingPi.Async.Monitor

/-!
# One Part of the Requests Without the Other

When does it make no difference to some of the requests that there are others?
When whatever they went through beside the others they could have gone through
alone. A run with the others in it is matched by one without them, in which the
requests of the one part stand where they stood and the shared state looks the
same as far as it concerns them.

What it looks like is not what it is, and so the answers to a call need not be
the same in both runs. They are alike, and a program has to treat alike answers
alike. `Lockstep` is the rule for that: two programs make the same calls for as
long as these are answered alike, and what they end in is related. A program in
step with itself cannot tell alike answers apart.

`Apart` is what has to be shown of one step on either part, and `Apart.isolates`
is the simulation.

## Main definitions

* `Lockstep`: Two programs that cannot be told apart by their calls.
* `Apart`: A system whose requests fall into two parts.
* `Apart.Beside`: A request in a run, and in the run without the other part.

## Theorems

* `lockstep_bind`, `lockstep_tryCatch`: Programs in step compose.
* `lockstep_only`: Programs in step make calls of their kind only.
* `Apart.isolates`: The one part can do without the other.
-/

namespace Async

section Lockstep

variable {E : Type} {R : E → Type} {ε α β : Type}
variable (Alike : (e : E) → Except ε (R e) → Except ε (R e) → Prop) (P : E → Prop)

/-- Two programs make the same calls, all of some kind, for as long as these are
    answered alike, and what they end in is related. -/
def Lockstep (Post : Except ε α → Except ε α → Prop) :
    Prog E R ε α → Prog E R ε α → Prop
  | .ret a, p => ∃ r, p.outcome = some r ∧ Post (.ok a) r
  | .raise x, p => ∃ r, p.outcome = some r ∧ Post (.error x) r
  | .await e k, p => ∃ k', p = .await e k' ∧ P e ∧
      ∀ r r', Alike e r r' → Lockstep Post (k r) (k' r')

variable {Alike P}

theorem lockstep_fromExcept {Post : Except ε α → Except ε α → Prop} (r r' : Except ε α)
    (h : Post r r') : Lockstep Alike P Post (.fromExcept r) (.fromExcept r') := by
  have hout : (Prog.fromExcept r' : Prog E R ε α).outcome = some r' := by
    cases r' with
    | ok b => rfl
    | error y => rfl
  cases r with
  | ok a => exact ⟨r', hout, h⟩
  | error x => exact ⟨r', hout, h⟩

theorem lockstep_call {e : E} {Post : Except ε (R e) → Except ε (R e) → Prop} (he : P e)
    (h : ∀ r r', Alike e r r' → Post r r') : Lockstep Alike P Post (.call e) (.call e) :=
  ⟨Prog.fromExcept, rfl, he, fun r r' hr => lockstep_fromExcept r r' (h r r' hr)⟩

/-- A program that has ended is what it ended in. -/
theorem eq_of_outcome (p : Prog E R ε α) (r : Except ε α) (h : p.outcome = some r) :
    p = .fromExcept r := by
  cases p with
  | ret a =>
      rw [← Option.some.inj h]
      rfl
  | raise x =>
      rw [← Option.some.inj h]
      rfl
  | await e k => exact absurd h (by simp only [Prog.outcome, reduceCtorEq, not_false_eq_true])

theorem lockstep_bind {Post : Except ε β → Except ε β → Prop} (f f' : α → Prog E R ε β)
    (p p' : Prog E R ε α) (h : Lockstep Alike P (fun r r' => Lockstep Alike P Post
      ((Prog.fromExcept r).bind f) ((Prog.fromExcept r').bind f')) p p') :
    Lockstep Alike P Post (p.bind f) (p'.bind f') := by
  induction p generalizing p' with
  | ret a =>
      rcases h with ⟨r, hr, hpost⟩
      rw [eq_of_outcome p' r hr]
      exact hpost
  | raise x =>
      rcases h with ⟨r, hr, hpost⟩
      rw [eq_of_outcome p' r hr]
      exact hpost
  | await e k ih =>
      -- The same call on both sides, and the induction for what follows its answer.
      rcases h with ⟨k', rfl, he, hk⟩
      exact ⟨_, rfl, he, fun r r' hr => ih r _ (hk r r' hr)⟩

theorem lockstep_tryCatch {Post : Except ε α → Except ε α → Prop} (g g' : ε → Prog E R ε α)
    (p p' : Prog E R ε α) (h : Lockstep Alike P (fun r r' => Lockstep Alike P Post
      ((Prog.fromExcept r).tryCatch g) ((Prog.fromExcept r').tryCatch g')) p p') :
    Lockstep Alike P Post (p.tryCatch g) (p'.tryCatch g') := by
  induction p generalizing p' with
  | ret a =>
      rcases h with ⟨r, hr, hpost⟩
      rw [eq_of_outcome p' r hr]
      exact hpost
  | raise x =>
      rcases h with ⟨r, hr, hpost⟩
      rw [eq_of_outcome p' r hr]
      exact hpost
  | await e k ih =>
      rcases h with ⟨k', rfl, he, hk⟩
      exact ⟨_, rfl, he, fun r r' hr => ih r _ (hk r r' hr)⟩

theorem lockstep_mono {Post Post' : Except ε α → Except ε α → Prop}
    (hpost : ∀ r r', Post r r' → Post' r r') (p p' : Prog E R ε α)
    (h : Lockstep Alike P Post p p') : Lockstep Alike P Post' p p' := by
  induction p generalizing p' with
  | ret a =>
      rcases h with ⟨r, hr, h⟩
      exact ⟨r, hr, hpost _ _ h⟩
  | raise x =>
      rcases h with ⟨r, hr, h⟩
      exact ⟨r, hr, hpost _ _ h⟩
  | await e k ih =>
      rcases h with ⟨k', rfl, he, hk⟩
      exact ⟨k', rfl, he, fun r r' hr => ih r _ (hk r r' hr)⟩

/-- After a program that ends in the same way on both sides. -/
theorem lockstep_then {Post : Except ε β → Except ε β → Prop} (p p' : Prog E R ε α)
    (f : α → Prog E R ε β) (hp : Lockstep Alike P (fun r r' => r = r') p p')
    (herror : ∀ x, Post (.error x) (.error x))
    (hf : ∀ a, Lockstep Alike P Post (f a) (f a)) :
    Lockstep Alike P Post (p.bind f) (p'.bind f) := by
  refine lockstep_bind f f p p' (lockstep_mono (fun r r' h => ?_) p p' hp)
  rw [← h]
  cases r with
  | ok a => exact hf a
  | error x => exact ⟨_, rfl, herror x⟩

/-- A handler around a program that ends in the same way on both sides. -/
theorem lockstep_handled (p p' : Prog E R ε α) (g : ε → Prog E R ε α)
    (hp : Lockstep Alike P (fun r r' => r = r') p p')
    (hg : ∀ x, Lockstep Alike P (fun r r' => r = r') (g x) (g x)) :
    Lockstep Alike P (fun r r' => r = r') (p.tryCatch g) (p'.tryCatch g) := by
  refine lockstep_tryCatch g g p p' (lockstep_mono (fun r r' h => ?_) p p' hp)
  rw [← h]
  cases r with
  | ok a => exact ⟨_, rfl, rfl⟩
  | error x => exact hg x

/-- Programs in step make calls of their kind only. -/
theorem lockstep_only (hrefl : ∀ e r, Alike e r r) {Post : Except ε α → Except ε α → Prop}
    (p p' : Prog E R ε α) (h : Lockstep Alike P Post p p') : Only P p := by
  induction p generalizing p' with
  | ret a => trivial
  | raise x => trivial
  | await e k ih =>
      rcases h with ⟨k', _, he, hk⟩
      exact ⟨he, fun r => ih r _ (hk r r (hrefl e r))⟩

/-- Where the one has ended, the other has ended in the same way. -/
theorem lockstep_outcome (p p' : Prog E R ε α) (r : Except ε α) (hout : p.outcome = some r)
    (h : Lockstep Alike P (fun r r' => r = r') p p') : p'.outcome = some r := by
  rw [eq_of_outcome p r hout] at h
  cases r with
  | ok a =>
      rcases h with ⟨r', hr', rfl⟩
      exact hr'
  | error x =>
      rcases h with ⟨r', hr', rfl⟩
      exact hr'

/-- Programs in step are at the same call. -/
theorem lockstep_next {Post : Except ε α → Except ε α → Prop} (p p' : Prog E R ε α)
    (h : Lockstep Alike P Post p p') : p'.next = p.next := by
  have hended : ∀ r : Except ε α, (Prog.fromExcept r : Prog E R ε α).next = none := by
    intro r
    cases r with
    | ok a => rfl
    | error x => rfl
  cases p with
  | ret a =>
      rcases h with ⟨r, hr, _⟩
      rw [eq_of_outcome p' r hr, hended]
      rfl
  | raise x =>
      rcases h with ⟨r, hr, _⟩
      rw [eq_of_outcome p' r hr, hended]
      rfl
  | await e k =>
      rcases h with ⟨k', rfl, _⟩
      rfl

end Lockstep

section Apart

variable {E : Type} {R : E → Type} {ε α Q O A σ : Type}

/-- A system whose requests fall into two parts. `Sees s s'` holds when `s'`, where
    the one part is alone, looks as `s` does where it is not. -/
structure Apart (S : System E R ε α Q O A σ) (mine : Nat → Prop) where
  Part : Q → Prop
  Sees : σ → σ → Prop
  Alike : (e : E) → Except ε (R e) → Except ε (R e) → Prop
  Own : Q → E → Prop
  alike_refl : ∀ e r, Alike e r r
  body : ∀ q, Lockstep Alike (Own q) (fun r r' => r = r') (S.body q) (S.body q)
  start_mine : ∀ i q s s', mine i → Sees s s' → Sees (S.onStart i q s) (S.onStart i q s')
  start_other : ∀ i q s s', ¬ mine i → Sees s s' → Sees (S.onStart i q s) s'
  serve_mine : ∀ i q e o s s' r t, mine i → Part q → Own q e → Sees s s' →
    S.serve i e o s = some (r, t) →
    ∃ o' r' t', S.serve i e o' s' = some (r', t') ∧ Alike e r r' ∧ Sees t t'
  serve_other : ∀ i q e o s s' r t, ¬ mine i → ¬ Part q → Own q e → Sees s s' →
    S.serve i e o s = some (r, t) → Sees t s'
  answer_mine : ∀ i q r s s', mine i → Sees s s' → Sees (S.onAnswer i q r s) (S.onAnswer i q r s')
  answer_other : ∀ i q r s s', ¬ mine i → Sees s s' → Sees (S.onAnswer i q r s) s'
  abort_mine : ∀ i s s', mine i → Sees s s' → Sees (S.onAbort i s) (S.onAbort i s')
  abort_other : ∀ i s s', ¬ mine i → Sees s s' → Sees (S.onAbort i s) s'
  env : ∀ a s s' t, Sees s s' → S.env a s = some t → ∃ t', S.env a s' = some t' ∧ Sees t t'

namespace Apart

variable {S : System E R ε α Q O A σ} {mine : Nat → Prop} (P : Apart S mine)

/-- A request in a run, and in the run without the other part: where it stood, or
    not there. -/
inductive Beside : Option (Task E R ε α Q) → Option (Task E R ε α Q) → Prop where
  | absent : Beside none none
  | running (q : Q) (p p' : Prog E R ε α) : P.Part q →
      Lockstep P.Alike (P.Own q) (fun r r' => r = r') p p' →
      Beside (some (.running q p)) (some (.running q p'))
  | answered (q : Q) (r : Except ε α) : P.Part q →
      Beside (some (.answered q r)) (some (.answered q r))
  | aborted (q : Q) : P.Part q → Beside (some (.aborted q)) (some (.aborted q))
  | outside (q : Q) (p : Prog E R ε α) : ¬ P.Part q → Only (P.Own q) p →
      Beside (some (.running q p)) none
  | ended (t : Task E R ε α Q) : ¬ P.Part t.request → (∀ q p, t ≠ .running q p) →
      Beside (some t) none

/-- A run and one without the other part, request by request. -/
abbrev Sim (c d : Config E R ε α Q σ) : Prop := Related P.Sees (fun _ t t' => P.Beside t t') c d

variable {P}

/-- A request of the one part takes the same step on both sides. -/
theorem sim_matched (c d : Config E R ε α Q σ) (l : Label Q O A) (i : Nat) (s s' : σ)
    (t t' : Task E R ε α Q) (hsim : P.Sim c d) (hd : StepOf S d l (d.put s' i t'))
    (hsees : P.Sees s s') (ht : P.Beside (some t) (some t')) :
    ∃ d', Reaches S d d' ∧ P.Sim (c.put s i t) d' :=
  ⟨_, hd.reaches, related_both c d i s s' t t' hsim hsees ht⟩

/-- A request of the other part takes a step that is not noticed. -/
theorem sim_unnoticed (c d : Config E R ε α Q σ) (i : Nat) (s : σ) (t : Task E R ε α Q)
    (hsim : P.Sim c d) (hsees : P.Sees s d.shared) (hd : d.task i = none)
    (ht : P.Beside (some t) none) : ∃ d', Reaches S d d' ∧ P.Sim (c.put s i t) d' := by
  refine ⟨d, Reaches.refl, related_left c d i s t hsim hsees ?_⟩
  rw [hd]
  exact ht

variable (P)

/-- A step of the one part is matched, a step of the other is not noticed. -/
theorem isolates_step (c c' d : Config E R ε α Q σ) (l : Label Q O A)
    (hok : ∀ i t, c'.task i = some t → (mine i ↔ P.Part t.request)) (hsim : P.Sim c d)
    (h : StepOf S c l c') : ∃ d', Reaches S d d' ∧ P.Sim c' d' := by
  -- Whose part it is can be read off the request that moves.
  have hpart : ∀ (s : σ) (i : Nat) (t : Task E R ε α Q), c' = c.put s i t →
      (mine i ↔ P.Part t.request) := by
    rintro s i t rfl
    exact hok i t (c.put_task_self s i t)
  cases h with
  | start i q hfree =>
      have hmine := hpart _ i _ rfl
      have hi := hsim.task i
      rw [hfree] at hi
      have hd : d.task i = none := by
        generalize d.task i = t at hi
        cases hi
        rfl
      by_cases hq : P.Part q
      · exact sim_matched c d _ i _ _ _ _ hsim (.start i q hd)
          (P.start_mine i q _ _ (hmine.mpr hq) hsim.shared) (.running q _ _ hq (P.body q))
      · exact sim_unnoticed c d i _ _ hsim
          (P.start_other i q _ _ (fun hi => hq (hmine.mp hi)) hsim.shared) hd
          (.outside q _ hq (lockstep_only P.alike_refl _ _ (P.body q)))
  | act i o q e k r s htask hserve =>
      have hmine := hpart _ i _ rfl
      have hi := hsim.task i
      rw [htask] at hi
      generalize hd : d.task i = t at hi
      cases hi with
      -- The answers are alike, so that the two programs stay in step.
      | running _ _ p' hq hlock =>
          rcases hlock with ⟨k', rfl, he, hk⟩
          rcases P.serve_mine i q e o _ _ r s (hmine.mpr hq) hq he hsim.shared hserve with
            ⟨o', r', s', hserve', halike, hsees⟩
          exact sim_matched c d _ i _ _ _ _ hsim (.act i o' q e k' r' s' hd hserve') hsees
            (.running q _ _ hq (hk r r' halike))
      | outside _ _ hq hown =>
          exact sim_unnoticed c d i _ _ hsim (P.serve_other i q e o _ _ r s
            (fun hi => hq (hmine.mp hi)) hq hown.1 hsim.shared hserve) hd
            (.outside q _ hq (hown.2 r))
      | ended _ _ hnot => exact absurd rfl (hnot q _)
  | answer i q p r htask hout =>
      have hmine := hpart _ i _ rfl
      have hi := hsim.task i
      rw [htask] at hi
      generalize hd : d.task i = t at hi
      cases hi with
      | running _ _ p' hq hlock =>
          exact sim_matched c d _ i _ _ _ _ hsim
            (.answer i q p' r hd (lockstep_outcome p p' r hout hlock))
            (P.answer_mine i q r _ _ (hmine.mpr hq) hsim.shared) (.answered q r hq)
      | outside _ _ hq _ =>
          exact sim_unnoticed c d i _ _ hsim
            (P.answer_other i q r _ _ (fun hi => hq (hmine.mp hi)) hsim.shared) hd
            (.ended _ hq (fun _ _ h => nomatch h))
      | ended _ _ hnot => exact absurd rfl (hnot q p)
  | abort i q p htask =>
      have hmine := hpart _ i _ rfl
      have hi := hsim.task i
      rw [htask] at hi
      generalize hd : d.task i = t at hi
      cases hi with
      | running _ _ p' hq _ =>
          exact sim_matched c d _ i _ _ _ _ hsim (.abort i q p' hd)
            (P.abort_mine i _ _ (hmine.mpr hq) hsim.shared) (.aborted q hq)
      | outside _ _ hq _ =>
          exact sim_unnoticed c d i _ _ hsim
            (P.abort_other i _ _ (fun hi => hq (hmine.mp hi)) hsim.shared) hd
            (.ended _ hq (fun _ _ h => nomatch h))
      | ended _ _ hnot => exact absurd rfl (hnot q p)
  | env a s henv =>
      rcases P.env a _ _ s hsim.shared henv with ⟨s', henv', hsees⟩
      exact ⟨_, (StepOf.env a s' henv').reaches, hsees, hsim.task⟩

/-- The one part can do without the other: whatever it went through, it could have
    gone through alone. -/
theorem isolates (s s' : σ) (hstart : P.Sees s s') (c : Config E R ε α Q σ)
    (hc : Reaches S (Config.init s) c)
    (hok : ∀ i t, c.task i = some t → (mine i ↔ P.Part t.request)) :
    ∃ d, Reaches S (Config.init s') d ∧ P.Sees c.shared d.shared ∧
      ∀ i, P.Beside (c.task i) (d.task i) := by
  -- A request that has arrived stays what it is, so that its part is known from the end.
  have hback : ∀ c c' l, StepOf S c l c' →
      (∀ i t, c'.task i = some t → (mine i ↔ P.Part t.request)) →
      ∀ i t, c.task i = some t → (mine i ↔ P.Part t.request) := by
    intro c c' l hl hok' i t ht
    rcases hl.request i t ht with ⟨t', ht', hreq⟩
    rw [← hreq]
    exact hok' i t' ht'
  rcases simulates (T := S) _ P.Sim hback (Config.init s) (Config.init s')
    ⟨hstart, fun _ => .absent⟩
    (fun c c' l d _ _ hok' hsim hl => P.isolates_step c c' d l hok' hsim hl) c hc hok with
    ⟨d, hd, hsim⟩
  exact ⟨d, hd, hsim.shared, hsim.task⟩

end Apart

end Apart

end Async
