import KingPi.Theory.Lifecycle
import KingPi.Async.Linear

/-!
# The Event Store Is Atomic

What the clients of the event store may think of it: there is one list of
events. To post an event is to put it at the end of the list, or to fail and
leave the list alone; an answer of 500 does not tell which. The total of a pair
is the number of its events in the list, and its last timestamp is the latest
of theirs.

Any number of posts and reads can be under way at once, on any number of
workers. The history of calls and answers is linearizable all the same: it is
one that a single client could have had with the list, calling one after the
other, in an order that respects which answer came before which call. The
moment at which a post takes effect is its commit, and for a read it is the
`SELECT`. A request that got no further takes effect when it is answered.

A summary is not among the calls, since it reads at more than one moment.

## Main definitions

* `EventLog.Step`: The list of events as a sequential object.
* `Obs.event`: The history the clients see.
* `pointOf`: The moments at which the calls take effect.

## Theorems

* `inOrder_of`: Two records of one request are in the order of their stages.
* `point_effect`: At its moment a call does to the list what it answers.
* `storePoints`: The calls take effect at these moments.
* `store_linearizable`: The history of the store is linearizable.
-/

namespace KingPi

open Async

/-- The requests that read the store once. -/
def Request.isRead : Request → Bool
  | .getEventTotal _ _ => true
  | .getEventLast _ _ => true
  | _ => false

/-- The calls of the event store. -/
def Request.isStoreCall : Request → Bool
  | .postEvent _ => true
  | q => q.isRead

@[simp] theorem isRead_postEvent (e : EventIn) : (Request.postEvent e).isRead = false := rfl

/-- A call that is no read posts an event. -/
theorem storeCall_cases (q : Request) (hcall : q.isStoreCall = true) (hread : q.isRead = false) :
    ∃ e, q = .postEvent e := by
  cases q with
  | postEvent e => exact ⟨e, rfl⟩
  | _ => exact absurd (hread.symm.trans hcall) (by decide)

/-- The events of a pair in the list. -/
def EventLog.of (s : List Upsert) (package eventType : Str) : List DateTime :=
  s.filterMap (fun stmt =>
    if stmt.package = package ∧ stmt.eventType = eventType then some stmt.timestamp else none)

/-- The list of events as a sequential object. -/
inductive EventLog.Step (dep : Deployment) (s : List Upsert) :
    Request → Except Exc Answer → List Upsert → Prop where
  | accepted (e : EventIn) : EventLog.Step dep s (.postEvent e) acceptedAnswer (s ++ [e.stmt])
  | unconfirmed (e : EventIn) :
      EventLog.Step dep s (.postEvent e) (.ok (.http internalServerError)) (s ++ [e.stmt])
  | refused (e : EventIn) (resp : Response) : resp.statusCode ∈ [400, 404, 500, 502, 504] →
      EventLog.Step dep s (.postEvent e) (.ok (.http resp)) s
  | total (name : Str) (t : EventType) : EventLog.Step dep s (.getEventTotal name t)
      (.ok (.http { statusCode := 200, body := .total (EventLog.of s name t.value).length })) s
  | last (name : Str) (t : EventType) : EventLog.Step dep s (.getEventLast name t)
      (.ok (.http { statusCode := 200,
                    body := .last (statsOf dep (EventLog.of s name t.value)).last })) s
  | unavailable (q : Request) : q.isRead = true →
      EventLog.Step dep s q (.ok (.http internalServerError)) s

/-- What the clients see of a record. -/
def Obs.event : Obs → Option (Event Request (Except Exc Answer))
  | .started i q => if q.isStoreCall then some (.inv i q) else none
  | .answered i q r => if q.isStoreCall then some (.res i r) else none
  | _ => none

/-- The request a record says has arrived under a number. -/
def Obs.arrival (i : Nat) : Obs → Option Request
  | .started j q => if j = i then some q else none
  | _ => none

/-- The answer a record says a number was given. -/
def Obs.reply (i : Nat) : Obs → Option (Except Exc Answer)
  | .answered j _ r => if j = i then some r else none
  | _ => none

/-- A record of the kind at which a request takes effect if it gets that far. -/
def Obs.isEffect (i : Nat) (q : Request) : Obs → Bool
  | .committed j _ => j == i && !q.isRead
  | .selected j _ => j == i && q.isRead
  | _ => false

/-- The moments at which the calls take effect, seen from the whole trace: a
    commit, the `SELECT` of a read that was answered, or the answer of a request
    that got to neither. -/
def pointOf (tr : List Obs) : Obs → Option (Nat × Request × Except Exc Answer)
  | .committed i _ => match tr.findSome? (Obs.arrival i) with
    | some (.postEvent e) =>
      some (i, .postEvent e, (tr.findSome? (Obs.reply i)).getD acceptedAnswer)
    | _ => none
  | .selected i _ => match tr.findSome? (Obs.arrival i), tr.findSome? (Obs.reply i) with
    | some q, some r => if q.isRead then some (i, q, r) else none
    | _, _ => none
  | .answered i q r =>
    if q.isStoreCall && !tr.any (Obs.isEffect i q) then some (i, q, r) else none
  | _ => none

section Own

variable (dep : Deployment) (c : ServerState)

theorem recordsOf_append (i : Nat) (l l' : List Obs) :
    recordsOf i (l ++ l') = recordsOf i l ++ recordsOf i l' :=
  List.filter_append ..

theorem recordsOf_cons (i : Nat) (x : Obs) (l : List Obs) (h : x.owner = i) :
    recordsOf i (x :: l) = x :: recordsOf i l :=
  List.filter_cons_of_pos (beq_iff_eq.mpr h)

theorem mem_recordsOf (i : Nat) (x : Obs) (tr : List Obs) :
    x ∈ recordsOf i tr ↔ x ∈ tr ∧ x.owner = i := by
  rw [recordsOf, List.mem_filter, beq_iff_eq]

/-- Two records of one request are in the order of their stages. -/
theorem inOrder_of (hc : Reachable dep c) (A B C : List Obs) (x y : Obs)
    (htr : c.shared.trace = A ++ x :: (B ++ y :: C)) (howner : x.owner = y.owner) :
    InOrder x y := by
  have hdue := due_of dep y.owner c hc
  -- The records of the request, with the two among them.
  rw [htr, recordsOf_append, recordsOf_cons _ x _ howner, recordsOf_append,
    recordsOf_cons _ y _ rfl, ← List.cons_append, ← List.append_assoc] at hdue
  exact (hdue _ y _ rfl).1 x (List.mem_append_right _ List.mem_cons_self)

/-- Of two records of one request one is made first. -/
theorem inOrder_or (hc : Reachable dep c) (x y : Obs) (hx : x ∈ c.shared.trace)
    (hy : y ∈ c.shared.trace) (howner : x.owner = y.owner) (hne : x ≠ y) :
    InOrder x y ∨ InOrder y x := by
  rcases List.mem_iff_append.mp hx with ⟨A, B, htr⟩
  rw [htr] at hy
  -- The other record is before this one or after it.
  rcases List.mem_append.mp hy with hy | hy
  · rcases List.mem_iff_append.mp hy with ⟨A₁, A₂, rfl⟩
    refine Or.inr (inOrder_of dep c hc A₁ A₂ B y x ?_ howner.symm)
    rw [htr, List.append_assoc, List.cons_append]
  · rcases List.mem_cons.mp hy with rfl | hy
    · exact absurd rfl hne
    · rcases List.mem_iff_append.mp hy with ⟨B₁, B₂, rfl⟩
      exact Or.inl (inOrder_of dep c hc A B₁ B₂ x y htr howner)

/-- A request makes one record of each kind, other than `SELECT`s. -/
theorem stage_unique (hc : Reachable dep c) (x y : Obs) (hx : x ∈ c.shared.trace)
    (hy : y ∈ c.shared.trace) (howner : x.owner = y.owner) (hstage : x.stage = y.stage)
    (hsel : x.stage ≠ 6) : x = y := by
  by_contra hne
  rcases inOrder_or dep c hc x y hx hy howner hne with (hlt | ⟨h6, _⟩) | (hlt | ⟨_, h6⟩)
  · omega
  · exact hsel h6
  · omega
  · exact hsel h6

/-- What is known of the records of a request after its arrival: an answer is to
    the request that arrived, and a read makes one `SELECT`. -/
structure Behaved (i : Nat) (q : Request) (l : List Obs) : Prop where
  answers : ∀ q' r, Obs.answered i q' r ∈ l → q' = q
  reads : q.isRead = true → l.countP (fun x => x.stage == 6) ≤ 1

theorem behaved_steps (i : Nat) (q : Request) (o : Option (Except Exc Answer)) (l : List Obs)
    (h : Steps dep i q o l) : Behaved i q l where
  answers := by
    intro q' r hmem
    have hstage := (dueTo_steps dep i q o l h).stage _ (List.mem_cons_of_mem _ hmem)
    -- No step of a request is of the stage of its answer.
    exact absurd hstage (by simp only [Obs.stage, Nat.reduceLeDiff, not_false_eq_true])
  reads := by
    intro hread
    have hselected : ∀ query, Selected i [query] l → l.countP (fun x => x.stage == 6) ≤ 1 := by
      rintro query ⟨done, hdone, rfl⟩
      refine List.countP_le_length.trans ?_
      rw [List.length_map]
      exact hdone.length_le
    cases q with
    | getEventTotal name t => exact hselected _ h
    | getEventLast name t => exact hselected _ h
    | fetch p => exact absurd hread (by simp only [Request.isRead, Bool.false_eq_true,
        not_false_eq_true])
    | postEvent e => exact absurd hread (by simp only [Request.isRead, Bool.false_eq_true,
        not_false_eq_true])
    | getPackage name => exact absurd hread (by simp only [Request.isRead, Bool.false_eq_true,
        not_false_eq_true])

theorem behaved_answered (i : Nat) (q : Request) (r : Except Exc Answer) (l : List Obs)
    (h : Behaved i q l) : Behaved i q (l ++ [.answered i q r]) where
  answers := by
    intro q' r' hmem
    rcases List.mem_append.mp hmem with hmem | hmem
    · exact h.answers q' r' hmem
    · exact (Obs.answered.inj (List.mem_singleton.mp hmem)).2.1
  reads := by
    intro hread
    rw [List.countP_append, List.countP_singleton]
    exact h.reads hread

/-- The first record of a request is its arrival. -/
theorem own_cases (hc : Reachable dep c) (i : Nat) : recordsOf i c.shared.trace = [] ∨
    ∃ q l, recordsOf i c.shared.trace = .started i q :: l ∧ Behaved i q l := by
  have hlife := life_of dep c hc i
  cases htask : c.task i with
  | none =>
      rw [htask] at hlife
      exact Or.inl hlife
  | some t =>
      rw [htask] at hlife
      cases t with
      | running q p =>
          rcases hlife with ⟨l, hl, hsteps⟩
          exact Or.inr ⟨q, l, hl, behaved_steps dep i q _ l hsteps⟩
      | answered q r =>
          rcases hlife with ⟨l, hl, hsteps⟩
          exact Or.inr ⟨q, _, hl, behaved_answered i q r l (behaved_steps dep i q _ l hsteps)⟩
      | aborted q =>
          rcases hlife with ⟨l, o, hl, hsteps⟩
          exact Or.inr ⟨q, l, hl, behaved_steps dep i q o l hsteps⟩

/-- A request has arrived before it makes any other record. -/
theorem arrival_before (hc : Reachable dep c) (A B : List Obs) (x : Obs)
    (htr : c.shared.trace = A ++ x :: B) (hx : x.stage ≠ 0) :
    ∃ q, Obs.started x.owner q ∈ A := by
  have hsplit : recordsOf x.owner c.shared.trace
      = recordsOf x.owner A ++ x :: recordsOf x.owner B := by
    rw [htr, recordsOf_append, recordsOf_cons _ x _ rfl]
  rcases own_cases dep c hc x.owner with hnil | ⟨q, l, hl, _⟩
  · rw [hnil] at hsplit
    exact absurd hsplit.symm (by simp only [List.append_eq_nil_iff, reduceCtorEq, and_false,
      not_false_eq_true])
  · rw [hl] at hsplit
    cases hA : recordsOf x.owner A with
    | nil =>
        rw [hA, List.nil_append, List.cons.injEq] at hsplit
        rw [← hsplit.1] at hx
        exact absurd rfl hx
    | cons y A' =>
        rw [hA, List.cons_append, List.cons.injEq] at hsplit
        have hmem : y ∈ recordsOf x.owner A := by
          rw [hA]
          exact List.mem_cons_self
        rw [← hsplit.1] at hmem
        exact ⟨q, ((mem_recordsOf _ _ _).mp hmem).1⟩

/-- An answer is to the request that arrived under the number. -/
theorem arrival_of_answer (hc : Reachable dep c) (i : Nat) (q : Request) (r : Except Exc Answer)
    (h : Obs.answered i q r ∈ c.shared.trace) : Obs.started i q ∈ c.shared.trace := by
  have hmem := (mem_recordsOf i _ _).mpr ⟨h, rfl⟩
  rcases own_cases dep c hc i with hnil | ⟨q₀, l, hl, hbehaved⟩
  · rw [hnil] at hmem
    exact absurd hmem List.not_mem_nil
  · rw [hl] at hmem
    rcases List.mem_cons.mp hmem with heq | hmem
    · exact absurd heq (by simp only [reduceCtorEq, not_false_eq_true])
    · rw [hbehaved.answers q r hmem]
      refine ((mem_recordsOf i _ _).mp ?_).1
      rw [hl]
      exact List.mem_cons_self

/-- A read makes one `SELECT`. -/
theorem select_once (hc : Reachable dep c) (i : Nat) (q : Request) (hread : q.isRead = true)
    (hq : Obs.started i q ∈ c.shared.trace) (A B C : List Obs) (query query' : Query)
    (htr : c.shared.trace = A ++ .selected i query :: (B ++ .selected i query' :: C)) : False := by
  have hmem := (mem_recordsOf i _ _).mpr ⟨hq, rfl⟩
  rcases own_cases dep c hc i with hnil | ⟨q₀, l, hl, hbehaved⟩
  · rw [hnil] at hmem
    exact absurd hmem List.not_mem_nil
  · have hq₀ : q₀ = q := by
      have hmem₀ : Obs.started i q₀ ∈ c.shared.trace := by
        refine ((mem_recordsOf i _ _).mp ?_).1
        rw [hl]
        exact List.mem_cons_self
      exact (Obs.started.inj (stage_unique dep c hc _ _ hmem₀ hq rfl rfl
        (show (0 : Nat) ≠ 6 by decide))).2
    -- With two of them in the trace the request would have two among its records.
    have hcount : (recordsOf i c.shared.trace).countP (fun x => x.stage == 6) ≤ 1 := by
      rw [hl, List.countP_cons, if_neg (show ¬ ((Obs.started i q₀).stage == 6) = true from
        Bool.false_ne_true)]
      exact hbehaved.reads (by rw [hq₀, hread])
    rw [htr, recordsOf_append, recordsOf_cons i _ _ rfl, recordsOf_append,
      recordsOf_cons i _ _ rfl, List.countP_append, List.countP_cons, List.countP_append,
      List.countP_cons] at hcount
    simp only [Obs.stage, beq_self_eq_true, if_true] at hcount
    omega

/-- Looking for what only one value can be found for. -/
theorem findSome?_of_unique {α β : Type} (f : α → Option β) (l : List α) (a : α) (b : β)
    (ha : a ∈ l) (hfa : f a = some b) (hunique : ∀ x ∈ l, ∀ b', f x = some b' → b' = b) :
    l.findSome? f = some b := by
  cases h : l.findSome? f with
  | none =>
      rw [List.findSome?_eq_none_iff.mp h a ha] at hfa
      exact absurd hfa (by simp only [reduceCtorEq, not_false_eq_true])
  | some b' =>
      rcases List.exists_of_findSome?_eq_some h with ⟨x, hx, hfx⟩
      rw [hunique x hx b' hfx]

theorem arrival_eq (i : Nat) (x : Obs) (q : Request) (h : x.arrival i = some q) :
    x = .started i q := by
  cases x with
  | started j q' =>
      rcases Option.ite_none_right_eq_some.mp h with ⟨rfl, heq⟩
      rw [Option.some.inj heq]
  | _ => exact absurd h (by simp only [Obs.arrival, reduceCtorEq, not_false_eq_true])

theorem reply_eq (i : Nat) (x : Obs) (r : Except Exc Answer) (h : x.reply i = some r) :
    ∃ q, x = .answered i q r := by
  cases x with
  | answered j q r' =>
      rcases Option.ite_none_right_eq_some.mp h with ⟨rfl, heq⟩
      rw [Option.some.inj heq]
      exact ⟨q, rfl⟩
  | _ => exact absurd h (by simp only [Obs.reply, reduceCtorEq, not_false_eq_true])

/-- The request that has arrived under a number can be found. -/
theorem arrival_found (hc : Reachable dep c) (i : Nat) (q : Request)
    (h : Obs.started i q ∈ c.shared.trace) :
    c.shared.trace.findSome? (Obs.arrival i) = some q := by
  refine findSome?_of_unique _ _ _ q h (if_pos rfl) (fun x hx q' hq' => ?_)
  rw [arrival_eq i x q' hq'] at hx
  exact (Obs.started.inj (stage_unique dep c hc _ _ hx h rfl rfl
    (show (0 : Nat) ≠ 6 by decide))).2

/-- So can the answer it was given. -/
theorem reply_found (hc : Reachable dep c) (i : Nat) (q : Request) (r : Except Exc Answer)
    (h : Obs.answered i q r ∈ c.shared.trace) :
    c.shared.trace.findSome? (Obs.reply i) = some r := by
  refine findSome?_of_unique _ _ _ r h (if_pos rfl) (fun x hx r' hr' => ?_)
  rcases reply_eq i x r' hr' with ⟨q', rfl⟩
  exact (Obs.answered.inj (stage_unique dep c hc _ _ hx h rfl rfl
    (show (7 : Nat) ≠ 6 by decide))).2.2

end Own

section Moments

variable (dep : Deployment) (c : ServerState)

/-- The kinds of moments. -/
inductive PointAt (tr : List Obs) (i : Nat) : Request → Except Exc Answer → Obs → Prop where
  | commit (e : EventIn) (stmt : Upsert) (r : Except Exc Answer) :
      tr.findSome? (Obs.arrival i) = some (.postEvent e) →
      r = (tr.findSome? (Obs.reply i)).getD acceptedAnswer →
      PointAt tr i (.postEvent e) r (.committed i stmt)
  | select (q : Request) (query : Query) (r : Except Exc Answer) : q.isRead = true →
      tr.findSome? (Obs.arrival i) = some q → tr.findSome? (Obs.reply i) = some r →
      PointAt tr i q r (.selected i query)
  | answer (q : Request) (r : Except Exc Answer) : q.isStoreCall = true →
      tr.any (Obs.isEffect i q) = false → PointAt tr i q r (.answered i q r)

theorem pointOf_cases (tr : List Obs) (x : Obs) (i : Nat) (q : Request) (r : Except Exc Answer)
    (h : pointOf tr x = some (i, q, r)) : PointAt tr i q r x := by
  cases x with
  | committed j stmt =>
      simp only [pointOf] at h
      split at h
      · next e he =>
          cases h
          exact .commit e stmt _ he rfl
      · exact absurd h (by simp only [reduceCtorEq, not_false_eq_true])
  | selected j query =>
      simp only [pointOf] at h
      split at h
      · next q' r' hq' hr' =>
          rcases Option.ite_none_right_eq_some.mp h with ⟨hread, heq⟩
          cases heq
          exact .select q query r hread hq' hr'
      · exact absurd h (by simp only [reduceCtorEq, not_false_eq_true])
  | answered j q' r' =>
      simp only [pointOf] at h
      rcases Option.ite_none_right_eq_some.mp h with ⟨hcond, heq⟩
      cases heq
      rw [Bool.and_eq_true, Bool.not_eq_true'] at hcond
      exact .answer q r hcond.1 hcond.2
  | _ => exact absurd h (by simp only [pointOf, reduceCtorEq, not_false_eq_true])

/-- A request makes its other records before its answer. -/
theorem before_answer (hc : Reachable dep c) (A B : List Obs) (i : Nat) (q : Request)
    (r : Except Exc Answer) (x : Obs) (htr : c.shared.trace = A ++ .answered i q r :: B)
    (hx : x ∈ c.shared.trace) (howner : x.owner = i) (hstage : x.stage < 7) : x ∈ A := by
  rw [htr] at hx
  rcases List.mem_append.mp hx with hx | hx
  · exact hx
  · rcases List.mem_cons.mp hx with rfl | hx
    · exact absurd hstage (Nat.lt_irrefl 7)
    · rcases List.mem_iff_append.mp hx with ⟨B₁, B₂, rfl⟩
      rcases inOrder_of dep c hc A B₁ B₂ _ x htr howner.symm with hlt | ⟨h6, _⟩
      · exact absurd (hlt.trans hstage) (Nat.lt_irrefl 7)
      · exact absurd h6 (show (7 : Nat) ≠ 6 by decide)

/-- The answer a number was given, and what it says. -/
theorem answered_of_reply (hc : Reachable dep c) (i : Nat) (q : Request) (r : Except Exc Answer)
    (hq : c.shared.trace.findSome? (Obs.arrival i) = some q)
    (hr : c.shared.trace.findSome? (Obs.reply i) = some r) :
    ∃ A B, c.shared.trace = A ++ .answered i q r :: B ∧ Answers dep i A q r := by
  rcases List.exists_of_findSome?_eq_some hr with ⟨x, hx, hxr⟩
  rcases reply_eq i x r hxr with ⟨q', rfl⟩
  have hq' := arrival_found dep c hc i q' (arrival_of_answer dep c hc i q' r hx)
  rw [hq, Option.some.injEq] at hq'
  subst hq'
  rcases List.mem_iff_append.mp hx with ⟨A, B, htr⟩
  exact ⟨A, B, htr, (reachable_inv dep c hc).history A _ B htr⟩

/-- The only `SELECT` of a read is where it saw the table. -/
theorem select_at (hc : Reachable dep c) (i : Nat) (q : Request) (hread : q.isRead = true)
    (hq : Obs.started i q ∈ c.shared.trace) (A B A' B' : List Obs) (query query' : Query)
    (htr : c.shared.trace = A ++ .selected i query :: B)
    (htr' : c.shared.trace = A' ++ .selected i query' :: B') : A' = A := by
  have hshorter : ∀ (A B A' B' : List Obs) (query query' : Query),
      c.shared.trace = A ++ .selected i query :: B →
      c.shared.trace = A' ++ .selected i query' :: B' → ¬ A.length < A'.length := by
    intro A B A' B' query query' h h' hlt
    rcases split_earlier c.shared.trace A B A' B' _ _ h h' hlt with ⟨D, rfl⟩
    refine select_once dep c hc i q hread hq A D B' query query' ?_
    rw [h', List.append_assoc, List.cons_append]
  -- Neither comes before the other, so they are the same.
  have hlen : A'.length = A.length := Nat.le_antisymm
    (Nat.le_of_not_lt (hshorter A B A' B' query query' htr htr'))
    (Nat.le_of_not_lt (hshorter A' B' A B query' query htr' htr))
  rw [htr] at htr'
  exact ((List.append_inj htr' hlen.symm).1).symm

theorem commits_other (A : List Obs) (x : Obs) (h : x.commit = none) :
    commits (A ++ [x]) = commits A := by
  rw [commits_append, commits, commits, List.filterMap_cons_none h, List.filterMap_nil,
    List.append_nil]

/-- What a read reports is what the list says. -/
theorem step_read (q : Request) (r : Except Exc Answer) (i : Nat) (A tr : List Obs)
    (hread : q.isRead = true) (h : Answers dep i tr q r)
    (hsel : ∀ query tr₀, ReadAt i q query tr₀ tr → tr₀ = A) :
    EventLog.Step dep (commits A) q r (commits A) := by
  cases q with
  | getEventTotal name t =>
      rcases h with rfl | ⟨tr₀, hat, rfl⟩
      · exact .unavailable _ hread
      · rw [hsel _ _ hat, eventsFor_eq]
        exact .total name t
  | getEventLast name t =>
      rcases h with rfl | ⟨tr₀, hat, rfl⟩
      · exact .unavailable _ hread
      · rw [hsel _ _ hat, eventsFor_eq]
        exact .last name t
  | fetch p => exact absurd hread (by simp only [Request.isRead, Bool.false_eq_true,
      not_false_eq_true])
  | postEvent e => exact absurd hread (by simp only [Request.isRead, Bool.false_eq_true,
      not_false_eq_true])
  | getPackage name => exact absurd hread (by simp only [Request.isRead, Bool.false_eq_true,
      not_false_eq_true])

/-- The status of a refused event. -/
theorem refused_status (e : EventIn) (exc : Exc) (h : exc.isFetchError = true) :
    (postError e exc).statusCode ∈ [400, 404, 500, 502, 504] := by
  rw [postError, errorResponse_status _ exc h]
  cases exc with
  | valueError _ | jsonDecodeError | packageNotFoundError _ | pypiUpstreamError _ _
  | timeoutException | transportError => simp only [fetchStatus]; decide
  | _ => exact absurd h (by simp only [Exc.isFetchError, Exc.isHttpFault, Bool.false_eq_true,
      not_false_eq_true])

/-- The moment of a request to post an event that was committed. It appends its
    event, and was answered 201, or 500, or not at all. -/
theorem committed_effect (hc : Reachable dep c) (A B : List Obs) (i : Nat) (e : EventIn)
    (stmt : Upsert) (htr : c.shared.trace = A ++ .committed i stmt :: B)
    (harrival : c.shared.trace.findSome? (Obs.arrival i) = some (.postEvent e)) :
    EventLog.Step dep (commits A) (.postEvent e)
      ((c.shared.trace.findSome? (Obs.reply i)).getD acceptedAnswer)
      (commits (A ++ [.committed i stmt])) := by
  rcases (reachable_inv dep c hc).history A _ B htr with ⟨e', hstarted, rfl, _⟩
  have he' := arrival_found dep c hc i (.postEvent e') (by
    rw [htr]
    exact List.mem_append_left _ hstarted)
  rw [harrival, Option.some.injEq, Request.postEvent.injEq] at he'
  subst he'
  rw [commits_append]
  cases hreply : c.shared.trace.findSome? (Obs.reply i) with
  | none => exact .accepted e
  | some r =>
      rw [Option.getD_some]
      rcases answered_of_reply dep c hc i _ r harrival hreply with
        ⟨A', B', htr', resp, fr, rfl, _, hpost⟩
      -- The commit was before the answer, so the answer knows of it.
      have hmem : Obs.committed i e.stmt ∈ A' := by
        refine before_answer dep c hc A' B' i _ _ _ htr' ?_ rfl (show 5 < 7 by decide)
        rw [htr]
        exact List.mem_append_right _ List.mem_cons_self
      cases fr with
      | error exc =>
          have := (mem_commitsOf i A' e.stmt).mpr hmem
          rw [hpost.2] at this
          exact absurd this List.not_mem_nil
      | ok data =>
          rcases hpost with ⟨rfl, _⟩ | rfl
          · exact .accepted e
          · exact .unconfirmed e

/-- The moment of a read is its `SELECT`, which sees all that was committed
    before it. -/
theorem selected_effect (hc : Reachable dep c) (A B : List Obs) (i : Nat) (q : Request)
    (query : Query) (r : Except Exc Answer) (hread : q.isRead = true)
    (htr : c.shared.trace = A ++ .selected i query :: B)
    (harrival : c.shared.trace.findSome? (Obs.arrival i) = some q)
    (hreply : c.shared.trace.findSome? (Obs.reply i) = some r) :
    EventLog.Step dep (commits A) q r (commits A) := by
  rcases answered_of_reply dep c hc i q r harrival hreply with ⟨A', B', htr', hans⟩
  have hstarted : Obs.started i q ∈ c.shared.trace := by
    refine arrival_of_answer dep c hc i q r ?_
    rw [htr']
    exact List.mem_append_right _ List.mem_cons_self
  refine step_read dep q r i A A' hread hans ?_
  rintro query' tr₀ ⟨_, D, hD⟩
  refine select_at dep c hc i q hread hstarted A B tr₀ (D ++ .answered i q r :: B') query query'
    htr ?_
  rw [htr', ← hD]
  simp only [List.append_assoc, List.cons_append, List.nil_append]

/-- The moment of a call that did nothing to the table is its answer, which says
    so. -/
theorem answered_effect (hc : Reachable dep c) (A B : List Obs) (i : Nat) (q : Request)
    (r : Except Exc Answer) (hcall : q.isStoreCall = true)
    (htr : c.shared.trace = A ++ .answered i q r :: B)
    (hnone : c.shared.trace.any (Obs.isEffect i q) = false) :
    EventLog.Step dep (commits A) q r (commits A) := by
  have hans := (reachable_inv dep c hc).history A _ B htr
  have hnoeffect : ∀ y ∈ A, y.isEffect i q = false := by
    intro y hy
    have := List.any_eq_false.mp hnone y (by
      rw [htr]
      exact List.mem_append_left _ hy)
    rwa [Bool.not_eq_true] at this
  cases hread : q.isRead with
  | true =>
      refine step_read dep q r i A A hread hans ?_
      rintro query tr₀ ⟨_, hpre⟩
      -- A read that saw the table has made its `SELECT`.
      have hmem : Obs.selected i query ∈ A :=
        hpre.subset (List.mem_append_right _ (List.mem_singleton.mpr rfl))
      have := hnoeffect _ hmem
      rw [Obs.isEffect, hread, Bool.and_true, beq_self_eq_true] at this
      exact absurd this (by decide)
  | false =>
      rcases storeCall_cases q hcall hread with ⟨e, rfl⟩
      rcases hans with ⟨resp, fr, rfl, hfr, hpost⟩
      cases fr with
      | error exc =>
          rw [hpost.1]
          exact .refused e _ (refused_status e exc (fetched_error dep i _ _ exc hfr))
      | ok data =>
          rcases hpost with ⟨_, hcommits⟩ | rfl
          · -- A 201 comes with a commit, which would have been its moment.
            have hmem : e.stmt ∈ commitsOf i A := by
              rw [hcommits]
              exact List.mem_singleton.mpr rfl
            have := hnoeffect _ ((mem_commitsOf i A e.stmt).mp hmem)
            rw [Obs.isEffect, beq_self_eq_true, isRead_postEvent] at this
            exact absurd this (by decide)
          · exact .refused e _ (by decide)

/-- At its moment a call does to the list what it answers. -/
theorem point_effect (hc : Reachable dep c) (A B : List Obs) (x : Obs)
    (htr : c.shared.trace = A ++ x :: B) (i : Nat) (q : Request) (r : Except Exc Answer)
    (h : PointAt c.shared.trace i q r x) :
    EventLog.Step dep (commits A) q r (commits (A ++ [x])) := by
  cases h with
  | commit e stmt r harrival hr =>
      rw [hr]
      exact committed_effect dep c hc A B i e stmt htr harrival
  | select q query r hread harrival hreply =>
      rw [commits_other A _ rfl]
      exact selected_effect dep c hc A B i q query r hread htr harrival hreply
  | answer q r hcall hnone =>
      rw [commits_other A _ rfl]
      exact answered_effect dep c hc A B i q r hcall htr hnone

theorem mem_of_split {α : Type} (l A B : List α) (x : α) (h : l = A ++ x :: B) : x ∈ l := by
  rw [h]
  exact List.mem_append_right _ List.mem_cons_self

/-- At a moment of a call it has been made. -/
theorem point_arrival (hc : Reachable dep c) (x : Obs) (hx : x ∈ c.shared.trace) (i : Nat)
    (q : Request) (r : Except Exc Answer) (h : PointAt c.shared.trace i q r x) :
    x.owner = i ∧ 5 ≤ x.stage ∧ q.isStoreCall = true ∧
      c.shared.trace.findSome? (Obs.arrival i) = some q := by
  cases h with
  | commit e stmt r harrival _ => exact ⟨rfl, Nat.le_refl 5, rfl, harrival⟩
  | select q query r hread harrival _ =>
      refine ⟨rfl, show 5 ≤ 6 by decide, ?_, harrival⟩
      cases q with
      | postEvent e => rfl
      | _ => exact hread
  | answer q r hcall _ =>
      exact ⟨rfl, show 5 ≤ 7 by decide, hcall,
        arrival_found dep c hc i q (arrival_of_answer dep c hc i q r hx)⟩

/-- A call has one moment. -/
theorem point_once (hc : Reachable dep c) (A B C : List Obs) (x y : Obs)
    (htr : c.shared.trace = A ++ x :: (B ++ y :: C)) (i : Nat) (q q' : Request)
    (r r' : Except Exc Answer) (hx : PointAt c.shared.trace i q r x)
    (hy : PointAt c.shared.trace i q' r' y) : False := by
  have hxmem : x ∈ c.shared.trace := mem_of_split _ _ _ x htr
  have hymem : y ∈ c.shared.trace := by
    rw [htr]
    exact List.mem_append_right _ (List.mem_cons_of_mem _
      (List.mem_append_right _ List.mem_cons_self))
  rcases point_arrival dep c hc x hxmem i q r hx with ⟨hxi, _, _, hq⟩
  rcases point_arrival dep c hc y hymem i q' r' hy with ⟨hyi, _, _, hq'⟩
  rw [hq, Option.some.injEq] at hq'
  subst hq'
  have horder := inOrder_of dep c hc A B C x y htr (hxi.trans hyi.symm)
  -- A later moment of the same request would have to be its answer, and then
  -- the earlier one says that the answer is not a moment.
  cases hx with
  | commit e stmt r _ _ =>
      cases hy with
      | commit e' stmt' r' _ _ =>
          rcases horder with h | ⟨h, _⟩
          · exact absurd h (Nat.lt_irrefl 5)
          · exact absurd h (show (5 : Nat) ≠ 6 by decide)
      | select q query r' hread _ _ => exact absurd hread Bool.false_ne_true
      | answer q r' _ hnone =>
          have := List.any_eq_false.mp hnone _ hxmem
          rw [Obs.isEffect, beq_self_eq_true] at this
          exact this rfl
  | select q query r hread _ _ =>
      cases hy with
      | commit e stmt r' _ _ => exact absurd hread Bool.false_ne_true
      | select q query' r' _ hq'' _ =>
          refine select_once dep c hc i q hread ?_ A B C query query' htr
          rcases List.exists_of_findSome?_eq_some hq with ⟨z, hz, hzq⟩
          rw [arrival_eq i z q hzq] at hz
          exact hz
      | answer q r' _ hnone =>
          have := List.any_eq_false.mp hnone _ hxmem
          rw [Obs.isEffect, beq_self_eq_true, hread] at this
          exact this rfl
  | answer q r _ _ =>
      rcases horder with h | ⟨h, _⟩
      · cases hy with
        | commit e stmt r' _ _ => exact absurd h (show ¬ 7 < 5 by decide)
        | select q query r' _ _ _ => exact absurd h (show ¬ 7 < 6 by decide)
        | answer q r' _ _ => exact absurd h (Nat.lt_irrefl 7)
      · exact absurd h (show (7 : Nat) ≠ 6 by decide)

theorem event_inv (x : Obs) (i : Nat) (q : Request) (h : x.event = some (.inv i q)) :
    x = .started i q ∧ q.isStoreCall = true := by
  cases x with
  | started j q' =>
      rcases Option.ite_none_right_eq_some.mp h with ⟨hcall, heq⟩
      cases heq
      exact ⟨rfl, hcall⟩
  | answered j q' r =>
      rcases Option.ite_none_right_eq_some.mp h with ⟨_, heq⟩
      exact absurd heq (by simp only [Option.some.injEq, reduceCtorEq, not_false_eq_true])
  | _ => exact absurd h (by simp only [Obs.event, reduceCtorEq, not_false_eq_true])

theorem event_res (x : Obs) (i : Nat) (r : Except Exc Answer) (h : x.event = some (.res i r)) :
    ∃ q, x = .answered i q r ∧ q.isStoreCall = true := by
  cases x with
  | answered j q' r' =>
      rcases Option.ite_none_right_eq_some.mp h with ⟨hcall, heq⟩
      cases heq
      exact ⟨q', rfl, hcall⟩
  | started j q' =>
      rcases Option.ite_none_right_eq_some.mp h with ⟨_, heq⟩
      exact absurd heq (by simp only [Option.some.injEq, reduceCtorEq, not_false_eq_true])
  | _ => exact absurd h (by simp only [Obs.event, reduceCtorEq, not_false_eq_true])

/-- An answered call has a moment. -/
theorem point_exists (hc : Reachable dep c) (i : Nat) (q : Request) (r : Except Exc Answer)
    (hcall : q.isStoreCall = true) (h : Obs.answered i q r ∈ c.shared.trace) :
    ∃ x ∈ c.shared.trace, pointOf c.shared.trace x = some (i, q, r) := by
  have hq := arrival_found dep c hc i q (arrival_of_answer dep c hc i q r h)
  have hr := reply_found dep c hc i q r h
  cases hany : c.shared.trace.any (Obs.isEffect i q) with
  | false =>
      refine ⟨_, h, ?_⟩
      rw [pointOf, hcall, hany]
      rfl
  | true =>
      rcases List.any_eq_true.mp hany with ⟨x, hx, heffect⟩
      refine ⟨x, hx, ?_⟩
      cases x with
      | committed j stmt =>
          rw [Obs.isEffect, Bool.and_eq_true, beq_iff_eq, Bool.not_eq_true'] at heffect
          rcases heffect with ⟨rfl, hread⟩
          rcases storeCall_cases q hcall hread with ⟨e, rfl⟩
          simp only [pointOf, hq, hr, Option.getD_some]
      | selected j query =>
          rw [Obs.isEffect, Bool.and_eq_true, beq_iff_eq] at heffect
          rcases heffect with ⟨rfl, hread⟩
          simp only [pointOf, hq, hr, hread, if_true]
      | _ => exact absurd heffect (by simp only [Obs.isEffect, Bool.false_eq_true,
          not_false_eq_true])

/-- The calls take effect at these moments. -/
theorem storePoints (hc : Reachable dep c) : Points (EventLog.Step dep) c.shared.trace Obs.event
    (pointOf c.shared.trace) commits where
  effect A x B htr i q r h := point_effect dep c hc A B x htr i q r (pointOf_cases _ x i q r h)
  still A x B htr h := by
    refine commits_other A x ?_
    cases x with
    | committed i stmt =>
        -- A commit is a moment of the request it is for.
        rcases (reachable_inv dep c hc).history A _ B htr with ⟨e, hstarted, _⟩
        have hq := arrival_found dep c hc i (.postEvent e) (by
          rw [htr]
          exact List.mem_append_left _ hstarted)
        simp only [pointOf, hq, reduceCtorEq] at h
    | _ => rfl
  once A x B y C htr i p p' hx hy :=
    point_once dep c hc A B C x y htr i _ _ _ _ (pointOf_cases _ x i p.1 p.2 hx)
      (pointOf_cases _ y i p'.1 p'.2 hy)
  calledOnce A x B y C htr i q q' hx hy := by
    rw [(event_inv x i q hx).1, (event_inv y i q' hy).1] at htr
    rcases inOrder_of dep c hc A B C _ _ htr rfl with h | ⟨h, _⟩
    · exact absurd h (Nat.lt_irrefl 0)
    · exact absurd h (show (0 : Nat) ≠ 6 by decide)
  called A x B htr i q r h := by
    rcases point_arrival dep c hc x (mem_of_split _ _ _ x htr) i q r
      (pointOf_cases _ x i q r h) with ⟨rfl, hstage, hcall, hq⟩
    rcases arrival_before dep c hc A B x htr (by omega) with ⟨q', hq'⟩
    have hfound := arrival_found dep c hc x.owner q' (by
      rw [htr]
      exact List.mem_append_left _ hq')
    rw [hq, Option.some.injEq] at hfound
    subst hfound
    exact ⟨_, hq', if_pos hcall⟩
  unanswered A x B htr i p h y hy r hres := by
    rcases event_res y i r hres with ⟨q, rfl, _⟩
    rcases point_arrival dep c hc x (mem_of_split _ _ _ x htr) i p.1 p.2
      (pointOf_cases _ x i p.1 p.2 h) with ⟨hxi, _, _, _⟩
    rcases List.mem_iff_append.mp hy with ⟨A₁, A₂, rfl⟩
    rw [List.append_assoc, List.cons_append] at htr
    rcases inOrder_of dep c hc A₁ A₂ B _ x htr hxi.symm with hlt | ⟨h6, _⟩
    · cases x with
      | _ => exact absurd hlt (by simp only [Obs.stage]; decide)
    · exact absurd h6 (show (7 : Nat) ≠ 6 by decide)
  answer x hx y hy i q r r' h hres := by
    rcases event_res y i r' hres with ⟨q', rfl, _⟩
    have hr := reply_found dep c hc i q' r' hy
    cases pointOf_cases _ x i q r h with
    | commit e stmt r _ heq => rw [heq, hr, Option.getD_some]
    | select q query r _ _ hreply =>
        rw [hr, Option.some.injEq] at hreply
        exact hreply
    | answer q r _ _ =>
        have hreply := reply_found dep c hc i q r hx
        rw [hr, Option.some.injEq] at hreply
        exact hreply
  complete y hy i r hres := by
    rcases event_res y i r hres with ⟨q, rfl, hcall⟩
    rcases point_exists dep c hc i q r hcall hy with ⟨x, hx, hpoint⟩
    exact ⟨x, hx, q, hpoint⟩

/-- Posting an event, reading a total and reading a last timestamp are atomic:
    in every reachable state the history of these calls and their answers is
    linearizable with respect to the list of events. -/
theorem store_linearizable (hc : Reachable dep c) :
    Linearizable (EventLog.Step dep) [] (c.shared.trace.filterMap Obs.event) :=
  (storePoints dep c hc).linearizable

/-- Two installs of numpy and a read of their total, all under way at once. The
    install that arrived second is committed first, and the read comes between. -/
def numpyOverlap : List (Label Request Fate Env) :=
  [.start 0 (.postEvent (numpyInstall 1)), .start 1 (.postEvent (numpyInstall 2)),
    .start 2 (.getEventTotal "numpy".toList .install), .act 0 .ok,
    .act 0 (.http { statusCode := 200, body := some (.object []) }), .act 0 .ok, .act 1 .ok,
    .act 1 .ok, .act 1 .ok, .act 0 .ok, .act 2 .ok, .answer 2, .act 0 .ok, .answer 0, .answer 1]

/-- The clients see a total of one after both installs have been called, and
    before either is answered. -/
theorem store_linearizable_numpy : ∃ c, Reachable utcDeployment c ∧
    c.shared.trace.filterMap Obs.event =
      [.inv 0 (.postEvent (numpyInstall 1)), .inv 1 (.postEvent (numpyInstall 2)),
        .inv 2 (.getEventTotal "numpy".toList .install),
        .res 2 (.ok (.http { statusCode := 200, body := .total 1 })), .res 0 acceptedAnswer,
        .res 1 acceptedAnswer] ∧
    Linearizable (EventLog.Step utcDeployment) [] (c.shared.trace.filterMap Obs.event) := by
  rcases reaches_of_run_map numpyOverlap (Config.init boot)
      (fun c : ServerState => c.shared.trace.filterMap Obs.event) _
      (show (run (server utcDeployment) _ _).map _ = some _ from rfl) with ⟨c, hc, hobs⟩
  exact ⟨c, hc, hobs, store_linearizable utcDeployment c hc⟩

end Moments

end KingPi
