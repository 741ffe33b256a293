import KingPi.Theory.Lifespan
import KingPi.Theory.Progress
import KingPi.Async.Simulation

/-!
# The Server Inside the Application

The theorems about the services are about `server`, where a request has its event
store and its client from the start. In `application` it has to ask for them,
and they come and go with the lifespans: a getter may raise, it may return the
`None` that it has just ruled out, and a client that was open when the route
got it may be closed when the route uses it. Each of this ends in a response,
but in none that the services have made.

So nothing changes for the services. From where the server stands, a request
that fails for want of its dependencies has never arrived, or it was abandoned,
and both may happen there at any time. `Tracks` says so for one state, and a
step of the application is matched by one step of the server or by none.

In the other direction one worker that has started and never stops will do.
Every route it serves finds its dependencies, and goes on as it would in the
server.

## Main definitions

* `World.services`: The world without its record of arrivals and answers.
* `Matches`: A request of the application, and where the server stands with it.
* `Tracks`: The server, at the point where an application stands.
* `Mirrors`, `Serves`: The converse, for one worker that has started.

## Theorems

* `serve_services`: The services do not look at what was recorded.
* `follows_act`, `follows_answer`, `follows_abort`: What a step of a request does.
* `follows_step`: Each step of the application is matched.
* `serves_arrival`, `serves_act`, `serves_answer`: The same for the server.
* `serves_step`: Each step of the server is matched, if it is about a route.
* `same_behaviour`: The application does what the server does.
-/

namespace KingPi

open Async Prog

/-- Is it something the services did, and not an arrival or an answer? -/
def Obs.ofServices : Obs → Bool
  | .started _ _ => false
  | .answered _ _ _ => false
  | _ => true

/-- The world without its record of arrivals and answers. -/
def World.services (w : World) : World := { w with trace := w.trace.filter Obs.ofServices }

theorem services_log (w : World) (o : Obs) (h : o.ofServices = true) :
    (w.log o).services = w.services.log o := by
  simp only [World.services, World.log, List.filter_append, List.filter_cons_of_pos h,
    List.filter_nil]

theorem services_note (w : World) (o : Obs) (h : o.ofServices = false) :
    (w.log o).services = w.services := by
  simp only [World.services, World.log, List.filter_append,
    List.filter_cons_of_neg (ne_true_of_eq_false h), List.filter_nil, List.append_nil]

theorem services_executed (w : World) (i : Nat) (stmt : Upsert) (id : Option Nat) (db : Database) :
    ((w.log (.executed i stmt id)).withDb db).services
      = (w.services.log (.executed i stmt id)).withDb db := by
  simp only [World.services, World.withDb, World.log, List.filter_append]
  rfl

theorem services_store (w : World) (i : Nat) (key value : Str) (ex : Int) :
    (w.store i key value ex).services = w.services.store i key value ex := by
  simp only [World.services, World.store, List.filter_append]
  rfl

/-- The transaction that is committed is the same. -/
theorem services_commit (w : World) (i : Nat) :
    (w.commit i).services = w.services.commit i := by
  rcases commit_eq w i with ⟨hnone, heq⟩ | ⟨x, l, hopen, heq⟩
  · rcases commit_eq w.services i with ⟨_, heq'⟩ | ⟨x', l', hopen', _⟩
    · rw [heq, heq']
    -- Both look at the same open transactions.
    · exact absurd (hopen'.symm.trans hnone) (List.cons_ne_nil _ _)
  · rcases commit_eq w.services i with ⟨hnone', _⟩ | ⟨x', l', hopen', heq'⟩
    · exact absurd (hopen.symm.trans hnone') (List.cons_ne_nil _ _)
    · obtain rfl : x' = x := (List.cons.inj (hopen'.symm.trans hopen)).1
      rw [heq, heq']
      simp only [World.services, List.filter_append]
      rfl

variable (dep : Deployment)

/-- The services do not look at what was recorded. -/
theorem serve_services (i : Nat) (e : Eff) (o : Fate) (w : World) :
    World.serve dep i e o w.services
      = (World.serve dep i e o w).map (fun x => (x.1, x.2.services)) := by
  have hif : ∀ (b : Prop) [Decidable b] (x y : Option (Except Exc e.Reply × World)),
      Option.map (fun x => (x.1, x.2.services)) (if b then x else y)
        = if b then x.map (fun x => (x.1, x.2.services))
          else y.map (fun x => (x.1, x.2.services)) :=
    fun b _ x y => apply_ite _ b x y
  have hdb : w.services.db = w.db := rfl
  have hstore : ∀ (b : Bool) (key value : Str) (ex : Int),
      (if b = true then w.store i key value ex else w).services
        = if b = true then w.services.store i key value ex else w.services := by
    intro b key value ex
    rw [apply_ite World.services, services_store]
  have hcommit : ∀ (b : Bool), (if b = true then w.commit i else w.rollback i).services
      = if b = true then w.services.commit i else w.services.rollback i := by
    intro b
    rw [apply_ite World.services, services_commit]
    rfl
  cases e with
  | redisGet key =>
      cases o with
      | ok => exact congrArg (fun w' => some (_, w')) (services_log w _ rfl).symm
      | http response => rfl
      | fail exc effect => simp only [World.serve, hif, Option.map_some, Option.map_none]
  | redisSet key value ex =>
      cases o with
      | ok => simp only [World.serve, hif, Option.map_some, services_store]
      | http response => rfl
      | fail exc effect => simp only [World.serve, hif, Option.map_some, Option.map_none, hstore]
  | httpGet url =>
      cases o with
      | ok => rfl
      | http response => exact congrArg (fun w' => some (_, w')) (services_log w _ rfl).symm
      | fail exc effect =>
          simp only [World.serve, hif, Option.map_some, Option.map_none]
          rw [services_log w _ rfl]
  | execute stmt =>
      cases o with
      | ok =>
          simp only [World.serve, hif, Option.map_none, hdb]
          rcases w.db.upsert dep stmt with ⟨fault | row, db⟩
          · simp only [Option.map_some, services_executed]
          · simp only [Option.map_some, services_executed]
      | http response => rfl
      | fail exc effect =>
          simp only [World.serve, hif, Option.map_some, Option.map_none]
          rw [apply_ite World.services, services_executed]
          rfl
  | commit =>
      cases o with
      | ok => exact congrArg (fun w' => some (_, w')) (services_commit w i).symm
      | http response => rfl
      | fail exc effect => simp only [World.serve, hif, Option.map_some, Option.map_none, hcommit]
  | select query =>
      cases o with
      | ok => exact congrArg (fun w' => some (_, w')) (services_log w _ rfl).symm
      | http response => rfl
      | fail exc effect => simp only [World.serve, hif, Option.map_some, Option.map_none]

/-- What the environment does on its own, it does without looking at it. -/
theorem env_services (a : Env) (w : World) :
    World.env a w.services = (World.env a w).map World.services := by
  cases a with
  | tick ms => rfl
  | evict key => rfl

/-- A route that has its dependencies. -/
def resolved (store : Option PostgresEventStore) (pypi : Option PyPICacheClient)
    (p : Coroutine Answer) : App AppAnswer :=
  respond ((onObjects store pypi p).bind fun a => ret (.service a))

/-- What a global may hold: nothing, or what some lifespan has built for it. -/
def Built (s : Slot) (value : Option s.Object) : Prop :=
  ∀ v, value = some v → ∃ i, v = ownObject dep i s

/-- A route that has all it asked for, and stands at its start. -/
def Ready (r : Route) (p : App AppAnswer) : Prop :=
  ∃ store pypi, p = resolved store pypi (r.request.body dep)

/-- A route that is asking for its dependencies. It gets them all, or it fails. -/
def Resolving (r : Route) : App AppAnswer → Prop
  | .ret a => a = .internalServerError
  | .raise _ => False
  | .await (.load _ s) k => ∀ value, Built dep s value →
    Resolving r (k (.ok value)) ∨ Ready dep r (k (.ok value))
  | .await _ _ => False

/-- A task of the application. -/
abbrev AppTask := Task Call Call.Reply AppExc AppAnswer AppRequest

/-- A task of the server. -/
abbrev ServerTask := Task Eff Eff.Reply Exc Answer Request

/-- A request that gets no answer from the services. -/
inductive Unserved (r : Route) : Option ServerTask → Prop where
  | absent : Unserved r none
  | aborted : Unserved r (some (.aborted r.request))
  | failed (x : Exc) : Unserved r (some (.answered r.request (.error x)))

/-- A request of the application, and where the server stands with it. -/
inductive Matches : Option AppTask → Option ServerTask → Prop where
  | absent : Matches none none
  | other (t : AppTask) : (∀ worker r, t.request ≠ .route worker r) → Matches (some t) none
  | resolving (worker : Nat) (r : Route) (p : App AppAnswer) : Resolving dep r p →
      Matches (some (.running (.route worker r) p)) none
  | serving (worker : Nat) (r : Route) (store : Option PostgresEventStore)
      (pypi : Option PyPICacheClient) (p : Coroutine Answer) :
      Matches (some (.running (.route worker r) (resolved store pypi p)))
        (some (.running r.request p))
  | refused (worker : Nat) (r : Route) :
      Matches (some (.running (.route worker r) (ret .internalServerError)))
        (some (.aborted r.request))
  | answered (worker : Nat) (r : Route) (a : Answer) :
      Matches (some (.answered (.route worker r) (.ok (.service a))))
        (some (.answered r.request (.ok a)))
  | failed (worker : Nat) (r : Route) (t : Option ServerTask) : Unserved r t →
      Matches (some (.answered (.route worker r) (.ok .internalServerError))) t
  | aborted (worker : Nat) (r : Route) (t : Option ServerTask) : Unserved r t →
      Matches (some (.aborted (.route worker r))) t

variable {dep}

theorem resolving_get (worker : Nat) (r : Route) (s : Slot) (name : Str)
    (f : Option s.Object → App AppAnswer) (hf : ∀ value, Built dep s value →
      Resolving dep r (respond (f value)) ∨ Ready dep r (respond (f value))) :
    Resolving dep r (respond ((getDependency worker s name).bind f)) := by
  intro value _
  refine Or.inl ?_
  cases value with
  | none => exact rfl
  | some v => exact hf

theorem given_built (value : Option PyPICacheClient)
    (h : Built dep .pypiCacheClient value) : dep.given value = dep := by
  cases value with
  | none => rfl
  | some v =>
      rcases h v rfl with ⟨i, rfl⟩
      rfl

theorem resolving_body (worker : Nat) (r : Route) :
    Resolving dep r (respond ((r.body dep worker).bind fun a => ret (.service a))) := by
  cases r with
  | postEvent event =>
      rw [Route.body, bind_eq, bind_bind]
      refine resolving_get worker _ .eventStore _ _ (fun store _ => Or.inl ?_)
      rw [bind_eq, bind_bind]
      refine resolving_get worker _ .pypiCacheClient _ _ (fun pypi hpypi => Or.inr ?_)
      refine ⟨store, pypi, ?_⟩
      rw [given_built pypi hpypi]
      rfl
  | getPackage name =>
      rw [Route.body, bind_eq, bind_bind]
      refine resolving_get worker _ .pypiCacheClient _ _ (fun pypi hpypi => Or.inl ?_)
      rw [bind_eq, bind_bind]
      refine resolving_get worker _ .eventStore _ _ (fun store _ => Or.inr ?_)
      refine ⟨store, pypi, ?_⟩
      rw [given_built pypi hpypi]
      rfl
  | getEventTotal name eventType =>
      rw [Route.body, bind_eq, bind_bind]
      exact resolving_get worker _ .eventStore _ _ (fun store _ => Or.inr ⟨store, none, rfl⟩)
  | getEventLast name eventType =>
      rw [Route.body, bind_eq, bind_bind]
      exact resolving_get worker _ .eventStore _ _ (fun store _ => Or.inr ⟨store, none, rfl⟩)

variable (dep) in
/-- The server, at the point where an application stands. -/
abbrev Tracks (c : AppState) (d : ServerState) : Prop :=
  Related (fun (w : AppWorld) (v : World) => v.services = w.world) (fun _ => Matches dep) c d

/-- Where the server stands with a request that is running. -/
theorem matches_running (q : AppRequest) (p : App AppAnswer) (t : Option ServerTask)
    (h : Matches dep (some (.running q p)) t) :
    ((∀ worker r, q ≠ .route worker r) ∧ t = none) ∨ ∃ worker r, q = .route worker r ∧
      ((Resolving dep r p ∧ t = none) ∨
        (∃ store pypi p', p = resolved store pypi p' ∧ t = some (.running r.request p')) ∨
        (p = ret .internalServerError ∧ t = some (.aborted r.request))) := by
  generalize htask : some (Task.running q p) = task at h
  cases h with
  | other t ht =>
      rw [← Option.some.inj htask] at ht
      exact Or.inl ⟨ht, rfl⟩
  | resolving worker r p hp =>
      cases htask
      exact Or.inr ⟨worker, r, rfl, Or.inl ⟨hp, rfl⟩⟩
  | serving worker r store pypi p =>
      cases htask
      exact Or.inr ⟨worker, r, rfl, Or.inr (Or.inl ⟨store, pypi, p, rfl, rfl⟩)⟩
  | refused worker r =>
      cases htask
      exact Or.inr ⟨worker, r, rfl, Or.inr (Or.inr ⟨rfl, rfl⟩)⟩
  | _ => cases htask

/-- No call but those of the services touches the world of the services. -/
theorem perform_world (i : Nat) (c : Call) (o : AppFate) (w w' : AppWorld)
    (r : Except AppExc c.Reply) (hc : ∀ store pypi e, c ≠ .service store pypi e)
    (h : w.perform dep i c o = some (r, w')) : w'.world = w.world := by
  cases o with
  | ok =>
      cases c with
      | service store pypi e => exact absurd rfl (hc store pypi e)
      | _ =>
          cases h
          rfl
  | fail exc =>
      cases c with
      | service store pypi e => exact absurd rfl (hc store pypi e)
      | assign worker s value => cases h
      | load worker s => cases h
      | _ =>
          cases (Option.ite_none_right_eq_some.mp h).2
          rfl
  | service fate =>
      cases c with
      | service store pypi e => exact absurd rfl (hc store pypi e)
      | _ => cases h

/-- A task that is not running has no transaction to roll back. -/
theorem rollback_idle (d : ServerState) (hd : Reachable dep d) (i : Nat)
    (h : ∀ q p, d.task i ≠ some (.running q p)) : d.shared.rollback i = d.shared := by
  -- An open transaction is that of a request at its commit.
  have hpending : d.shared.db.pending.filter (fun p => p.owner != i) = d.shared.db.pending := by
    refine List.filter_eq_self.mpr (fun x hx => ?_)
    rcases held_of dep d hd x hx with ⟨q, k, hk⟩
    rw [bne_iff_ne]
    rintro rfl
    exact h q _ hk
  simp only [World.rollback, Database.rollback, hpending]

/-- What refuses a call is an exception that becomes a response. -/
theorem refusal_exception (w : AppWorld) (store : Option PostgresEventStore)
    (pypi : Option PyPICacheClient) (e : Eff) (exc : AppExc)
    (h : w.refusal store pypi e = some exc) : exc.isException = true := by
  cases e with
  | httpGet url =>
      cases pypi with
      | none =>
          cases h
          rfl
      | some client =>
          cases (Option.ite_none_right_eq_some.mp h).2
          rfl
  | _ =>
      cases (Option.ite_none_right_eq_some.mp h).2
      rfl

/-- A route that has its dependencies makes the calls of its coroutine. -/
theorem resolved_await (store : Option PostgresEventStore) (pypi : Option PyPICacheClient) (e : Eff)
    (k : Except Exc e.Reply → Coroutine Answer) :
    ∃ k', resolved store pypi (.await e k) = .await (Call.service store pypi e) k' ∧
      (∀ reply, k' (.ok reply) = resolved store pypi (k reply)) ∧
      ∀ exc, exc.isException = true → k' (.error exc) = ret .internalServerError := by
  rw [resolved, onObjects, Prog.bind, respond, Prog.tryCatch]
  refine ⟨_, rfl, fun reply => ?_, fun exc hexc => ?_⟩
  · rfl
  · change (if exc.isException then ret AppAnswer.internalServerError else raise exc) = _
    rw [if_pos hexc]

/-- A route asks and gets an answer, from its global. -/
theorem follows_resolving (c : AppState) (d : ServerState) (hc : AppReachable dep c)
    (h : Tracks dep c d) (i worker : Nat) (r : Route) (e : Call)
    (k : Except AppExc e.Reply → App AppAnswer) (o : AppFate) (res : Except AppExc e.Reply)
    (w w' : AppWorld) (hres : Resolving dep r (.await e k)) (hfree : d.task i = none)
    (hperform : c.shared.perform dep i e o = some (res, w)) (hworld : w'.world = w.world) :
    ∃ d', Reaches (server dep) d d' ∧
      Tracks dep (c.put w' i (.running (.route worker r) (k res))) d' := by
  cases e with
  | load worker' s =>
      have hload : res = .ok (c.shared.globals worker' s) ∧ w = c.shared := by
        cases o with
        | ok =>
            cases hperform
            exact ⟨rfl, rfl⟩
        | _ => cases hperform
      rcases hload with ⟨rfl, rfl⟩
      have hbuilt : Built dep s (c.shared.globals worker' s) := by
        intro v hv
        rcases built_by dep c hc worker' s v hv with ⟨j, _, hj, _⟩
        exact ⟨j, hj⟩
      rcases hres _ hbuilt with hres | ⟨store, pypi, hready⟩
      · refine ⟨d, Reaches.refl, related_left c d i w' _ h (h.shared.trans hworld.symm) ?_⟩
        rw [hfree]
        exact .resolving worker r _ hres
      -- The server hears of the request when it has its dependencies.
      · refine ⟨_, (StepOf.start (S := server dep) i r.request hfree).reaches,
          related_both c d i w' _ _ _ h ?_ ?_⟩
        · exact (services_note d.shared _ rfl).trans (h.shared.trans hworld.symm)
        · rw [hready]
          exact .serving worker r store pypi _
  | _ => exact hres.elim

/-- A route calls the services. -/
theorem follows_serving (c : AppState) (d : ServerState) (h : Tracks dep c d) (i worker : Nat)
    (r : Route) (store : Option PostgresEventStore) (pypi : Option PyPICacheClient) (e : Eff)
    (k : Except Exc e.Reply → Coroutine Answer)
    (k' : Except AppExc (Except Exc e.Reply) → App AppAnswer)
    (hok : ∀ reply, k' (.ok reply) = resolved store pypi (k reply))
    (herror : ∀ exc, exc.isException = true → k' (.error exc) = ret .internalServerError)
    (fate : Fate) (res : Except AppExc (Except Exc e.Reply)) (w w' : AppWorld)
    (htask : d.task i = some (.running r.request (.await e k)))
    (hperform : c.shared.perform dep i (.service store pypi e) (.service fate) = some (res, w))
    (hworld : w'.world = w.world) : ∃ d', Reaches (server dep) d d' ∧
      Tracks dep (c.put w' i (.running (.route worker r) (k' res))) d' := by
  rcases perform_service dep i store pypi e fate _ w res hperform with
    ⟨exc, hrefusal, rfl, rfl⟩ | ⟨reply, world, _, rfl, hserve, rfl⟩
  -- The services lose the request, and its transaction with it.
  · refine ⟨_, (StepOf.abort (S := server dep) i r.request _ htask).reaches,
      related_both c d i w' _ _ _ h ?_ ?_⟩
    · rw [hworld]
      exact congrArg (World.rollback · i) h.shared
    · rw [herror exc (refusal_exception _ _ _ _ exc hrefusal)]
      exact .refused worker r
  · rw [← h.shared, serve_services] at hserve
    rcases Option.map_eq_some_iff.mp hserve with ⟨⟨reply', v⟩, hv, heq⟩
    rcases Prod.mk.inj heq with ⟨rfl, hworld'⟩
    refine ⟨_, (StepOf.act (S := server dep) i fate r.request e k _ v htask hv).reaches,
      related_both c d i w' _ _ _ h ?_ ?_⟩
    · rw [hworld, ← hworld']
    · rw [hok]
      exact .serving worker r store pypi _

section Steps

variable (c : AppState) (d : ServerState) (h : Tracks dep c d)

include h

/-- An arrival is not heard of before the request has its dependencies. -/
theorem follows_start (i : Nat) (q : AppRequest) (hfree : c.task i = none) :
    ∃ d', Reaches (server dep) d d' ∧ Tracks dep
      (c.put (c.shared.note (.started i q)) i (.running q (q.body dep))) d' := by
  have hi := h.task i
  rw [hfree] at hi
  generalize htask : d.task i = t at hi
  cases hi
  refine ⟨d, Reaches.refl, related_left c d i _ _ h h.shared ?_⟩
  rw [htask]
  cases q with
  | route worker r => exact .resolving worker r _ (resolving_body worker r)
  | _ => exact .other _ (fun worker r hr => nomatch hr)

/-- Only a route calls the services, so that nothing else is seen. -/
theorem follows_unseen (hc : AppReachable dep c) (i : Nat) (q : AppRequest) (e : Call)
    (k : Except AppExc e.Reply → App AppAnswer) (o : AppFate) (res : Except AppExc e.Reply)
    (w w' : AppWorld) (htask : c.task i = some (.running q (.await e k)))
    (hother : ∀ worker r, q ≠ .route worker r) (hfree : d.task i = none)
    (hperform : c.shared.perform dep i e o = some (res, w)) (hworld : w'.world = w.world) :
    ∃ d', Reaches (server dep) d d' ∧ Tracks dep (c.put w' i (.running q (k res))) d' := by
  have hkept := kept_of dep c hc i
  rw [htask] at hkept
  rcases hkept with ⟨own, _, m, hm, hwatched⟩
  -- A call of the services is one of a route, as the monitor of the request knows.
  have hsilent : ∀ store pypi e', e ≠ .service store pypi e' := by
    rintro store pypi e' rfl
    rcases hwatched.1 with ⟨worker, r, hr⟩
    have hread := Holding.read_of_replays dep i q own m hm
    exact hother worker r (hread.request_eq.symm.trans hr)
  refine ⟨d, Reaches.refl, related_left c d i _ _ h ?_ ?_⟩
  · exact h.shared.trans ((hworld.trans (perform_world i e o _ w res hsilent hperform)).symm)
  · rw [hfree]
    exact .other _ hother

/-- A call is made: for another kind of request, at a getter, or of the services. -/
theorem follows_act (hc : AppReachable dep c) (i : Nat) (q : AppRequest) (e : Call)
    (k : Except AppExc e.Reply → App AppAnswer) (o : AppFate) (res : Except AppExc e.Reply)
    (w : AppWorld) (htask : c.task i = some (.running q (.await e k)))
    (hserve : AppWorld.serve dep i e o c.shared = some (res, w)) :
    ∃ d', Reaches (server dep) d d' ∧ Tracks dep (c.put w i (.running q (k res))) d' := by
  have hi := h.task i
  rw [htask] at hi
  rcases serve_effect dep i e o _ w res hserve with ⟨w₁, hperform, hw⟩
  have hworld : w.world = w₁.world := by rw [hw]
  rcases matches_running q _ _ hi with ⟨hother, hnone⟩ | ⟨worker, r, rfl,
    ⟨hres, hnone⟩ | ⟨store, pypi, p, hp, hd⟩ | ⟨hp, _⟩⟩
  · exact follows_unseen c d h hc i q e k o res w₁ w htask hother hnone hperform hworld
  · exact follows_resolving c d hc h i worker r e k o res w₁ w hres hnone hperform hworld
  · cases p with
    | ret a => cases hp
    | raise x => cases hp
    | await e' k₀ =>
        rcases resolved_await store pypi e' k₀ with ⟨k', hk', hok, herror⟩
        rw [hk'] at hp
        cases hp
        cases o with
        | service fate =>
            exact follows_serving c d h i worker r store pypi e' k₀ _ hok herror fate res w₁ w hd
              hperform hworld
        | _ => cases hperform
  · cases hp

/-- An answer is the server's if it is one of the services. -/
theorem follows_answer (i : Nat) (q : AppRequest) (p : App AppAnswer)
    (res : Except AppExc AppAnswer) (htask : c.task i = some (.running q p))
    (hout : p.outcome = some res) :
    ∃ d', Reaches (server dep) d d' ∧ Tracks dep
      (c.put (c.shared.note (.answered i q res)) i (.answered q res)) d' := by
  have hi := h.task i
  rw [htask] at hi
  rcases matches_running q _ _ hi with ⟨hother, hnone⟩ | ⟨worker, r, rfl,
    ⟨hres, hnone⟩ | ⟨store, pypi, p', rfl, hd⟩ | ⟨rfl, hd⟩⟩
  · refine ⟨d, Reaches.refl, related_left c d i _ _ h h.shared ?_⟩
    rw [hnone]
    exact .other _ hother
  · -- A getter has raised: the server has not heard of the request.
    cases p with
    | ret a =>
        cases hout
        cases (show a = .internalServerError from hres)
        refine ⟨d, Reaches.refl, related_left c d i _ _ h h.shared ?_⟩
        rw [hnone]
        exact .failed worker r none .absent
    | raise x => exact hres.elim
    | await e k => cases hout
  · cases p' with
    | ret a =>
        cases hout
        exact ⟨_, (StepOf.answer (S := server dep) i r.request _ _ hd rfl).reaches,
          related_both c d i _ _ _ _ h ((services_note d.shared _ rfl).trans h.shared)
            (.answered worker r a)⟩
    | raise x =>
        cases hout
        exact ⟨_, (StepOf.answer (S := server dep) i r.request _ _ hd rfl).reaches,
          related_both c d i _ _ _ _ h ((services_note d.shared _ rfl).trans h.shared)
            (.failed worker r _ (.failed x))⟩
    | await e k =>
        rcases resolved_await store pypi e k with ⟨k', hk', _, _⟩
        rw [hk'] at hout
        cases hout
  · cases hout
    refine ⟨d, Reaches.refl, related_left c d i _ _ h h.shared ?_⟩
    rw [hd]
    exact .failed worker r _ .aborted

/-- What is rolled back in the application is rolled back in the server, or there
    is nothing to roll back. -/
theorem follows_abort (hd : Reachable dep d) (i : Nat) (q : AppRequest) (p : App AppAnswer)
    (htask : c.task i = some (.running q p)) :
    ∃ d', Reaches (server dep) d d' ∧ Tracks dep (c.put (c.shared.leave i) i (.aborted q)) d' := by
  have hi := h.task i
  rw [htask] at hi
  have hrollback : (d.shared.rollback i).services = (c.shared.leave i).world :=
    congrArg (World.rollback · i) h.shared
  -- Where the server has nothing under way, rolling back changes nothing.
  have hidle : (∀ q p, d.task i ≠ some (.running q p)) →
      d.shared.services = (c.shared.leave i).world := by
    intro hnone
    rw [← hrollback, rollback_idle d hd i hnone]
  rcases matches_running q _ _ hi with ⟨hother, hnone⟩ | ⟨worker, r, rfl,
    ⟨_, hnone⟩ | ⟨store, pypi, p', rfl, hd'⟩ | ⟨_, hd'⟩⟩
  · refine ⟨d, Reaches.refl, related_left c d i _ _ h (hidle (fun q p => ?_)) ?_⟩
    · rw [hnone]
      exact fun hq => nomatch hq
    · rw [hnone]
      exact .other _ hother
  · refine ⟨d, Reaches.refl, related_left c d i _ _ h (hidle (fun q p => ?_)) ?_⟩
    · rw [hnone]
      exact fun hq => nomatch hq
    · rw [hnone]
      exact .aborted worker r none .absent
  · exact ⟨_, (StepOf.abort (S := server dep) i r.request _ hd').reaches,
      related_both c d i _ _ _ _ h hrollback (.aborted worker r _ .aborted)⟩
  · refine ⟨d, Reaches.refl, related_left c d i _ _ h (hidle (fun q p => ?_)) ?_⟩
    · rw [hd']
      exact fun hq => nomatch hq
    · rw [hd']
      exact .aborted worker r _ .aborted

/-- The environment is the same in both. -/
theorem follows_env (a : Env) (w : AppWorld)
    (henv : (application dep).env a c.shared = some w) :
    ∃ d', Reaches (server dep) d d' ∧ Tracks dep { c with shared := w } d' := by
  rcases Option.map_eq_some_iff.mp henv with ⟨world, hworld, rfl⟩
  rw [← h.shared, env_services] at hworld
  rcases Option.map_eq_some_iff.mp hworld with ⟨v, hv, heq⟩
  exact ⟨_, (StepOf.env (S := server dep) a v hv).reaches, heq, h.task⟩

/-- Each step of the application is matched. -/
theorem follows_step (c' : AppState) (l : Label AppRequest AppFate Env)
    (hc : AppReachable dep c) (hd : Reachable dep d) (hl : StepOf (application dep) c l c') :
    ∃ d', Reaches (server dep) d d' ∧ Tracks dep c' d' := by
  cases hl with
  | start i q hfree => exact follows_start c d h i q hfree
  | act i o q e k res w htask hserve => exact follows_act c d h hc i q e k o res w htask hserve
  | answer i q p res htask hout => exact follows_answer c d h i q p res htask hout
  | abort i q p htask => exact follows_abort c d h hd i q p htask
  | env a w henv => exact follows_env c d h a w henv

end Steps

variable (dep)

/-- The answers the services have given in an application. -/
def AppState.answers (c : AppState) (i : Nat) : Option (Request × Answer) :=
  match c.task i with
  | some (.answered (.route _ r) (.ok (.service a))) => some (r.request, a)
  | _ => none

/-- The answers the server has given. -/
def ServerState.answers (d : ServerState) (i : Nat) : Option (Request × Answer) :=
  match d.task i with
  | some (.answered q (.ok a)) => some (q, a)
  | _ => none

/-- All requests are routes. The cached client is not called on its own. -/
def OnlyRoutes (d : ServerState) : Prop :=
  ∀ i t, d.task i = some t → ∃ r : Route, t.request = r.request

variable {dep}

theorem answers_unserved (r : Route) (d : ServerState) (i : Nat) (h : Unserved r (d.task i)) :
    ServerState.answers d i = none := by
  rw [ServerState.answers]
  generalize d.task i = t at h
  cases h with
  | _ => rfl

theorem answers_matches (c : AppState) (d : ServerState) (i : Nat)
    (h : Matches dep (c.task i) (d.task i)) : ServerState.answers d i = AppState.answers c i := by
  have hunserved := fun r => answers_unserved r d i
  rw [ServerState.answers] at hunserved ⊢
  rw [AppState.answers]
  generalize c.task i = t at h
  generalize d.task i = t' at h hunserved
  cases h with
  | absent => rfl
  | other t hother =>
      cases t with
      | answered q res =>
          cases q with
          | route worker r => exact absurd rfl (hother worker r)
          | _ => rfl
      | _ => rfl
  | failed worker r t hun => exact hunserved r hun
  | aborted worker r t hun => exact hunserved r hun
  | _ => rfl

theorem route_matches (t : Option AppTask) (t' : ServerTask) (h : Matches dep t (some t')) :
    ∃ r : Route, t'.request = r.request := by
  have hunserved : ∀ r, Unserved r (some t') → t'.request = r.request := by
    intro r hun
    cases hun with
    | _ => rfl
  cases h with
  | failed worker r t hun => exact ⟨r, hunserved r hun⟩
  | aborted worker r t hun => exact ⟨r, hunserved r hun⟩
  | serving worker r _ _ _ => exact ⟨r, rfl⟩
  | refused worker r => exact ⟨r, rfl⟩
  | answered worker r _ => exact ⟨r, rfl⟩

/-- Every run of the application is matched. -/
theorem follows_of (c : AppState) (hc : AppReachable dep c) :
    ∃ d, Reachable dep d ∧ Tracks dep c d := by
  refine simulates (fun _ => True) (Tracks dep) (fun _ _ _ _ _ => trivial) (Config.init idle)
    (Config.init boot) ⟨rfl, fun _ => .absent⟩ ?_ c hc trivial
  intro c c' l d hc hd _ h hl
  exact follows_step c d h c' l hc hd hl

/-- A coroutine whose calls are not refused while the clients are open. -/
abbrev Provided {α : Type} (store : Option PostgresEventStore) (pypi : Option PyPICacheClient)
    (p : Coroutine α) : Prop :=
  Only (fun e => ∀ w : AppWorld, w.closed = [] → w.refusal store pypi e = none) p

/-- With both objects at hand nothing is refused. -/
theorem provided_both {α : Type} (store : PostgresEventStore) (pypi : PyPICacheClient)
    (p : Coroutine α) : Provided (some store) (some pypi) p := by
  induction p with
  | ret a => trivial
  | raise x => trivial
  | await e k ih =>
      refine ⟨fun w hw => ?_, ih⟩
      cases e with
      | httpGet url =>
          refine if_neg ?_
          rw [hw]
          exact List.not_mem_nil
      | _ => rfl

/-- A request that makes one call, and reads the table with it, needs the event
    store only. -/
theorem provided_read (store : PostgresEventStore) (query : Query) (q : Request)
    (hbound : callBound q = 1) (hnext : (q.body dep).next = some (.select query)) :
    Provided (some store) none (q.body dep) := by
  have hwithin := within_body dep q
  rw [hbound] at hwithin
  cases hp : q.body dep with
  | ret a => trivial
  | raise x => trivial
  | await e k =>
      rw [hp] at hnext hwithin
      cases Option.some.inj hnext
      refine ⟨fun _ _ => rfl, fun r => ?_⟩
      -- The bound leaves no call to make after the first.
      have hlast := hwithin.2 r
      cases hk : k r with
      | await e' k' =>
          rw [hk] at hlast
          exact hlast.elim
      | _ => trivial

variable (dep) in
/-- A worker serves, and no lifespan has closed anything. -/
structure Open (n : Nat) (v : World) (w : AppWorld) : Prop where
  services : v.services = w.world
  globals : ∀ s, w.globals 0 s = some (ownObject dep n s)
  closed : w.closed = []

/-- A request of the server, and the route that makes it. -/
inductive Mirrors : Option ServerTask → Option AppTask → Prop where
  | absent : Mirrors none none
  | running (r : Route) (store : Option PostgresEventStore) (pypi : Option PyPICacheClient)
      (p : Coroutine Answer) : Provided store pypi p →
      Mirrors (some (.running r.request p)) (some (.running (.route 0 r) (resolved store pypi p)))
  | answered (r : Route) (a : Answer) : Mirrors (some (.answered r.request (.ok a)))
      (some (.answered (.route 0 r) (.ok (.service a))))
  | failed (r : Route) (x : Exc) : Mirrors (some (.answered r.request (.error x)))
      (some (.answered (.route 0 r) (.ok .internalServerError)))
  | aborted (r : Route) : Mirrors (some (.aborted r.request)) (some (.aborted (.route 0 r)))

variable (dep) in
/-- An application with one worker that has started as task `n`, at the point where
    the server stands. -/
abbrev Serves (n : Nat) (d : ServerState) (c : AppState) : Prop :=
  Related (Open dep n) (fun i t t' => (i = n → ∃ p, t' = some (.running (.lifespan 0) p)) ∧
    (i ≠ n → Mirrors t t')) d c

variable (dep) in
/-- While the worker serves, a task gets there alone, and only the log shows it. -/
def Quietly (n i : Nat) (p p' : App AppAnswer) : Prop :=
  ∀ w : AppWorld, (∀ s, w.globals 0 s = some (ownObject dep n s)) →
    ∃ os log, advance (AppWorld.serve dep i) os p w = some (p', { w with log := log })

theorem quietly_refl (n i : Nat) (p : App AppAnswer) : Quietly dep n i p p :=
  fun w _ => ⟨[], w.log, rfl⟩

/-- A getter finds what it was asked for. -/
theorem quietly_get (n i : Nat) (s : Slot) (name : Str) (f : Option s.Object → App AppAnswer)
    (p : App AppAnswer) (h : Quietly dep n i (respond (f (some (ownObject dep n s)))) p) :
    Quietly dep n i (respond ((getDependency 0 s name).bind f)) p := by
  intro w hw
  have hload : ∀ log, AppWorld.serve dep i (.load 0 s) .ok { w with log := log }
      = some (.ok (some (ownObject dep n s)),
        { w with log := log ++ [.called i (.load 0 s) (.ok (some (ownObject dep n s)))] }) := by
    intro log
    rw [AppWorld.serve, AppWorld.perform, hw]
  rcases h { w with log := w.log ++ [.called i (.load 0 s) (.ok (some (ownObject dep n s)))]
    ++ [.called i (.load 0 s) (.ok (some (ownObject dep n s)))] } hw with ⟨os, log, hos⟩
  refine ⟨.ok :: .ok :: os, log, ?_⟩
  -- It reads the global to check it, and once more to return it.
  change advance _ _ (.await (Call.load 0 s) _) { w with log := w.log } = _
  rw [advance, hload]
  change advance _ _ (.await (Call.load 0 s) _) _ = _
  rw [advance, hload]
  exact hos

/-- A route finds all it asks for. -/
theorem quietly_route (n i : Nat) (r : Route) : ∃ store pypi,
    Quietly dep n i (respond ((r.body dep 0).bind fun a => ret (.service a)))
      (resolved store pypi (r.request.body dep)) ∧
    Provided store pypi (r.request.body dep) := by
  have hboth : ∀ q : Request, Provided (some (ownObject dep n .eventStore))
      (some (ownObject dep n .pypiCacheClient)) (q.body dep) := fun q => provided_both _ _ _
  cases r with
  | postEvent event =>
      refine ⟨_, _, ?_, hboth _⟩
      simp only [Route.body, bind_eq, bind_bind]
      exact quietly_get n i .eventStore _ _ _
        (quietly_get n i .pypiCacheClient _ _ _ (quietly_refl n i _))
  | getPackage name =>
      refine ⟨_, _, ?_, hboth _⟩
      simp only [Route.body, bind_eq, bind_bind]
      exact quietly_get n i .pypiCacheClient _ _ _
        (quietly_get n i .eventStore _ _ _ (quietly_refl n i _))
  | getEventTotal name eventType =>
      refine ⟨_, none, ?_, provided_read (ownObject dep n .eventStore) _ _ rfl rfl⟩
      simp only [Route.body, bind_eq, bind_bind]
      exact quietly_get n i .eventStore _ _ _ (quietly_refl n i _)
  | getEventLast name eventType =>
      refine ⟨_, none, ?_, provided_read (ownObject dep n .eventStore) _ _ rfl rfl⟩
      simp only [Route.body, bind_eq, bind_bind]
      exact quietly_get n i .eventStore _ _ _ (quietly_refl n i _)

/-- What is known of a request that the server has under way. -/
theorem mirrors_running (q : Request) (p : Coroutine Answer) (t : Option AppTask)
    (h : Mirrors (some (.running q p)) t) : ∃ r store pypi, q = Route.request r ∧
      t = some (.running (.route 0 r) (resolved store pypi p)) ∧ Provided store pypi p := by
  generalize htask : some (Task.running q p) = task at h
  cases h with
  | running r store pypi p hp =>
      cases htask
      exact ⟨r, store, pypi, rfl, rfl, hp⟩
  | _ => cases htask

/-- A request other than the lifespan of the worker. -/
theorem serves_request (n i : Nat) (t : Option ServerTask) (t' : Option AppTask) (hi : i ≠ n)
    (h : Mirrors t t') :
    (i = n → ∃ p, t' = some (.running (.lifespan 0) p)) ∧ (i ≠ n → Mirrors t t') :=
  ⟨fun hin => absurd hin hi, fun _ => h⟩

section Steps

variable (n : Nat) (d : ServerState) (c : AppState) (i : Nat) (hi : i ≠ n)
variable (h : Serves dep n d c)

include hi h

/-- A request arrives, and has its dependencies before anything else happens. -/
theorem serves_arrival (r : Route) (hfree : d.task i = none) :
    ∃ c', Reaches (application dep) c c' ∧ Serves dep n
      (d.put (d.shared.log (.started i r.request)) i
        (.running r.request (r.request.body dep))) c' := by
  have hm := (h.task i).2 hi
  rw [hfree] at hm
  generalize htask : c.task i = t at hm
  cases hm
  have hstart := StepOf.start (S := application dep) i (.route 0 r) htask
  rcases quietly_route n i r with ⟨store, pypi, hquiet, hprovided⟩
  rcases hquiet (c.shared.note (.started i (.route 0 r))) h.shared.globals with ⟨os, log, hos⟩
  rcases reaches_advance (S := application dep) i (.route 0 r) os _ _ _ (c.put _ i _)
    (c.put_task_self _ _ _) hos with ⟨c', hc', hshared, hself, hother⟩
  refine ⟨c', reaches_trans hstart.reaches hc', related_moved d _ c c' i h ?_ ?_
    (fun j hj => d.put_task_other _ _ _ _ hj) (fun j hj => ?_)⟩
  · rw [hshared]
    exact ⟨(services_note d.shared _ rfl).trans h.shared.services, h.shared.globals,
      h.shared.closed⟩
  · rw [d.put_task_self, hself]
    exact serves_request n i _ _ hi (.running r store pypi _ hprovided)
  · rw [hother j hj, c.put_task_other _ _ _ _ hj]

/-- A call of the services is not refused, and they serve it as they did. -/
theorem serves_act (o : Fate) (q : Request) (e : Eff) (k : Except Exc e.Reply → Coroutine Answer)
    (res : Except Exc e.Reply) (v : World) (htask : d.task i = some (.running q (.await e k)))
    (hserve : World.serve dep i e o d.shared = some (res, v)) :
    ∃ c', Reaches (application dep) c c' ∧
      Serves dep n (d.put v i (.running q (k res))) c' := by
  have hm := (h.task i).2 hi
  rw [htask] at hm
  rcases mirrors_running _ _ _ hm with ⟨r, store, pypi, rfl, hc, hprovided⟩
  rcases resolved_await store pypi e k with ⟨k', hk', hok, _⟩
  rw [hk'] at hc
  have hworld : c.shared.world.serve dep i e o = some (res, v.services) := by
    rw [← h.shared.services, serve_services, hserve]
    rfl
  have hcall : AppWorld.serve dep i (.service store pypi e) (.service o) c.shared
      = some (.ok res, { c.shared with
        world := v.services
        log := c.shared.log ++ [.called i (.service store pypi e) (.ok res)] }) := by
    simp only [AppWorld.serve, AppWorld.perform, hprovided.1 _ h.shared.closed, hworld]
  refine ⟨_, (StepOf.act (S := application dep) i (.service o) _ _ k' _ _ hc hcall).reaches,
    related_both d c i v _ _ _ h ⟨rfl, h.shared.globals, h.shared.closed⟩
      (serves_request n i _ _ hi ?_)⟩
  refine (congrArg (fun p => Mirrors _ (some (Task.running (AppRequest.route 0 r) p)))
    (hok res)).mpr ?_
  exact .running r store pypi _ (hprovided.2 res)

/-- The route answers what its coroutine has returned, or 500 if it raised. -/
theorem serves_answer (q : Request) (p : Coroutine Answer) (res : Except Exc Answer)
    (htask : d.task i = some (.running q p)) (hout : p.outcome = some res) :
    ∃ c', Reaches (application dep) c c' ∧
      Serves dep n (d.put (d.shared.log (.answered i q res)) i (.answered q res)) c' := by
  have hm := (h.task i).2 hi
  rw [htask] at hm
  rcases mirrors_running _ _ _ hm with ⟨r, store, pypi, rfl, hc, _⟩
  have hshared : ∀ res', Open dep n (d.shared.log (.answered i r.request res))
      (c.shared.note (.answered i (.route 0 r) res')) := fun res' =>
    ⟨(services_note d.shared _ rfl).trans h.shared.services, h.shared.globals, h.shared.closed⟩
  cases p with
  | ret a =>
      cases hout
      exact ⟨_, (StepOf.answer (S := application dep) i _ _ _ hc rfl).reaches,
        related_both d c i _ _ _ _ h (hshared _) (serves_request n i _ _ hi (.answered r a))⟩
  | raise x =>
      cases hout
      exact ⟨_, (StepOf.answer (S := application dep) i _ _ _ hc rfl).reaches,
        related_both d c i _ _ _ _ h (hshared _) (serves_request n i _ _ hi (.failed r x))⟩
  | await e k => cases hout

theorem serves_abort (q : Request) (p : Coroutine Answer)
    (htask : d.task i = some (.running q p)) :
    ∃ c', Reaches (application dep) c c' ∧
      Serves dep n (d.put (d.shared.rollback i) i (.aborted q)) c' := by
  have hm := (h.task i).2 hi
  rw [htask] at hm
  rcases mirrors_running _ _ _ hm with ⟨r, store, pypi, rfl, hc, _⟩
  exact ⟨_, (StepOf.abort (S := application dep) i _ _ hc).reaches,
    related_both d c i _ _ _ _ h ⟨congrArg (World.rollback · i) h.shared.services,
      h.shared.globals, h.shared.closed⟩ (serves_request n i _ _ hi (.aborted r))⟩

end Steps

theorem serves_env (n : Nat) (d : ServerState) (c : AppState) (h : Serves dep n d c) (a : Env)
    (v : World) (henv : World.env a d.shared = some v) :
    ∃ c', Reaches (application dep) c c' ∧ Serves dep n { d with shared := v } c' := by
  have hworld : World.env a c.shared.world = some v.services := by
    rw [← h.shared.services, env_services, henv]
    rfl
  refine ⟨_, (StepOf.env (S := application dep) a { c.shared with world := v.services }
    ?_).reaches, ⟨rfl, h.shared.globals, h.shared.closed⟩, h.task⟩
  exact Option.map_eq_some_iff.mpr ⟨_, hworld, rfl⟩

/-- Each step of the server is matched, if it is about a route. -/
theorem serves_step (n : Nat) (d d' : ServerState) (l : Label Request Fate Env) (c : AppState)
    (hn : d'.task n = none) (hroutes : OnlyRoutes d') (h : Serves dep n d c)
    (hl : StepOf (server dep) d l d') :
    ∃ c', Reaches (application dep) c c' ∧ Serves dep n d' c' := by
  -- The number of the lifespan is not that of a request.
  have hself : ∀ (v : World) (i : Nat) (t : ServerTask), d' = d.put v i t → i ≠ n := by
    rintro v i t rfl rfl
    rw [d.put_task_self] at hn
    exact absurd hn (by simp only [reduceCtorEq, not_false_eq_true])
  cases hl with
  | start i q hfree =>
      rcases hroutes i _ (d.put_task_self _ _ _) with ⟨r, rfl⟩
      exact serves_arrival n d c i (hself _ i _ rfl) h r hfree
  | act i o q e k res v htask hserve =>
      exact serves_act n d c i (hself _ i _ rfl) h o q e k res v htask hserve
  | answer i q p res htask hout =>
      exact serves_answer n d c i (hself _ i _ rfl) h q p res htask hout
  | abort i q p htask => exact serves_abort n d c i (hself _ i _ rfl) h q p htask
  | env a v henv => exact serves_env n d c h a v henv

/-- A worker starts. -/
theorem serves_start (n : Nat) : ∃ c, AppReachable dep c ∧
    Serves dep n (Config.init boot) c := by
  have hstart := StepOf.start (S := application dep) (c := Config.init idle) n (.lifespan 0) rfl
  have hadvance : ∃ p w, advance (AppWorld.serve dep n) (List.replicate 8 .ok)
      ((AppRequest.lifespan 0).body dep) (idle.note (.started n (.lifespan 0))) = some (p, w) ∧
      Open dep n boot w := by
    refine ⟨_, _, rfl, rfl, fun s => ?_, rfl⟩
    cases s with
    | _ => rfl
  rcases hadvance with ⟨p, w, hp, hopen⟩
  rcases reaches_advance (S := application dep) n (.lifespan 0) _ _ p w (Config.put _ _ n _)
    (Config.put_task_self _ _ _ _) hp with ⟨c, hc, hshared, htask, hother⟩
  refine ⟨c, reaches_trans hstart.reaches hc, ?_, fun i => ⟨?_, fun hi => ?_⟩⟩
  · rw [hshared]
    exact hopen
  · rintro rfl
    exact ⟨p, htask⟩
  · rw [hother i hi, Config.put_task_other _ _ _ _ _ hi]
    exact .absent

theorem answers_mirrors (d : ServerState) (c : AppState) (i : Nat)
    (h : Mirrors (d.task i) (c.task i)) : ServerState.answers d i = AppState.answers c i := by
  rw [ServerState.answers, AppState.answers]
  generalize d.task i = t at h
  generalize c.task i = t' at h
  cases h with
  | _ => rfl

/-- A run of the server that serves routes only is a run of an application. -/
theorem serves_of (d : ServerState) (hd : Reachable dep d) (n : Nat) (hn : d.task n = none)
    (hroutes : OnlyRoutes d) : ∃ c, AppReachable dep c ∧ Serves dep n d c := by
  -- Requests that have arrived do not go away.
  have hback : ∀ d d' l, StepOf (server dep) d l d' → d'.task n = none ∧ OnlyRoutes d' →
      d.task n = none ∧ OnlyRoutes d := by
    rintro d d' l hl ⟨hn, hroutes⟩
    refine ⟨?_, fun i t ht => ?_⟩
    · cases ht : d.task n with
      | none => rfl
      | some t =>
          rcases hl.request n t ht with ⟨t', ht', _⟩
          rw [hn] at ht'
          exact absurd ht' (by simp only [reduceCtorEq, not_false_eq_true])
    · rcases hl.request i t ht with ⟨t', ht', hreq⟩
      rcases hroutes i t' ht' with ⟨r, hr⟩
      exact ⟨r, hreq.symm.trans hr⟩
  rcases serves_start n with ⟨c₀, hc₀, hstart⟩
  rcases simulates _ (Serves dep n) hback (Config.init boot) c₀ hstart
    (fun d d' l c _ _ hok h hl => serves_step n d d' l c hok.1 hok.2 h hl) d hd ⟨hn, hroutes⟩ with
    ⟨c, hc, h⟩
  exact ⟨c, reaches_trans hc₀ hc, h⟩

variable (dep)

/-- The application does what the server does and nothing else, with whatever
    lifespans start and stop in between: the same effects in the same order, the
    same table and cache at the same time, and the same answers. -/
theorem same_behaviour (w : World) (answers : Nat → Option (Request × Answer)) :
    (∃ c, AppReachable dep c ∧ c.shared.world = w ∧ AppState.answers c = answers) ↔
      ∃ d, Reachable dep d ∧ OnlyRoutes d ∧ d.shared.services = w ∧
        ServerState.answers d = answers := by
  constructor
  · rintro ⟨c, hc, rfl, rfl⟩
    rcases follows_of c hc with ⟨d, hd, h⟩
    refine ⟨d, hd, fun i t ht => ?_, h.shared, funext fun i => answers_matches c d i (h.task i)⟩
    have hi := h.task i
    rw [ht] at hi
    exact route_matches _ t hi
  · rintro ⟨d, hd, hroutes, rfl, rfl⟩
    rcases reaches_bounded _ d 0 (fun i _ => rfl) hd with ⟨n, hn⟩
    rcases serves_of d hd n (hn n (le_refl n)) hroutes with ⟨c, hc, h⟩
    refine ⟨c, hc, h.shared.services.symm, funext fun i => ?_⟩
    by_cases hi : i = n
    -- The lifespan is not a request of the server.
    · subst hi
      rcases (h.task i).1 rfl with ⟨p, hp⟩
      rw [AppState.answers, ServerState.answers, hp, hn i (le_refl i)]
    · exact (answers_mirrors d c i ((h.task i).2 hi)).symm

end KingPi
