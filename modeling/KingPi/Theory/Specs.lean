import KingPi.Theory.Invariant

/-!
# Specifications of the Services

One specification for each coroutine of the server, from the calls up to the
routes. A specification says that the coroutine keeps the invariant of the
world whatever the other requests do between its steps, and what is known of
its result and of the trace when it is done. It is written for an arbitrary
postcondition, so that the specification of a caller is put together from
those of the functions it calls, and none of them is taken apart again.

The results are gathered in `outline`, and from there on every reachable state
of the server has the invariant and every answered request has an answer that
its trace accounts for.

## Main definitions

* `SafeAt`: A coroutine of a request is safe among the others.
* `outline`: The invariant proof of the server.

## Theorems

* `safe_fetch`: The fetch through the cache.
* `safe_recordEvent`: Recording an event.
* `safe_collectStats`: The loop over the event types.
* `safe_body`: The routes.
* `reachable_inv`: The invariant holds in every reachable state.
* `reachable_answer`: Every answer is accounted for by the trace.
* `state_of_past`: A run passes through a state for every past of its trace.
-/

namespace KingPi

open Async

variable (dep : Deployment)

/-- A coroutine of request `i` keeps the invariant and ends in its
    postcondition, whatever the other requests do. -/
abbrev SafeAt (i : Nat) {α : Type} (Post : Except Exc α → World → Prop) (p : Coroutine α)
    (w : World) : Prop :=
  Safe (World.serve dep i) (WorldInv dep) (Rely i) Post p w

/-- What is known of a request before it has arrived. -/
def Fresh (i : Nat) (w : World) : Prop := commitsOf i w.trace = [] ∧ w.openBy i = []

variable {i : Nat}

section Cache

/-- `RedisTTLCache.get`: a hit is a value the cache should hold, written less
    than the time to live ago. -/
theorem safe_cacheGet (key : Str) (w : World) (Post : Except Exc (Option Str) → World → Prop)
    (hmiss : ∀ w', Rely i w w' → WorldInv dep w' → Post (.ok none) w')
    (hhit : ∀ value time w', Rely i w w' → WorldInv dep w' →
      Obs.looked i key (some value) time ∈ w'.trace →
      FreshWrite dep key value time w'.trace → WrittenFrom dep key value w'.trace →
      Post (.ok (some value)) w') :
    SafeAt dep i Post (RedisTTLCache.get key) w := by
  refine safe_tryCatch _ _ w (safe_call _ w ?_)
  intro w₁ hrely hinv o r w₂ hserve
  rcases serve_redisGet dep i key o w₁ w₂ r hserve with ⟨rfl, rfl⟩ | ⟨⟨exc, rfl, hexc⟩, rfl⟩
  · have hq : (Obs.looked i key (w₁.live key) w₁.now).commit = none := rfl
    have hrely₂ := rely_trans i _ _ _ hrely (quiet_rely i _ _ (quiet_log w₁ _ hq))
    have hinv₂ := inv_log dep w₁ (.looked i key (w₁.live key) w₁.now) hq
      (fun value hvalue => live_spec dep w₁ key value hinv hvalue) hinv
    -- The handler of the `try` is not reached: the reply is not an exception.
    refine ⟨hinv₂, ?_⟩
    cases hlive : w₁.live key with
    | none =>
        rw [hlive] at hrely₂ hinv₂
        exact hmiss _ hrely₂ hinv₂
    | some value =>
        rcases live_spec dep w₁ key value hinv hlive with ⟨hfresh, hfrom⟩
        have hpre : w₁.trace <+: (w₁.log (.looked i key (some value) w₁.now)).trace :=
          List.prefix_append _ _
        rw [hlive] at hrely₂ hinv₂
        exact hhit value w₁.now _ hrely₂ hinv₂
          (List.mem_append_right _ (List.mem_singleton.mpr rfl))
          (freshWrite_mono dep _ _ _ _ _ hpre hfresh) (writtenFrom_mono dep _ _ _ _ hpre hfrom)
  · -- `except RedisError` swallows the fault, and a fault reads as a miss.
    refine ⟨hinv, ?_⟩
    simp only [hexc, if_true]
    exact hmiss w₂ hrely hinv

/-- `RedisTTLCache.set`, given a value the cache should hold: it never raises. -/
theorem safe_cacheSet (key value : Str) (w : World) (Post : Except Exc Unit → World → Prop)
    (hfrom : WrittenFrom dep key value w.trace)
    (h : ∀ w', Rely i w w' → WorldInv dep w' → Post (.ok ()) w') :
    SafeAt dep i Post (RedisTTLCache.set key value dep.ttlSeconds) w := by
  refine safe_tryCatch _ _ w (safe_call _ w ?_)
  intro w₁ hrely hinv o r w₂ hserve
  rcases serve_redisSet dep i key value dep.ttlSeconds o w₁ w₂ r hserve with ⟨hr, hw⟩
  -- Redis may have taken the value and failed to say so, so the world is
  -- settled before the reply is.
  have hw₂ : Rely i w w₂ ∧ WorldInv dep w₂ := by
    rcases hw with rfl | ⟨httl, rfl⟩
    · exact ⟨hrely, hinv⟩
    · exact ⟨rely_trans i _ _ _ hrely (quiet_rely i _ _ (quiet_store w₁ i key value _)),
        inv_store dep w₁ i key value httl (writtenFrom_mono dep _ _ _ _ hrely.trace hfrom) hinv⟩
  refine ⟨hw₂.2, ?_⟩
  rcases hr with rfl | ⟨exc, rfl, hexc⟩
  · exact h w₂ hw₂.1 hw₂.2
  · simp only [hexc, if_true]
    exact h w₂ hw₂.1 hw₂.2

/-- `PyPIClient.fetch_package_info`: a name is rejected, or there is a request
    and what it came back with decides. -/
theorem safe_clientFetch (p : Str) (w : World)
    (Post : Except Exc Json → World → Prop)
    (hrejected : isValidPackage p = false → Post (.error (invalidPackageName p)) w)
    (hreply : ∀ reply w', isValidPackage p = true → IsReply reply → Rely i w w' →
      WorldInv dep w' → Obs.upstream i (packageUrl p) reply ∈ w'.trace →
      Post (directFetch p reply) w') :
    SafeAt dep i Post (PyPIClient.fetchPackageInfo p) w := by
  cases hp : isValidPackage p with
  | false =>
      rw [PyPIClient.fetchPackageInfo_invalid p hp]
      exact hrejected hp
  -- The request is logged with what came back, and the rest of the function
  -- computes on the reply alone, which is what `directFetch` is.
  | true =>
      rw [PyPIClient.fetchPackageInfo_valid p hp]
      refine safe_bind _ _ w (safe_call _ w ?_)
      intro w₁ hrely hinv o r w₂ hserve
      rcases serve_httpGet dep i (packageUrl p) o w₁ w₂ r hserve with ⟨hw, hr⟩
      have hq : (Obs.upstream i (packageUrl p) r).commit = none := rfl
      have hrely₂ : Rely i w w₂ := by
        rw [hw]
        exact rely_trans i _ _ _ hrely (quiet_rely i _ _ (quiet_log w₁ _ hq))
      have hinv₂ : WorldInv dep w₂ := by
        rw [hw]
        exact inv_log dep w₁ _ hq ⟨hr, p, hp, rfl⟩ hinv
      have hmem : Obs.upstream i (packageUrl p) r ∈ w₂.trace := by
        rw [hw]
        exact List.mem_append_right _ (List.mem_singleton.mpr rfl)
      have hpost := hreply r w₂ hp hr hrely₂ hinv₂ hmem
      rw [directFetch_valid p r hp] at hpost
      refine ⟨hinv₂, ?_⟩
      cases r with
      | error x => exact hpost
      | ok response =>
          simp only at hpost ⊢
          by_cases h200 : response.statusCode = 200
          · rw [if_pos h200] at hpost ⊢
            exact safe_fromExcept _ _ hpost
          · rw [if_neg h200] at hpost ⊢
            by_cases h404 : response.statusCode = 404
            · rw [if_pos h404] at hpost ⊢
              exact hpost
            · rw [if_neg h404] at hpost ⊢
              exact hpost

/-- `PyPICacheClient.fetch_package_info`. -/
theorem safe_fetch (p : Str) (w : World) (Post : Except Exc Json → World → Prop)
    (h : ∀ fr w', Rely i w w' → WorldInv dep w' → Fetched dep i p w'.trace fr → Post fr w') :
    SafeAt dep i Post (PyPICacheClient.fetchPackageInfo dep p) w := by
  refine safe_bind _ _ w (safe_cacheGet dep _ w _ ?_ ?_)
  · -- A miss: the client below, and a write of what it returned.
    intro w₁ hrely₁ hinv₁
    refine safe_bind _ _ w₁ (safe_clientFetch dep p w₁ _ ?_ ?_)
    · intro hp
      exact h _ w₁ hrely₁ hinv₁ (.rejected hp)
    · intro reply w₂ hp hisReply hrely₂ hinv₂ hmem
      have hrely := rely_trans i _ _ _ hrely₁ hrely₂
      cases hfr : directFetch p reply with
      | error x =>
          refine h _ w₂ hrely hinv₂ ?_
          rw [← hfr]
          exact .upstream reply hp hisReply hmem
      | ok data =>
          have hreply := directFetch_ok p reply data hp hfr
          -- A body was returned, so the reply was a 200 with that body, and that
          -- is the right by which it may be stored.
          rw [hreply] at hmem hisReply
          refine safe_bind _ _ w₂ (safe_cacheSet dep _ _ w₂ _ ⟨i, p, data, hp, rfl, rfl, hmem⟩ ?_)
          intro w₃ hrely₃ hinv₃
          refine h _ w₃ (rely_trans i _ _ _ hrely hrely₃) hinv₃ ?_
          rw [← hfr, hreply]
          exact .upstream (found data) hp hisReply (hrely₃.trace.subset hmem)
  · intro value time w₁ hrely₁ hinv₁ hmem hfresh hfrom
    -- A hit: `json.loads` of the stored text, and no call to PyPI.
    exact safe_fromExcept _ _ (h _ w₁ hrely₁ hinv₁ (.hit value time hmem hfresh hfrom))

end Cache

section Store

/-- A `SELECT` that returns saw the table of the moment it was served. -/
theorem safe_select (query : Query) (w : World)
    (Post : Except Exc (List PackageEvent) → World → Prop)
    (hfault : ∀ fault w', Rely i w w' → WorldInv dep w' →
      Post (.error (.dbapiError fault)) w')
    (hrows : ∀ w₀ w', w.trace <+: w₀.trace → WorldInv dep w₀ →
      w₀.trace ++ [Obs.selected i query] <+: w'.trace → Rely i w w' → WorldInv dep w' →
      Post (.ok (w₀.db.table.filter query.selects)) w') :
    SafeAt dep i Post (Session.select query) w := by
  refine safe_call _ w ?_
  intro w₁ hrely hinv o r w₂ hserve
  rcases serve_select dep i query o w₁ w₂ r hserve with ⟨rfl, rfl⟩ | ⟨⟨fault, rfl⟩, rfl⟩
  · have hq : (Obs.selected i query).commit = none := rfl
    have hinv₂ := inv_log dep w₁ (.selected i query) hq trivial hinv
    exact ⟨hinv₂, hrows w₁ _ hrely.trace hinv (List.prefix_refl _)
      (rely_trans i _ _ _ hrely (quiet_rely i _ _ (quiet_log w₁ _ hq))) hinv₂⟩
  · exact ⟨hinv, hfault fault w₂ hrely hinv⟩

/-- What the row of a pair reports is what the trace says of the pair. -/
theorem find_stats (w : World) (hinv : WorldInv dep w) (p t : Str) :
    ((Database.find w.db.table p t).map PackageEvent.stats).getD {}
      = statsOf dep (eventsFor p t w.trace) := by
  rw [hinv.store.rows p t, tally_getD]

/-- `get_total` reports the count of the moment of its `SELECT`. -/
theorem safe_getTotal (p t : Str) (w : World) (Post : Except Exc Nat → World → Prop)
    (hfault : ∀ fault w', Rely i w w' → WorldInv dep w' →
      Post (.error (.dbapiError fault)) w')
    (htotal : ∀ tr₀ w', w.trace <+: tr₀ → tr₀ ++ [Obs.selected i (.total p t)] <+: w'.trace →
      Rely i w w' → WorldInv dep w' → Post (.ok (statsOf dep (eventsFor p t tr₀)).count) w') :
    SafeAt dep i Post (PostgresEventStore.getTotal p t) w := by
  refine safe_bind _ _ w (safe_select dep _ w _ hfault ?_)
  intro w₀ w' hpre hinv₀ hsel hrely hinv
  have hpost := htotal w₀.trace w' hpre hsel hrely hinv
  refine safe_bind _ _ w' ?_
  -- `scalar_one_or_none` is the row's count or `None`, and `None` is 0.
  rw [show (Query.total p t).selects = fun r => r.hasKey p t from rfl,
    scalar_hasKey _ p t _ hinv₀.store.keys]
  rw [← find_stats dep w₀ hinv₀ p t, ← getD_count] at hpost
  exact hpost

/-- `get_last` reports the timestamp of the moment of its `SELECT`. -/
theorem safe_getLast (p t : Str) (w : World) (Post : Except Exc (Option Instant) → World → Prop)
    (hfault : ∀ fault w', Rely i w w' → WorldInv dep w' →
      Post (.error (.dbapiError fault)) w')
    (hlast : ∀ tr₀ w', w.trace <+: tr₀ → tr₀ ++ [Obs.selected i (.last p t)] <+: w'.trace →
      Rely i w w' → WorldInv dep w' → Post (.ok (statsOf dep (eventsFor p t tr₀)).last) w') :
    SafeAt dep i Post (PostgresEventStore.getLast p t) w := by
  refine safe_bind _ _ w (safe_select dep _ w _ hfault ?_)
  intro w₀ w' hpre hinv₀ hsel hrely hinv
  have hpost := hlast w₀.trace w' hpre hsel hrely hinv
  refine safe_bind _ _ w' ?_
  rw [show (Query.last p t).selects = fun r => r.hasKey p t from rfl,
    scalar_hasKey _ p t _ hinv₀.store.keys]
  rw [← find_stats dep w₀ hinv₀ p t, ← join_lastTimestamp] at hpost
  exact hpost

/-- `get_counts` reports the counts of the moment of its `SELECT`. -/
theorem safe_getCounts (p : Str) (w : World)
    (Post : Except Exc (List (Str × Nat)) → World → Prop)
    (hfault : ∀ fault w', Rely i w w' → WorldInv dep w' →
      Post (.error (.dbapiError fault)) w')
    (hcounts : ∀ tr₀ counts w', w.trace <+: tr₀ →
      tr₀ ++ [Obs.selected i (.counts p)] <+: w'.trace → Rely i w w' → WorldInv dep w' →
      (∀ t, (counts.lookup t).getD 0 = (statsOf dep (eventsFor p t tr₀)).count) →
      Post (.ok counts) w') :
    SafeAt dep i Post (PostgresEventStore.getCounts p) w := by
  refine safe_bind _ _ w (safe_select dep _ w _ hfault ?_)
  intro w₀ w' hpre hinv₀ hsel hrely hinv
  refine hcounts w₀.trace _ w' hpre hsel hrely hinv (fun t => ?_)
  rw [lookup_counts _ p t hinv₀.store.keys, ← find_stats dep w₀ hinv₀ p t]
  cases Database.find w₀.db.table p t with
  | none => rfl
  | some row => rfl

/-- `record_event` of a request that may record: it commits its own event
    once and returns, or it raises what the database did. -/
theorem safe_recordEvent (e : EventIn) (w : World) (Post : Except Exc Unit → World → Prop)
    (hstarted : Obs.started i (.postEvent e) ∈ w.trace) (hfresh : Fresh i w)
    (data : Json) (hfr : Fetched dep i e.package w.trace (.ok data))
    (hfault : ∀ fault w', w.trace <+: w'.trace → WorldInv dep w' →
      Post (.error (.dbapiError fault)) w')
    (hdone : ∀ w', w.trace <+: w'.trace → WorldInv dep w' →
      commitsOf i w'.trace = [e.stmt] → Post (.ok ()) w') :
    SafeAt dep i Post (PostgresEventStore.recordEvent e.package e.type.value e.timestamp) w := by
  refine safe_bind _ _ w (safe_call _ w ?_)
  intro w₁ hrely₁ hinv₁ o₁ r₁ w₂ hserve₁
  have hstarted₁ := hrely₁.trace.subset hstarted
  have hcommits₁ : commitsOf i w₁.trace = [] := hrely₁.commits.trans hfresh.1
  have hopen₁ : w₁.openBy i = [] := hrely₁.openBy.trans hfresh.2
  have hfr₁ := fetched_mono dep i _ _ _ _ hrely₁.trace hfr
  have hq : ∀ id, (Obs.executed i e.stmt id).commit = none := fun _ => rfl
  -- The record of the statement changes nothing but the trace.
  have hinvlog : WorldInv dep (w₁.log (.executed i e.stmt w₁.db.nextval)) :=
    inv_log dep w₁ _ (hq _) ⟨e, hstarted₁, rfl⟩ hinv₁
  have hlog := quiet_rely i _ _ (quiet_log w₁ _ (hq w₁.db.nextval))
  rcases serve_execute dep i e.stmt o₁ w₁ w₂ r₁ hserve₁ with
    ⟨rfl, hlocked, row, db, hupsert, rfl⟩ | ⟨⟨fault, rfl⟩, hw₂⟩
  · -- The statement opened a transaction, and what it is about to commit is
    -- justified already: the request came, the package was fetched, and
    -- nothing has been committed for the request so far.
    have hjust : Obs.Justified dep (w₁.log (.executed i e.stmt w₁.db.nextval)).trace
        (.committed i e.stmt) :=
      ⟨e, hlog.trace.subset hstarted₁, rfl, hlog.commits.trans hcommits₁, data,
        fetched_mono dep i _ _ _ _ hlog.trace hfr₁⟩
    have hinv₂ := inv_execute dep (w₁.log (.executed i e.stmt w₁.db.nextval)) i e.stmt row db
      hupsert hlocked hopen₁ hjust hinvlog
    rw [upsert_frame dep w₁.db db e.stmt _ hupsert] at hinv₂ ⊢
    refine ⟨hinv₂, safe_call _ _ ?_⟩
    intro w₃ hrely₃ hinv₃ o₃ r₃ w₄ hserve₃
    -- Nobody else can have touched the transaction before the `COMMIT`.
    have hopen₃ : w₃.openBy i = [⟨i, e.stmt, row⟩] := by
      rw [hrely₃.openBy]
      simp only [World.openBy, World.withDb, List.filter_cons, beq_self_eq_true, if_true]
      exact congrArg _ hopen₁
    have hpre₃ : w.trace <+: w₃.trace := (hrely₁.trace.trans hlog.trace).trans hrely₃.trace
    have hcommits₃ : commitsOf i w₃.trace = [] :=
      hrely₃.commits.trans (hlog.commits.trans hcommits₁)
    have hcommit := inv_commit dep w₃ i hinv₃
    rcases commit_eq w₃ i with ⟨hnone, _⟩ | ⟨x, l, hx, heq⟩
    · rw [hopen₃] at hnone
      exact absurd hnone (List.cons_ne_nil _ _)
    · rw [hopen₃] at hx
      have htrace : (w₃.commit i).trace = w₃.trace ++ [.committed i e.stmt] := by
        rw [heq, ← (List.cons.inj hx).1]
      have hpre₄ : w.trace <+: (w₃.commit i).trace := by
        rw [htrace]
        exact hpre₃.trans (List.prefix_append _ _)
      -- A failed `COMMIT` may have been carried out or not: the caller hears
      -- of a fault in both cases.
      rcases serve_commit dep i o₃ w₃ w₄ r₃ hserve₃ with ⟨rfl, rfl⟩ | ⟨⟨fault, rfl⟩, rfl | rfl⟩
      · refine ⟨hcommit, hdone _ hpre₄ hcommit ?_⟩
        rw [htrace, commitsOf_append, hcommits₃]
        simp only [commitsOf, List.filterMap_cons, Obs.commitOf, if_true, List.filterMap_nil,
          List.nil_append]
      · exact ⟨hcommit, hfault fault _ hpre₄ hcommit⟩
      · have hroll := inv_rollback dep w₃ i hinv₃
        exact ⟨hroll, hfault fault _ hpre₃ hroll⟩
  · -- The statement failed. It may have drawn an identifier, which the
    -- invariant does not speak of.
    have hinv₂ : WorldInv dep w₂ ∧ w.trace <+: w₂.trace := by
      rcases hw₂ with rfl | rfl
      · exact ⟨hinv₁, hrely₁.trace⟩
      · exact ⟨inv_drawn dep (w₁.log _) _ hinvlog, hrely₁.trace.trans hlog.trace⟩
    exact ⟨hinv₂.1, hfault fault w₂ hinv₂.2 hinv₂.1⟩

end Store

section Routes

/-- The loop over the event types, after the counts were read at `tr₀`. -/
theorem safe_collectStats (name : Str) (counts : List (Str × Nat)) (tr₀ : List Obs)
    (hcounts : ∀ t, (counts.lookup t).getD 0 = (statsOf dep (eventsFor name t tr₀)).count)
    (types : List EventType) (w : World) (hpre₀ : tr₀ <+: w.trace) (hinv : WorldInv dep w)
    (Post : Except Exc (List (EventType × PackageEventStats)) → World → Prop)
    (hfault : ∀ fault w', Rely i w w' → WorldInv dep w' →
      Post (.error (.dbapiError fault)) w')
    (hdone : ∀ events w', Rely i w w' → WorldInv dep w' → events.map Prod.fst = types →
      StatsRead dep i name tr₀ w'.trace events → Post (.ok events) w') :
    SafeAt dep i Post (collectStats name counts types) w := by
  induction types generalizing w Post with
  -- Induction on the types left to read. `tr₀` stays the moment of the counts,
  -- and every `get_last` has a later moment of its own.
  | nil => exact hdone [] w (rely_refl i w) hinv rfl (fun item hitem =>
      absurd hitem List.not_mem_nil)
  | cons t types ih =>
      refine safe_bind _ _ w (safe_getLast dep name t.value w _ hfault ?_)
      intro tr₁ w₁ hpre₁ hsel hrely₁ hinv₁
      refine safe_bind _ _ w₁ (ih w₁ (hpre₀.trans hrely₁.trace) hinv₁ _ ?_ ?_)
      · intro fault w₂ hrely₂ hinv₂
        exact hfault fault w₂ (rely_trans i _ _ _ hrely₁ hrely₂) hinv₂
      · intro events w₂ hrely₂ hinv₂ htypes hstats
        refine hdone _ w₂ (rely_trans i _ _ _ hrely₁ hrely₂) hinv₂ ?_ ?_
        · rw [List.map_cons, htypes]
        · intro item hitem
          rcases List.mem_cons.mp hitem with rfl | hitem
          · refine ⟨tr₁, hpre₀.trans hpre₁, hsel.trans hrely₂.trace, ?_⟩
            rw [hcounts]
          · exact hstats item hitem

/-- `post_event`, up to its answer. -/
theorem safe_postEvent (e : EventIn) (w : World) (Post : Except Exc Answer → World → Prop)
    (hstarted : Obs.started i (.postEvent e) ∈ w.trace) (hfresh : Fresh i w)
    (h : ∀ r w', Answers dep i w'.trace (.postEvent e) r → Post r w') :
    SafeAt dep i Post (Request.body dep (.postEvent e)) w := by
  refine safe_bind _ _ w (safe_tryCatch _ _ w (safe_bind _ _ w
    (safe_tryCatch _ _ w (safe_fetch dep e.package w _ ?_))))
  intro fr w₁ hrely₁ hinv₁ hfr
  cases fr with
  -- Either way out of the fetch is before `record_event`: an error leaves the
  -- request without a commit.
  | error exc =>
      exact h _ w₁ ⟨_, _, rfl, hfr, rfl, hrely₁.commits.trans hfresh.1⟩
  | ok data =>
      refine safe_bind _ _ w₁ (safe_recordEvent dep e w₁ _ (hrely₁.trace.subset hstarted)
        ⟨hrely₁.commits.trans hfresh.1, hrely₁.openBy.trans hfresh.2⟩
        data hfr ?_ ?_)
      · intro fault w₂ hpre hinv₂
        exact h _ w₂ ⟨_, _, rfl, fetched_mono dep i e.package _ _ _ hpre hfr, Or.inr rfl⟩
      · intro w₂ hpre hinv₂ hcommits
        exact h _ w₂ ⟨_, _, rfl, fetched_mono dep i e.package _ _ _ hpre hfr,
          Or.inl ⟨rfl, hcommits⟩⟩

/-- `get_package`, up to its answer. -/
theorem safe_getPackage (name : Str) (w : World) (Post : Except Exc Answer → World → Prop)
    (hstarted : Obs.started i (.getPackage name) ∈ w.trace)
    (h : ∀ r w', Answers dep i w'.trace (.getPackage name) r → Post r w') :
    SafeAt dep i Post (Request.body dep (.getPackage name)) w := by
  refine safe_bind _ _ w (safe_tryCatch _ _ w (safe_tryCatch _ _ w (safe_bind _ _ w
    (safe_bind _ _ w (safe_fetch dep name w _ ?_)))))
  intro fr w₁ hrely₁ hinv₁ hfr
  cases fr with
  -- The reads of the store come after the fetch, so an error of the fetch is the
  -- answer, and so is the first fault of a read.
  | error exc => exact h _ w₁ ⟨_, _, rfl, hfr, rfl⟩
  | ok data =>
      refine safe_bind _ _ w₁ (safe_getCounts dep name w₁ _ ?_ ?_)
      · intro fault w₂ hrely₂ hinv₂
        exact h _ w₂ ⟨_, _, rfl, fetched_mono dep i name _ _ _ hrely₂.trace hfr, Or.inl rfl⟩
      · intro tr₀ counts w₂ hpre₀ hsel hrely₂ hinv₂ hcounts
        refine safe_bind _ _ w₂ (safe_collectStats dep name counts tr₀ hcounts _ w₂
          ((List.prefix_append _ _).trans hsel) hinv₂ _ ?_ ?_)
        · intro fault w₃ hrely₃ hinv₃
          exact h _ w₃ ⟨_, _, rfl,
            fetched_mono dep i name _ _ _ (hrely₂.trace.trans hrely₃.trace) hfr, Or.inl rfl⟩
        · intro events w₃ hrely₃ hinv₃ htypes hstats
          have hread : ReadAt i (.getPackage name) (.counts name) tr₀ w₃.trace :=
            ⟨(hrely₁.trace.trans hpre₀).subset hstarted, hsel.trans hrely₃.trace⟩
          have hfr₃ := fetched_mono dep i name _ _ _ (hrely₂.trace.trans hrely₃.trace) hfr
          refine safe_fromExcept _ _ ?_
          -- All reads are done. What is left is the model's own validation.
          cases hbuild : buildSummary name data events with
          | error exc =>
              refine h _ w₃ ⟨_, _, rfl, hfr₃, Or.inr ⟨tr₀, events, hread, htypes, hstats, ?_⟩⟩
              rw [hbuild]
              rfl
          | ok summary =>
              refine h _ w₃ ⟨_, _, rfl, hfr₃, Or.inr ⟨tr₀, events, hread, htypes, hstats, ?_⟩⟩
              rw [hbuild]

/-- The entry points: each ends in an answer the trace accounts for. -/
theorem safe_body (q : Request) (w : World) (hstarted : Obs.started i q ∈ w.trace)
    (hfresh : Fresh i w) :
    SafeAt dep i (fun r w' => Answers dep i w'.trace q r) (Request.body dep q) w := by
  cases q with
  | fetch package =>
      refine safe_bind _ _ w (safe_fetch dep package w _ ?_)
      intro fr w' _ _ hfr
      cases fr with
      | error exc => exact ⟨_, hfr, rfl⟩
      | ok data => exact ⟨_, hfr, rfl⟩
  | postEvent e => exact safe_postEvent dep e w _ hstarted hfresh (fun _ _ h => h)
  | getPackage name => exact safe_getPackage dep name w _ hstarted (fun _ _ h => h)
  | getEventTotal name t =>
      refine safe_bind _ _ w (safe_tryCatch _ _ w (safe_bind _ _ w
        (safe_getTotal dep name t.value w _ ?_ ?_)))
      · intro fault w' _ _
        exact Or.inl rfl
      · intro tr₀ w' hpre hsel _ _
        exact Or.inr ⟨tr₀, ⟨hpre.subset hstarted, hsel⟩, rfl⟩
  | getEventLast name t =>
      refine safe_bind _ _ w (safe_tryCatch _ _ w (safe_bind _ _ w
        (safe_getLast dep name t.value w _ ?_ ?_)))
      · intro fault w' _ _
        exact Or.inl rfl
      · intro tr₀ w' hpre hsel _ _
        exact Or.inr ⟨tr₀, ⟨hpre.subset hstarted, hsel⟩, rfl⟩

end Routes

section Reachable

theorem started_quiet (j : Nat) (q : Request) (w : World) :
    Quiet w ((server dep).onStart j q w) :=
  quiet_log w _ rfl

theorem answered_quiet (j : Nat) (q : Request) (r : Except Exc Answer) (w : World) :
    Quiet w ((server dep).onAnswer j q r w) :=
  quiet_log w _ rfl

/-- The invariant proof of the server. -/
def outline : Outline (server dep) where
  Inv := WorldInv dep
  Rely := Rely
  Fresh := Fresh
  Post i q r w := Answers dep i w.trace q r
  rely_refl := rely_refl
  rely_trans := rely_trans
  fresh_rely _ _ _ hrely h := ⟨hrely.commits.trans h.1, hrely.openBy.trans h.2⟩
  post_rely i q r _ _ hrely h := answers_mono dep i _ _ q r hrely.trace hrely.commits h
  start_spec i q w hinv hfresh := by
    have hrely := quiet_rely i w _ (started_quiet dep i q w)
    exact ⟨inv_log dep w _ rfl trivial hinv,
      safe_body dep q _ (List.mem_append_right _ (List.mem_singleton.mpr rfl))
        ⟨hrely.commits.trans hfresh.1, hrely.openBy.trans hfresh.2⟩⟩
  start_rely i j q w _ := quiet_rely j w _ (started_quiet dep i q w)
  serve_rely i j e o w r w' hj h := serve_rely dep i j e o w r w' hj h
  answer_spec i q r w hinv hpost := by
    have hrely := quiet_rely i w _ (answered_quiet dep i q r w)
    exact ⟨inv_log dep w _ rfl hpost hinv,
      answers_mono dep i _ _ q r hrely.trace hrely.commits hpost⟩
  answer_rely i j q r w _ := quiet_rely j w _ (answered_quiet dep i q r w)
  abort_spec i w hinv := inv_rollback dep w i hinv
  abort_rely i j w hj := rollback_rely w i j hj
  env_spec a w w' ha hinv := inv_env dep a w w' ha hinv
  env_rely a j w w' ha := quiet_rely j w w' (quiet_env a w w' ha)

theorem reachable_holds (c : ServerState) (hc : Reachable dep c) : (outline dep).Holds c :=
  (outline dep).sound boot (inv_boot dep) (fun _ => ⟨rfl, rfl⟩) c hc

/-- The invariant holds in every reachable state. -/
theorem reachable_inv (c : ServerState) (hc : Reachable dep c) : WorldInv dep c.shared :=
  (reachable_holds dep c hc).1

/-- Every answer is accounted for by the trace. -/
theorem reachable_answer (c : ServerState) (hc : Reachable dep c) (j : Nat) (q : Request)
    (r : Except Exc Answer) (h : c.task j = some (.answered q r)) :
    Answers dep j c.shared.trace q r := by
  have htask := (reachable_holds dep c hc).2 j
  rw [h] at htask
  exact htask

theorem moves_extends : Moves (server dep) Extends where
  start _ _ _ := Or.inr ⟨_, rfl⟩
  serve i e o w r w' h := serve_extends dep i e o w w' r h
  answer _ _ _ _ := Or.inr ⟨_, rfl⟩
  abort _ _ := Or.inl rfl
  env a w w' h := by
    cases a with
    | tick ms => exact Or.inl (by rw [← Option.some.inj h])
    | evict key => exact Or.inl (by rw [← Option.some.inj h])

/-- The run passes through a state for every past of its trace. -/
theorem state_of_past (c : ServerState) (hc : Reachable dep c) (tr : List Obs)
    (htr : tr <+: c.shared.trace) :
    ∃ d, Reachable dep d ∧ Reaches (server dep) d c ∧ d.shared.trace = tr := by
  unfold Reachable at hc
  induction hc with
  | refl =>
      refine ⟨Config.init boot, Reaches.refl, Reaches.refl, ?_⟩
      exact (List.prefix_nil.mp htr).symm
  | step d e l hd hstep ih =>
      have hlast : ∀ x, Reaches (server dep) x d → Reaches (server dep) x e :=
        fun x hx => Reaches.step d e l hx hstep
      -- Either the past is a past of the state before, or it is all of the trace.
      have hcases : tr <+: d.shared.trace ∨ tr = e.shared.trace := by
        rcases (moves_extends dep).step d e l hstep with heq | ⟨o, heq⟩
        · rw [heq] at htr
          exact Or.inl htr
        · rw [heq] at htr ⊢
          rcases List.prefix_concat_iff.mp htr with h | h
          · exact Or.inr h
          · exact Or.inl h
      rcases hcases with h | h
      · rcases ih h with ⟨x, hx, hxd, hxtr⟩
        exact ⟨x, hx, hlast x hxd, hxtr⟩
      · exact ⟨e, Reaches.step d e l hd hstep, Reaches.refl, h.symm⟩

/-- The trace only grows. -/
theorem trace_grows (c d : ServerState) (h : Reaches (server dep) c d) :
    c.shared.trace <+: d.shared.trace := by
  induction h with
  | refl => exact List.prefix_refl _
  | step d e l _ hstep ih =>
      refine ih.trans ?_
      rcases (moves_extends dep).step d e l hstep with heq | ⟨o, heq⟩
      · rw [heq]
      · rw [heq]
        exact List.prefix_append _ _

end Reachable

end KingPi
