import KingPi.Theory.Runs

/-!
# What the Cache Lets Through

Three readings of one fact, that nothing gets into the cache but the body of
an upstream 200, stored under the normal form of the name it was asked for.

Seen from the table: an event is recorded after its package was fetched, and
a fetch that returns, from PyPI or from the cache, goes back to an answer
PyPI gave for some spelling of the name. So a row exists only for a package
PyPI has confirmed.

Seen from the cache itself: every entry is such a body, and a value a fetch
returns is the body of its own request's answer or was written less than the
time to live before it was looked up.

Seen from the caller: if PyPI's answers do not change, and do not depend on
the spelling, the cached client cannot be told from the uncached one. Redis
may fail at any call, and no failure of it is ever seen.

## Main definitions

* `Follows`: The upstream answers of a trace are given by a map.

## Theorems

* `rows_confirmed`: A row exists only for a confirmed package.
* `cache_sound`: What the cache holds, and what a fetch returns.
* `cached_eq_direct`: The cached client stands in for the uncached one.
-/

namespace KingPi

open Async

variable (dep : Deployment)

section Confirmed

/-- A package is confirmed before an event of it is committed. -/
theorem confirmed_before (w : World) (hinv : WorldInv dep w) (A : List Obs) (i : Nat)
    (stmt : Upsert) (hA : A ++ [Obs.committed i stmt] <+: w.trace) :
    Confirmed stmt.package A := by
  rcases chronicle_at _ _ A _ hinv.history hA with ⟨e, _, hstmt, _, data, hfr⟩
  rw [hstmt]
  exact fetched_ok dep i e.package A data hfr

/-- Events exist only for packages PyPI has confirmed: before an event is
    committed, some accepted spelling of its package was answered with 200 and
    a JSON body. So a package no spelling of which was ever answered like that
    has no row. -/
theorem rows_confirmed (c : ServerState) (hc : Reachable dep c) :
    (∀ A i stmt, A ++ [Obs.committed i stmt] <+: c.shared.trace → Confirmed stmt.package A) ∧
      (∀ row ∈ c.shared.db.table, Confirmed row.package c.shared.trace) ∧
      (∀ p, (∀ i q reply, isValidPackage q = true →
          normalizePackageName q = normalizePackageName p →
          Obs.upstream i (packageUrl q) reply ∈ c.shared.trace → ∀ v, reply ≠ found v) →
        ∀ row ∈ c.shared.db.table, row.package ≠ p) := by
  have hinv := reachable_inv dep c hc
  have hbefore := confirmed_before dep c.shared hinv
  have hrows : ∀ row ∈ c.shared.db.table, Confirmed row.package c.shared.trace := by
    intro row hrow
    -- A row goes back to a commit, and a commit to a confirmation.
    rcases commit_of_row dep c.shared hinv row hrow with ⟨A, i, d, hA⟩
    exact confirmed_mono _ _ _ ((List.prefix_append _ _).trans hA) (hbefore A i _ hA)
  refine ⟨hbefore, hrows, ?_⟩
  rintro p hnever row hrow rfl
  rcases hrows row hrow with ⟨i, q, v, hq, hn, hmem⟩
  exact hnever i q _ hq hn hmem v rfl

/-- With numpy posted once, numpy is confirmed. -/
theorem rows_confirmed_numpy : ∃ c, Reachable utcDeployment c ∧ c.shared.db.table ≠ [] ∧
    ∀ row ∈ c.shared.db.table, Confirmed row.package c.shared.trace := by
  rcases serial_run utcDeployment [numpyInstall 3] (by
    simp only [List.mem_singleton, forall_eq]
    decide) (by decide) with ⟨c, hc⟩
  refine ⟨c, hc.reachable, ?_, (rows_confirmed utcDeployment c hc.reachable).2.1⟩
  intro hnil
  have hrows := (reachable_inv _ c hc.reachable).store.rows "numpy".toList "install".toList
  rw [hnil, eventsFor_eq, hc.commits] at hrows
  exact absurd hrows (by decide)

end Confirmed

section Sound

/-- What the cache holds under a key. -/
theorem written_of_entry (w : World) (hinv : WorldInv dep w) (key : Str) (entry : Entry)
    (hentry : w.redis key = some entry) : WrittenFrom dep key entry.value w.trace := by
  rcases hinv.cache key entry hentry with ⟨i, time, hmem, _⟩
  rcases chronicle_mem _ _ _ hinv.history hmem with ⟨A, hA, _, hfrom⟩
  exact writtenFrom_mono dep _ _ _ _ ((List.prefix_append _ _).trans hA) hfrom

/-- A hit, seen from the moment it was made. -/
theorem looked_before (w : World) (hinv : WorldInv dep w) (i : Nat) (key value : Str) (time : Nat)
    (hmem : Obs.looked i key (some value) time ∈ w.trace) :
    ∃ A, A ++ [Obs.looked i key (some value) time] <+: w.trace ∧
      FreshWrite dep key value time A ∧ WrittenFrom dep key value A := by
  rcases chronicle_mem _ _ _ hinv.history hmem with ⟨A, hA, hjust⟩
  exact ⟨A, hA, hjust value rfl⟩

/-- The cache is never poisoned and never serves expired data. Every entry is
    the encoding of the body of an upstream 200 for a name with that key, and
    a fetch returns the body of its own request's answer, or one of that kind
    whose write took effect less than the time to live before the lookup. -/
theorem cache_sound (c : ServerState) (hc : Reachable dep c)
    (hjson : ∀ i url v, Obs.upstream i url (found v) ∈ c.shared.trace →
      dep.loads (dep.dumps v) = some v) :
    (∀ key entry, c.shared.redis key = some entry → ∃ i q v, isValidPackage q = true ∧
        key = "pypi:package:".toList ++ normalizePackageName q ∧ entry.value = dep.dumps v ∧
        Obs.upstream i (packageUrl q) (found v) ∈ c.shared.trace) ∧
      (∀ i p v, c.task i = some (.answered (.fetch p) (.ok (.data v))) →
        Obs.upstream i (packageUrl p) (found v) ∈ c.shared.trace ∨
        ∃ A value time j q, A ++ [Obs.looked i (cacheKey p) (some value) time] <+: c.shared.trace ∧
          FreshWrite dep (cacheKey p) value time A ∧ value = dep.dumps v ∧
          isValidPackage q = true ∧ normalizePackageName q = normalizePackageName p ∧
          Obs.upstream j (packageUrl q) (found v) ∈ A) := by
  have hinv := reachable_inv dep c hc
  refine ⟨fun key entry hentry => written_of_entry dep c.shared hinv key entry hentry, ?_⟩
  intro i p v htask
  rcases reachable_answer dep c hc i _ _ htask with ⟨fr, hfr, hr⟩
  -- A value was returned, so the fetch did not raise.
  have hfrv : fr = .ok v := by
    cases fr with
    | error x => exact absurd hr (by simp only [Except.map, reduceCtorEq, not_false_eq_true])
    | ok v' => rw [Answer.data.inj (Except.ok.inj hr)]
  cases hfr with
  | rejected _ => exact absurd hfrv (by simp only [reduceCtorEq, not_false_eq_true])
  | upstream reply hp _ hmem =>
      rw [directFetch_ok p reply v hp hfrv] at hmem
      exact Or.inl hmem
  | hit value time hmem _ _ =>
      rcases looked_before dep c.shared hinv i _ value time hmem with
        ⟨A, hA, hfresh, j, q, v', hq, hkey, hvalue, hup⟩
      have hup' := ((List.prefix_append _ _).trans hA).subset hup
      -- What is decoded is what was encoded.
      have hv : v' = v := by
        rw [hvalue, Deployment.jsonLoads, hjson j _ v' hup'] at hfrv
        exact Except.ok.inj hfrv
      rw [hv] at hvalue hup
      exact Or.inr ⟨A, value, time, j, q, hA, hfresh, hvalue, hq,
        ((cacheKey_inj p q).mp hkey).symm, hup⟩

/-- A fetch of "Kivy" served from what a fetch of "kivy" stored. -/
theorem cache_sound_kivy : ∃ c, Reachable utcDeployment c ∧
    c.task 1 = some (.answered (.fetch "Kivy".toList) (.ok (.data (.object [])))) ∧
    ∃ j q, normalizePackageName q = normalizePackageName "Kivy".toList ∧
      Obs.upstream j (packageUrl q) (found (.object [])) ∈ c.shared.trace := by
  rcases warm_run utcDeployment (.object []) "kivy".toList "Kivy".toList (by decide) (by decide)
    (by decide) with ⟨c, hc, htrace, _, htask, _⟩
  refine ⟨c, hc, htask, ?_⟩
  have hjson : ∀ i url v, Obs.upstream i url (found v) ∈ c.shared.trace →
      utcDeployment.loads (utcDeployment.dumps v) = some v := by
    intro i url v hmem
    simp only [htrace, warmTrace, List.mem_cons, reduceCtorEq, List.not_mem_nil, or_false,
      false_or, Obs.upstream.injEq, found, Except.ok.injEq, HttpResponse.mk.injEq,
      Option.some.injEq, true_and] at hmem
    rw [hmem.2.2]
    rfl
  rcases (cache_sound utcDeployment c hc hjson).2 1 _ _ htask with
    hmem | ⟨A, _, _, j, q, hA, _, _, _, hn, hup⟩
  · exact ⟨1, _, rfl, hmem⟩
  · exact ⟨j, q, hn, ((List.prefix_append _ _).trans hA).subset hup⟩

end Sound

section Transparent

/-- The upstream answers of a trace are given by a map from names. -/
def Follows (up : Str → Except Exc HttpResponse) (tr : List Obs) : Prop :=
  ∀ i q reply, isValidPackage q = true → Obs.upstream i (packageUrl q) reply ∈ tr → reply = up q

/-- A fetch in a world whose upstream is a map: the cached client returns or
    raises what the uncached one does. -/
theorem fetched_eq_direct (up : Str → Except Exc HttpResponse) (i : Nat) (p : Str)
    (tr : List Obs) (fr : Except Exc Json) (hfollows : Follows up tr)
    (hnorm : ∀ p q, isValidPackage p = true → isValidPackage q = true →
      normalizePackageName p = normalizePackageName q → up p = up q)
    (hjson : ∀ q v, isValidPackage q = true → up q = found v →
      dep.loads (dep.dumps v) = some v)
    (hp : isValidPackage p = true) (h : Fetched dep i p tr fr) : fr = directFetch p (up p) := by
  cases h with
  | rejected hbad =>
      rw [hp] at hbad
      exact absurd hbad (by decide)
  | upstream reply _ _ hmem => rw [hfollows i p reply hp hmem]
  | hit value time _ _ hfrom =>
      -- The hit was stored for some spelling, which has the same upstream answer.
      rcases hfrom with ⟨j, q, v, hq, hkey, rfl, hup⟩
      have hupq : up q = found v := (hfollows j q _ hq hup).symm
      have hupp : up p = found v := by
        rw [hnorm p q hp hq ((cacheKey_inj p q).mp hkey), hupq]
      rw [Deployment.jsonLoads, hjson q v hq hupq, hupp, directFetch_valid p _ hp]
      rfl

/-- The fate of every call when the upstream is a map from URLs and the rest
    fails. -/
def upstreamFate (reply : Str → Except Exc HttpResponse) : Eff → Fate
  | .redisGet _ => .fail .redisError false
  | .redisSet _ _ _ => .fail .redisError false
  | .httpGet url => match reply url with
    | .ok response => .http response
    | .error exc => .fail exc false
  | .execute _ => .fail (.dbapiError .other) false
  | .commit => .fail (.dbapiError .other) false
  | .select _ => .fail (.dbapiError .other) false

theorem upstreamFate_served (reply : Str → Except Exc HttpResponse)
    (hreply : ∀ url, IsReply (reply url)) (i : Nat) (e : Eff) (w : World) :
    ∃ rs, World.serve dep i e (upstreamFate reply e) w = some rs := by
  cases e with
  | httpGet url =>
      cases hr : reply url with
      | ok response =>
          exact ⟨(.ok response, w.log (.upstream i url (.ok response))), by
            simp only [upstreamFate, hr, World.serve]⟩
      | error exc =>
          exact ⟨(.error exc, w.log (.upstream i url (.error exc))), by
            simp only [upstreamFate, hr, World.serve, hreply url exc hr, if_true]⟩
  | _ => exact ⟨_, rfl⟩

theorem follows_log (up : Str → Except Exc HttpResponse) (w : World) (o : Obs)
    (ho : ∀ i url reply, o ≠ .upstream i url reply) (h : Follows up w.trace) :
    Follows up (w.log o).trace := by
  intro i q reply hq hmem
  rcases List.mem_append.mp hmem with hmem | hmem
  · exact h i q reply hq hmem
  · exact absurd (List.mem_singleton.mp hmem).symm (ho i _ reply)

theorem follows_served (up reply : Str → Except Exc HttpResponse)
    (hreply : ∀ q, reply (packageUrl q) = up q) (i : Nat) (e : Eff) (w w' : World)
    (r : Except Exc e.Reply) (h : World.serve dep i e (upstreamFate reply e) w = some (r, w'))
    (hw : Follows up w.trace) : Follows up w'.trace := by
  cases e with
  | httpGet url =>
      -- The reply that is logged is the one the map gives.
      have hr : r = reply url := by
        cases hru : reply url with
        | ok response =>
            simp only [upstreamFate, hru, World.serve, Option.some.injEq, Prod.mk.injEq] at h
            exact h.1.symm
        | error exc =>
            simp only [upstreamFate, hru, World.serve] at h
            exact (Prod.mk.inj (of_ite_some h).2).1.symm
      rw [(serve_httpGet dep i url _ w w' r h).1]
      intro j q reply' hq hmem
      rcases List.mem_append.mp hmem with hmem | hmem
      · exact hw j q reply' hq hmem
      · rcases Obs.upstream.inj (List.mem_singleton.mp hmem) with ⟨_, hurl, rfl⟩
        rw [hr, ← hurl, hreply]
  | redisGet key | redisSet key value ex | execute stmt | commit | select query =>
      cases h
      exact hw

/-- The cached client is a drop-in replacement for the uncached one. In every
    run in which the upstream answers by a map that does not tell spellings
    apart, whatever Redis does, a fetch of an accepted name ends as the
    uncached client would, and no failure of Redis comes out of it. A fetch
    that has been started can always be finished. -/
theorem cached_eq_direct (up : Str → Except Exc HttpResponse) (hreply : ∀ q, IsReply (up q))
    (hnorm : ∀ p q, isValidPackage p = true → isValidPackage q = true →
      normalizePackageName p = normalizePackageName q → up p = up q)
    (hjson : ∀ q v, isValidPackage q = true → up q = found v →
      dep.loads (dep.dumps v) = some v)
    (c : ServerState) (hc : Reachable dep c) (hfollows : Follows up c.shared.trace) :
    (∀ i p r, isValidPackage p = true → c.task i = some (.answered (.fetch p) r) →
        r = (directFetch p (up p)).map .data ∧ ∀ x, r = .error x → x.isRedisFault = false) ∧
      (∀ i p prog, c.task i = some (.running (.fetch p) prog) →
        ∃ d r, Reaches (server dep) c d ∧ Follows up d.shared.trace ∧
          d.task i = some (.answered (.fetch p) r)) := by
  refine ⟨?_, ?_⟩
  · intro i p r hp htask
    rcases reachable_answer dep c hc i _ _ htask with ⟨fr, hfr, hr⟩
    have heq := fetched_eq_direct dep up i p _ fr hfollows hnorm hjson hp hfr
    refine ⟨by rw [hr, heq], ?_⟩
    intro x hx
    cases fr with
    | ok v =>
        rw [hr] at hx
        exact absurd hx (by simp only [Except.map, reduceCtorEq, not_false_eq_true])
    | error y =>
        rw [hr] at hx
        -- The exceptions of a fetch are listed, and Redis's are not among them.
        have hy := fetched_error dep i p _ y hfr
        rw [← Except.error.inj hx]
        cases y with
        | redisError | osError => exact absurd hy (by decide)
        | _ => rfl
  · intro i p prog htask
    -- The map from names, as a map from URLs.
    have hinj : Function.Injective packageUrl := fun a b h => packageUrl_inj a b h
    let reply := Function.extend packageUrl up (fun _ => .error .timeoutException)
    have hup : ∀ q, reply (packageUrl q) = up q := fun q => hinj.extend_apply up _ q
    have hisReply : ∀ url, IsReply (reply url) := by
      intro url
      by_cases hurl : ∃ q, packageUrl q = url
      · rcases hurl with ⟨q, rfl⟩
        rw [hup]
        exact hreply q
      · rw [show reply url = .error .timeoutException from Function.extend_apply' _ _ _ hurl]
        intro exc hexc
        rw [← Except.error.inj hexc]
        rfl
    -- Left alone, the task runs to its end, and the upstream keeps to the map.
    rcases Prog.solo_total (fun e => World.serve dep i e (upstreamFate reply e))
      (fun e w => upstreamFate_served dep reply hisReply i e w) prog c.shared with
      ⟨⟨r, w⟩, hsolo⟩
    have hw := Prog.solo_inv _ (fun w : World => Follows up w.trace)
      (fun e w r w' h => follows_served dep up reply hup i e w w' r h) prog _ _ r hsolo hfollows
    rcases reaches_solo (server dep) i (.fetch p) (upstreamFate reply) prog c r w htask hsolo with
      ⟨d, hd, hsh, hdone, _⟩
    refine ⟨d, r, hd, ?_, hdone⟩
    rw [hsh]
    exact follows_log up w _ (by simp only [ne_eq, reduceCtorEq, not_false_eq_true,
      implies_true]) hw

/-- With PyPI answering every name alike, the hit on "Kivy" returns what PyPI
    would. -/
theorem cached_eq_direct_kivy : ∃ c r, Reachable utcDeployment c ∧
    c.task 1 = some (.answered (.fetch "Kivy".toList) r) ∧
    r = (directFetch "Kivy".toList (found (.object []))).map .data := by
  rcases warm_run utcDeployment (.object []) "kivy".toList "Kivy".toList (by decide) (by decide)
    (by decide) with ⟨c, hc, htrace, _, htask, _⟩
  refine ⟨c, _, hc, htask, ?_⟩
  refine ((cached_eq_direct utcDeployment (fun _ => found (.object [])) ?_ (fun _ _ _ _ _ => rfl)
    ?_ c hc ?_).1 1 "Kivy".toList _ (by decide) htask).1
  · intro q exc hexc
    exact absurd hexc (by simp only [found, reduceCtorEq, not_false_eq_true])
  · intro q v _ hv
    simp only [found, Except.ok.injEq, HttpResponse.mk.injEq, Option.some.injEq, true_and] at hv
    rw [← hv]
    rfl
  · intro i q reply _ hmem
    simp only [htrace, warmTrace, List.mem_cons, reduceCtorEq, List.not_mem_nil, or_false,
      false_or, Obs.upstream.injEq] at hmem
    exact hmem.2.2

end Transparent

end KingPi
