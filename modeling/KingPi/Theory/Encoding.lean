import KingPi.Theory.Caching
import KingPi.Theory.RoundTrip

/-!
# The Cache Keeps Text

Redis holds text, and the cached client decodes what it finds there. With
Python's own `json` module on both sides nothing has to be assumed of that:
a body that `response.json()` returned was read by `json.loads`, so `json.loads`
reads it back from what was stored. Bodies are taken to have no unpaired
surrogate in their strings: Python would read one, and two of them next to each
other come back from the cache as one character.

So every entry decodes, to the body of an upstream 200 for its key. A fetch
that raises does so because the guard rejects the name or because of the reply
to its own request, never because of what the cache holds, and a client whose
event is refused with a 400 cannot blame the cache either.

## Main definitions

* `Deployment.withJson`: A deployment with Python's `json` module.
* `BodiesParsed`: The bodies of a trace were read by `json.loads`.

## Theorems

* `fetched_plain`: How a fetch can end.
* `cache_decodes`: What is in the cache, and what a fetch makes of it.
-/

namespace KingPi

open Async Lexeme

/-- A deployment with Python's `json` module. -/
def Deployment.withJson (dep : Deployment) (num : Numerals) : Deployment :=
  { dep with dumps := KingPi.dumps, loads := KingPi.loads num }

/-- `response.json()` is `json.loads` of the response's text, which has no
    unpaired surrogate. -/
def BodiesParsed (num : Numerals) (tr : List Obs) : Prop :=
  ∀ i url status v, Obs.upstream i url (.ok { statusCode := status, body := some v }) ∈ tr →
    ∃ s, loads num s = some v

/-- A reply that says 200 and is not JSON. -/
def garbledReply : Except Exc HttpResponse := .ok { statusCode := 200, body := none }

variable (dep : Deployment) (num : Numerals)

/-- What the cache should hold decodes to the body it was made from. -/
theorem written_decodes (key value : Str) (tr : List Obs) (hbodies : BodiesParsed num tr)
    (h : WrittenFrom (dep.withJson num) key value tr) : ∃ i q v, isValidPackage q = true ∧
      key = cacheKey q ∧ Obs.upstream i (packageUrl q) (found v) ∈ tr ∧
      loads num value = some v ∧ value.all isPrintable = true := by
  rcases h with ⟨i, q, v, hq, hkey, rfl, hmem⟩
  rcases hbodies i _ 200 v hmem with ⟨s, hs⟩
  exact ⟨i, q, v, hq, hkey, hmem, loads_of_decoded num v (loads_decoded num s v hs),
    dumps_printable num v (loads_decoded num s v hs)⟩

/-- A fetch returns what PyPI has answered for some spelling, or raises what
    the uncached client would. -/
theorem fetched_plain (i : Nat) (p : Str) (tr : List Obs) (fr : Except Exc Json)
    (hbodies : BodiesParsed num tr) (h : Fetched (dep.withJson num) i p tr fr) :
    (∃ j q v, fr = .ok v ∧ isValidPackage q = true ∧
        normalizePackageName q = normalizePackageName p ∧
        Obs.upstream j (packageUrl q) (found v) ∈ tr) ∨
      (isValidPackage p = false ∧ fr = .error (invalidPackageName p)) ∨
      ∃ reply x, isValidPackage p = true ∧ IsReply reply ∧
        Obs.upstream i (packageUrl p) reply ∈ tr ∧ directFetch p reply = .error x ∧
        fr = .error x := by
  cases h with
  | rejected hp => exact Or.inr (Or.inl ⟨hp, rfl⟩)
  | upstream reply hp hreply hmem =>
      cases hfr : directFetch p reply with
      | ok v =>
          rw [directFetch_ok p reply v hp hfr] at hmem
          exact Or.inl ⟨i, p, v, rfl, hp, rfl, hmem⟩
      | error x => exact Or.inr (Or.inr ⟨reply, x, hp, hreply, hmem, hfr, rfl⟩)
  | hit value time _ _ hfrom =>
      -- A hit decodes, so it neither raises nor returns anything else.
      rcases written_decodes dep num _ value tr hbodies hfrom with
        ⟨j, q, v, hq, hkey, hmem, hread, _⟩
      refine Or.inl ⟨j, q, v, ?_, hq, ((cacheKey_inj p q).mp hkey).symm, hmem⟩
      rw [Deployment.jsonLoads, show (dep.withJson num).loads value = some v from hread]

/-- The client errors of a fetch: the name was rejected, or the reply to its own
    request was not JSON. -/
theorem fetched_valueError (i : Nat) (p : Str) (tr : List Obs) (x : Exc)
    (hbodies : BodiesParsed num tr) (h : Fetched (dep.withJson num) i p tr (.error x))
    (hx : fetchStatus x = 400) :
    isValidPackage p = false ∨ Obs.upstream i (packageUrl p) garbledReply ∈ tr := by
  rcases fetched_plain dep num i p tr _ hbodies h with ⟨_, _, _, hfr, _⟩ | ⟨hp, _⟩ |
    ⟨reply, y, hp, hreply, hmem, hfetch, hfr⟩
  · exact absurd hfr (by simp only [reduceCtorEq, not_false_eq_true])
  · exact Or.inl hp
  · rw [Except.error.inj hfr] at hx
    rcases directFetch_error_cases p reply y hp hfetch with hraised |
      ⟨⟨status, body⟩, rfl, ⟨rfl, rfl, _⟩ | ⟨_, rfl⟩ | rfl⟩
    · -- The HTTP client's own exceptions are timeouts and the like.
      have hfault := hreply y hraised
      cases y with
      | timeoutException | transportError => exact absurd hx (by decide)
      | _ => exact absurd hfault (by simp only [Exc.isHttpFault, Bool.false_eq_true,
          not_false_eq_true])
    · exact Or.inr hmem
    · exact absurd hx (by simp only [fetchStatus, Nat.reduceEqDiff, not_false_eq_true])
    · exact absurd hx (by simp only [fetchStatus, Nat.reduceEqDiff, not_false_eq_true])

/-- With Python's `json` module, and bodies without unpaired surrogates, the
    cache is never to blame. Every entry is printable ASCII and decodes to the
    body of an upstream 200 for its key. A fetch returns such a body, or raises
    because the guard rejects the name or because of the reply to its own
    request. An event is refused with a 400 only if the guard rejects the name
    or the reply to the request's own question was a 200 that is not JSON. -/
theorem cache_decodes (c : ServerState) (hc : Reachable (dep.withJson num) c)
    (hbodies : BodiesParsed num c.shared.trace) :
    (∀ key entry, c.shared.redis key = some entry → ∃ i q v, isValidPackage q = true ∧
        key = cacheKey q ∧ Obs.upstream i (packageUrl q) (found v) ∈ c.shared.trace ∧
        loads num entry.value = some v ∧ entry.value.all isPrintable = true) ∧
      (∀ i p r, c.task i = some (.answered (.fetch p) r) →
        (∃ j q v, r = .ok (.data v) ∧ isValidPackage q = true ∧
            normalizePackageName q = normalizePackageName p ∧
            Obs.upstream j (packageUrl q) (found v) ∈ c.shared.trace) ∨
          (isValidPackage p = false ∧ r = .error (invalidPackageName p)) ∨
          ∃ reply x, isValidPackage p = true ∧ IsReply reply ∧
            Obs.upstream i (packageUrl p) reply ∈ c.shared.trace ∧
            directFetch p reply = .error x ∧ r = .error x) ∧
      ∀ i e resp, c.task i = some (.answered (.postEvent e) (.ok (.http resp))) →
        resp.statusCode = 400 → isValidPackage e.package = false ∨
          Obs.upstream i (packageUrl e.package) garbledReply ∈ c.shared.trace := by
  have hinv := reachable_inv _ c hc
  refine ⟨fun key entry hentry => ?_, fun i p r htask => ?_, fun i e resp htask h400 => ?_⟩
  · exact written_decodes dep num key _ _ hbodies
      (written_of_entry _ c.shared hinv key entry hentry)
  · rcases reachable_answer _ c hc i _ _ htask with ⟨fr, hfr, rfl⟩
    rcases fetched_plain dep num i p _ fr hbodies hfr with ⟨j, q, v, rfl, hq, hn, hmem⟩ |
      ⟨hp, rfl⟩ | ⟨reply, x, hp, hreply, hmem, hfetch, rfl⟩
    · exact Or.inl ⟨j, q, v, rfl, hq, hn, hmem⟩
    · exact Or.inr (Or.inl ⟨hp, rfl⟩)
    · exact Or.inr (Or.inr ⟨reply, x, hp, hreply, hmem, hfetch, rfl⟩)
  · rcases reachable_answer _ c hc i _ _ htask with ⟨resp', fr, hr, hfr, hans⟩
    rw [← Answer.http.inj (Except.ok.inj hr)] at hans
    cases fr with
    | ok data =>
        -- An event of a fetched package is accepted, or the database failed.
        rcases hans with ⟨rfl, _⟩ | rfl
        · exact absurd h400 (by decide)
        · exact absurd h400 (by decide)
    | error x =>
        refine fetched_valueError dep num i e.package _ x hbodies hfr ?_
        rw [← errorResponse_status _ x (fetched_error _ i _ _ x hfr)]
        rw [hans.1] at h400
        exact h400

/-- A fetch of "Kivy" decodes what a fetch of "kivy" stored, nested values,
    numbers and escaped characters included. -/
theorem cache_decodes_kivy : ∃ c entry, Reachable (utcDeployment.withJson exactNumerals) c ∧
    c.shared.redis (cacheKey "kivy".toList) = some entry ∧
    entry.value = dumps nestedBody ∧ loads exactNumerals entry.value = some nestedBody := by
  rcases warm_run (utcDeployment.withJson exactNumerals) nestedBody "kivy".toList
    "Kivy".toList (by decide) (by decide) (show (0 : Int) < 300 by decide) with
    ⟨c, hc, htrace, _, _, hentry⟩
  refine ⟨c, _, hc, hentry, rfl, ?_⟩
  have honly : ∀ i url status v,
      Obs.upstream i url (.ok { statusCode := status, body := some v }) ∈ c.shared.trace →
        v = nestedBody := by
    intro i url status v hmem
    simp only [htrace, warmTrace, List.mem_cons, reduceCtorEq, List.not_mem_nil, or_false,
      false_or, Obs.upstream.injEq, found, Except.ok.injEq, HttpResponse.mk.injEq,
      Option.some.injEq] at hmem
    exact hmem.2.2.2
  have hbodies : BodiesParsed exactNumerals c.shared.trace := by
    intro i url status v hmem
    rw [honly i url status v hmem]
    exact ⟨_, loads_of_decoded exactNumerals nestedBody decoded_nestedBody⟩
  rcases (cache_decodes utcDeployment exactNumerals c hc hbodies).1 _ _ hentry with
    ⟨_, _, v, _, _, hmem, hread, _⟩
  rw [hread, honly _ _ _ v hmem]

end KingPi
