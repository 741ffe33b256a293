import KingPi.Theory.Table
import KingPi.Async.Chronicle

/-!
# Where Records Come From

The meaning of a trace: for each kind of record, what the trace must hold
already when the record is made. A write to the cache needs an upstream
answer whose body it stores; a hit needs a write that is not too old; a commit
needs a request to record the event, and PyPI's word that the package exists;
an answer needs everything the route did on the way to it.

These are the statements the invariant of the server carries. They speak of
the past only, so they survive whatever the other requests do, which is what
the lemmas about prefixes at the end of each section say.

A summary and a read of the store report the table at the moment of their
`SELECT`s. `ReadAt` names such a moment by the trace up to it, and the
values reported are then functions of that trace.

## Main definitions

* `Confirmed`: PyPI has confirmed a package.
* `WrittenFrom`: A value in the cache is the body of an upstream answer.
* `Fetched`: How a fetch can end.
* `ReadAt`: A `SELECT` of a request, and the trace it saw.
* `Answers`: What an answer to a request says about the trace.
* `Obs.Justified`: What a record says about the trace before it.

## Theorems

* `fetched_ok`: A fetch that returns has confirmed the package.
* `fetched_error`: What a fetch can raise.
* `fetched_mono`, `answers_mono`: The past stays what it was.
-/

namespace KingPi

open Async

section Metadata

variable (dep : Deployment)

/-- An upstream answer of 200 with a JSON body. -/
def found (v : Json) : Except Exc HttpResponse := .ok { statusCode := 200, body := some v }

/-- What can come back from the HTTP client: a response, or one of the
    exceptions it raises. -/
def IsReply (reply : Except Exc HttpResponse) : Prop :=
  ∀ exc, reply = .error exc → exc.isHttpFault = true

/-- PyPI has answered a request for some spelling of the package with its
    metadata. -/
def Confirmed (p : Str) (tr : List Obs) : Prop :=
  ∃ i q v, isValidPackage q = true ∧ normalizePackageName q = normalizePackageName p ∧
    Obs.upstream i (packageUrl q) (found v) ∈ tr

/-- A value is what the cache should hold under a key: the body of an upstream
    answer to a request for a name with that key. -/
def WrittenFrom (key value : Str) (tr : List Obs) : Prop :=
  ∃ i q v, isValidPackage q = true ∧ key = cacheKey q ∧ value = dep.dumps v ∧
    Obs.upstream i (packageUrl q) (found v) ∈ tr

/-- A write was still there to be read: it happened less than the time to live
    before. -/
def FreshWrite (key value : Str) (time : Nat) (tr : List Obs) : Prop :=
  ∃ i written, Obs.stored i key value written ∈ tr ∧ written ≤ time ∧
    (time : Int) < written + 1000 * dep.ttlSeconds

/-- The answers of a world in which only PyPI is there, and gives one reply. -/
def answering (reply : Except Exc HttpResponse) : (e : Eff) → Except Exc e.Reply
  | .httpGet _ => reply
  | _ => .error .osError

/-- What the uncached client makes of an upstream reply. -/
def directFetch (p : Str) (reply : Except Exc HttpResponse) : Except Exc Json :=
  (PyPIClient.fetchPackageInfo p).eval (answering reply)

/-- How a fetch through the cache can end. -/
inductive Fetched (i : Nat) (p : Str) (tr : List Obs) : Except Exc Json → Prop where
  | rejected : isValidPackage p = false → Fetched i p tr (.error (invalidPackageName p))
  | upstream (reply : Except Exc HttpResponse) : isValidPackage p = true →
      IsReply reply → Obs.upstream i (packageUrl p) reply ∈ tr →
      Fetched i p tr (directFetch p reply)
  | hit (value : Str) (time : Nat) : Obs.looked i (cacheKey p) (some value) time ∈ tr →
      FreshWrite dep (cacheKey p) value time tr → WrittenFrom dep (cacheKey p) value tr →
      Fetched i p tr (dep.jsonLoads value)

theorem confirmed_mono (p : Str) (tr tr' : List Obs) (hpre : tr <+: tr')
    (h : Confirmed p tr) : Confirmed p tr' := by
  rcases h with ⟨i, q, v, hq, hn, hmem⟩
  exact ⟨i, q, v, hq, hn, hpre.subset hmem⟩

theorem writtenFrom_mono (key value : Str) (tr tr' : List Obs) (hpre : tr <+: tr')
    (h : WrittenFrom dep key value tr) : WrittenFrom dep key value tr' := by
  rcases h with ⟨i, q, v, hq, hk, hv, hmem⟩
  exact ⟨i, q, v, hq, hk, hv, hpre.subset hmem⟩

theorem freshWrite_mono (key value : Str) (time : Nat) (tr tr' : List Obs) (hpre : tr <+: tr')
    (h : FreshWrite dep key value time tr) : FreshWrite dep key value time tr' := by
  rcases h with ⟨i, written, hmem, hle, hlt⟩
  exact ⟨i, written, hpre.subset hmem, hle, hlt⟩

theorem fetched_mono (i : Nat) (p : Str) (tr tr' : List Obs) (fr : Except Exc Json)
    (hpre : tr <+: tr') (h : Fetched dep i p tr fr) : Fetched dep i p tr' fr := by
  cases h with
  | rejected hp => exact .rejected hp
  | upstream reply hp hreply hmem => exact .upstream reply hp hreply (hpre.subset hmem)
  | hit value time hmem hfresh hfrom =>
      exact .hit value time (hpre.subset hmem) (freshWrite_mono dep _ _ _ _ _ hpre hfresh)
        (writtenFrom_mono dep _ _ _ _ hpre hfrom)

/-- Two names share a cache key exactly when they have the same normal form. -/
theorem cacheKey_inj (p q : Str) :
    cacheKey p = cacheKey q ↔ normalizePackageName p = normalizePackageName q := by
  unfold cacheKey
  exact List.append_right_inj _

theorem packageUrl_inj (p q : Str) (h : packageUrl p = packageUrl q) : p = q := by
  unfold packageUrl at h
  exact List.append_cancel_left (List.append_cancel_right h)

/-- A value the cache holds for a name confirms the package. -/
theorem confirmed_of_written (p value : Str) (tr : List Obs)
    (h : WrittenFrom dep (cacheKey p) value tr) : Confirmed p tr := by
  rcases h with ⟨i, q, v, hq, hk, _, hmem⟩
  exact ⟨i, q, v, hq, ((cacheKey_inj p q).mp hk).symm, hmem⟩

/-- The uncached client on a name it accepts, reply by reply. -/
theorem directFetch_valid (p : Str) (reply : Except Exc HttpResponse)
    (h : isValidPackage p = true) : directFetch p reply = match reply with
      | .error x => .error x
      | .ok response =>
        if response.statusCode = 200 then response.json
        else if response.statusCode = 404 then .error (.packageNotFoundError p)
        else .error (.pypiUpstreamError p response.statusCode) := by
  have hget : (Httpx.get (packageUrl p)).eval (answering reply) = reply := Prog.eval_call _ _
  rw [directFetch, PyPIClient.fetchPackageInfo_valid p h, Prog.eval_bind, hget]
  cases reply with
  | error x => rfl
  | ok response =>
      -- The status decides, in the order of the source: 200, 404, anything else.
      simp only [Except.bind]
      by_cases h200 : response.statusCode = 200
      · rw [if_pos h200, if_pos h200, Prog.eval_fromExcept]
      · rw [if_neg h200, if_neg h200]
        by_cases h404 : response.statusCode = 404
        · rw [if_pos h404, if_pos h404, Prog.eval_raise]
        · rw [if_neg h404, if_neg h404, Prog.eval_raise]

/-- The uncached client returns a value only from a 200 with that body. -/
theorem directFetch_ok (p : Str) (reply : Except Exc HttpResponse) (v : Json)
    (hp : isValidPackage p = true) (h : directFetch p reply = .ok v) : reply = found v := by
  rw [directFetch_valid p reply hp] at h
  cases reply with
  | error x => exact absurd h (by simp only [reduceCtorEq, not_false_eq_true])
  | ok response =>
      rcases response with ⟨status, body⟩
      simp only at h
      -- Only the branch of a 200 returns, and only when the body is JSON.
      by_cases h200 : status = 200
      · rw [if_pos h200, HttpResponse.json] at h
        cases body with
        | none => exact absurd h (by simp only [reduceCtorEq, not_false_eq_true])
        | some v' =>
            rw [Except.ok.inj h, h200, found]
      · rw [if_neg h200] at h
        by_cases h404 : status = 404
        · rw [if_pos h404] at h
          exact absurd h (by simp only [reduceCtorEq, not_false_eq_true])
        · rw [if_neg h404] at h
          exact absurd h (by simp only [reduceCtorEq, not_false_eq_true])

/-- A fetch that returns has confirmed the package. -/
theorem fetched_ok (i : Nat) (p : Str) (tr : List Obs) (v : Json)
    (h : Fetched dep i p tr (.ok v)) : Confirmed p tr := by
  generalize hr : Except.ok v = fr at h
  cases h with
  | rejected _ => exact absurd hr (by simp only [reduceCtorEq, not_false_eq_true])
  | upstream reply hp _ hmem =>
      rw [directFetch_ok p reply v hp hr.symm] at hmem
      exact ⟨i, p, v, hp, rfl, hmem⟩
  | hit value time _ _ hfrom => exact confirmed_of_written dep p value tr hfrom

/-- The status a route answers a failed fetch with. -/
def fetchStatus : Exc → Nat
  | .valueError _ => 400
  | .jsonDecodeError => 400
  | .packageNotFoundError _ => 404
  | .pypiUpstreamError _ _ => 502
  | .timeoutException => 504
  | _ => 500

/-- What a fetch can raise. -/
def Exc.isFetchError : Exc → Bool
  | .valueError _ => true
  | .jsonDecodeError => true
  | .packageNotFoundError _ => true
  | .pypiUpstreamError _ _ => true
  | exc => exc.isHttpFault

theorem errorResponse_status (notFound : Message) (exc : Exc) (h : exc.isFetchError = true) :
    (errorResponse (translate notFound exc)).statusCode = fetchStatus exc := by
  cases exc with
  | valueError _ | jsonDecodeError | packageNotFoundError _ | pypiUpstreamError _ _
  | timeoutException | transportError => rfl
  | _ => exact absurd h (by simp only [Exc.isFetchError, Exc.isHttpFault, Bool.false_eq_true,
      not_false_eq_true])

/-- How the uncached client fails: the call raised, or the status decided, and
    after a 200 the body. -/
theorem directFetch_error_cases (p : Str) (reply : Except Exc HttpResponse) (x : Exc)
    (hp : isValidPackage p = true) (h : directFetch p reply = .error x) :
    reply = .error x ∨ ∃ response, reply = .ok response ∧
      (response.statusCode = 200 ∧ response.body = none ∧ x = .jsonDecodeError ∨
        response.statusCode = 404 ∧ x = .packageNotFoundError p ∨
        x = .pypiUpstreamError p response.statusCode) := by
  rw [directFetch_valid p reply hp] at h
  cases reply with
  | error y =>
      rw [Except.error.inj h]
      exact Or.inl rfl
  | ok response =>
      refine Or.inr ⟨response, rfl, ?_⟩
      simp only at h
      by_cases h200 : response.statusCode = 200
      · rw [if_pos h200, HttpResponse.json] at h
        cases hbody : response.body with
        | none =>
            rw [hbody] at h
            exact Or.inl ⟨h200, rfl, (Except.error.inj h).symm⟩
        | some v =>
            rw [hbody] at h
            exact absurd h (by simp only [reduceCtorEq, not_false_eq_true])
      · rw [if_neg h200] at h
        by_cases h404 : response.statusCode = 404
        · rw [if_pos h404] at h
          exact Or.inr (Or.inl ⟨h404, (Except.error.inj h).symm⟩)
        · rw [if_neg h404] at h
          exact Or.inr (Or.inr (Except.error.inj h).symm)

theorem directFetch_error (p : Str) (reply : Except Exc HttpResponse) (x : Exc)
    (hp : isValidPackage p = true) (hreply : IsReply reply)
    (h : directFetch p reply = .error x) : x.isFetchError = true := by
  rcases directFetch_error_cases p reply x hp h with hraised |
    ⟨response, _, ⟨_, _, rfl⟩ | ⟨_, rfl⟩ | rfl⟩
  · have hx := hreply x hraised
    cases x with
    | timeoutException | transportError => rfl
    | _ => exact absurd hx (by simp only [Exc.isHttpFault, Bool.false_eq_true,
        not_false_eq_true])
  · rfl
  · rfl
  · rfl

/-- A fetch raises one of the exceptions listed. -/
theorem fetched_error (i : Nat) (p : Str) (tr : List Obs) (x : Exc)
    (h : Fetched dep i p tr (.error x)) : x.isFetchError = true := by
  generalize hr : Except.error x = fr at h
  cases h with
  | rejected _ =>
      rw [Except.error.inj hr]
      rfl
  | upstream reply hp hreply _ => exact directFetch_error p reply x hp hreply hr.symm
  -- A hit raises what `json.loads` raises.
  | hit value time _ _ _ =>
      rw [Deployment.jsonLoads] at hr
      cases hl : dep.loads value with
      | none =>
          rw [hl] at hr
          rw [Except.error.inj hr]
          rfl
      | some v =>
          rw [hl] at hr
          exact absurd hr (by simp only [reduceCtorEq, not_false_eq_true])

end Metadata

section Answers

variable (dep : Deployment)

/-- A request made a `SELECT` when the trace was `tr₀`. -/
def ReadAt (i : Nat) (q : Request) (query : Query) (tr₀ tr : List Obs) : Prop :=
  Obs.started i q ∈ tr₀ ∧ tr₀ ++ [Obs.selected i query] <+: tr

/-- The answer of a route whose database call failed. -/
def internalServerError : Response := { statusCode := 500, body := .internalServerError }

/-- The exception `post_event` turns a failed fetch into. -/
def postError (e : EventIn) (exc : Exc) : Response :=
  errorResponse (translate [.text "Package '".toList, .text e.package,
    .text "' not found on PyPI".toList] exc)

/-- The exception `get_package` turns a failed summary into. -/
def packageError (name : Str) (exc : Exc) : Response :=
  errorResponse (translate [.text "Package '".toList, .text name, .text "' not found".toList] exc)

/-- The statistics of a summary: each count is read at `tr₀`, each timestamp
    at its own later moment. -/
def StatsRead (i : Nat) (name : Str) (tr₀ tr : List Obs)
    (events : List (EventType × PackageEventStats)) : Prop :=
  ∀ item ∈ events, ∃ tr₁, tr₀ <+: tr₁ ∧
    tr₁ ++ [Obs.selected i (.last name item.1.value)] <+: tr ∧
    item.2 = { count := (statsOf dep (eventsFor name item.1.value tr₀)).count,
               last := (statsOf dep (eventsFor name item.1.value tr₁)).last }

/-- The answer of `post_event`, after a fetch that ended in `fr`. -/
def PostAnswer (i : Nat) (e : EventIn) (fr : Except Exc Json) (resp : Response)
    (tr : List Obs) : Prop :=
  match fr with
  | .error exc => resp = postError e exc ∧ commitsOf i tr = []
  | .ok _ => resp = { statusCode := 201, body := .accepted } ∧ commitsOf i tr = [e.stmt] ∨
      resp = internalServerError

/-- The answer of `get_package`, after a fetch that ended in `fr`. -/
def PackageAnswer (i : Nat) (name : Str) (fr : Except Exc Json) (resp : Response)
    (tr : List Obs) : Prop :=
  match fr with
  | .error exc => resp = packageError name exc
  | .ok data => resp = internalServerError ∨
      ∃ tr₀ events, ReadAt i (.getPackage name) (.counts name) tr₀ tr ∧
        events.map Prod.fst = EventType.members ∧ StatsRead dep i name tr₀ tr events ∧
        resp = match buildSummary name data events with
          | .ok summary => { statusCode := 200, body := .summary summary }
          | .error exc => packageError name exc

/-- What an answer to a request says about the trace. -/
def Answers (i : Nat) (tr : List Obs) : Request → Except Exc Answer → Prop
  | .fetch package, r => ∃ fr, Fetched dep i package tr fr ∧ r = fr.map .data
  | .postEvent e, r => ∃ resp fr, r = .ok (.http resp) ∧ Fetched dep i e.package tr fr ∧
      PostAnswer i e fr resp tr
  | .getPackage name, r => ∃ resp fr, r = .ok (.http resp) ∧ Fetched dep i name tr fr ∧
      PackageAnswer dep i name fr resp tr
  | .getEventTotal name t, r => r = .ok (.http internalServerError) ∨
      ∃ tr₀, ReadAt i (.getEventTotal name t) (.total name t.value) tr₀ tr ∧
        r = .ok (.http { statusCode := 200,
                         body := .total (statsOf dep (eventsFor name t.value tr₀)).count })
  | .getEventLast name t, r => r = .ok (.http internalServerError) ∨
      ∃ tr₀, ReadAt i (.getEventLast name t) (.last name t.value) tr₀ tr ∧
        r = .ok (.http { statusCode := 200,
                         body := .last (statsOf dep (eventsFor name t.value tr₀)).last })

theorem readAt_mono (i : Nat) (q : Request) (query : Query) (tr₀ tr tr' : List Obs)
    (hpre : tr <+: tr') (h : ReadAt i q query tr₀ tr) : ReadAt i q query tr₀ tr' :=
  ⟨h.1, h.2.trans hpre⟩

theorem statsRead_mono (i : Nat) (name : Str) (tr₀ tr tr' : List Obs)
    (events : List (EventType × PackageEventStats)) (hpre : tr <+: tr')
    (h : StatsRead dep i name tr₀ tr events) : StatsRead dep i name tr₀ tr' events := by
  intro item hitem
  rcases h item hitem with ⟨tr₁, h₀, h₁, hval⟩
  exact ⟨tr₁, h₀, h₁.trans hpre, hval⟩

/-- An answer stays justified as long as its request commits nothing more. -/
theorem answers_mono (i : Nat) (tr tr' : List Obs) (q : Request) (r : Except Exc Answer)
    (hpre : tr <+: tr') (hcommits : commitsOf i tr' = commitsOf i tr)
    (h : Answers dep i tr q r) : Answers dep i tr' q r := by
  cases q with
  | fetch package =>
      rcases h with ⟨fr, hfr, hr⟩
      exact ⟨fr, fetched_mono dep i package tr tr' fr hpre hfr, hr⟩
  | postEvent e =>
      rcases h with ⟨resp, fr, hr, hfr, hans⟩
      refine ⟨resp, fr, hr, fetched_mono dep i e.package tr tr' fr hpre hfr, ?_⟩
      -- The only answer that speaks of commits is the one to `post_event`.
      unfold PostAnswer at hans ⊢
      rw [hcommits]
      exact hans
  | getPackage name =>
      rcases h with ⟨resp, fr, hr, hfr, hans⟩
      refine ⟨resp, fr, hr, fetched_mono dep i name tr tr' fr hpre hfr, ?_⟩
      cases fr with
      | error exc => exact hans
      | ok data =>
          rcases hans with hresp | ⟨tr₀, events, hread, hmem, hstats, hresp⟩
          · exact Or.inl hresp
          · exact Or.inr ⟨tr₀, events, readAt_mono i _ _ tr₀ tr tr' hpre hread, hmem,
              statsRead_mono dep i name tr₀ tr tr' events hpre hstats, hresp⟩
  | getEventTotal name t =>
      rcases h with hr | ⟨tr₀, hread, hr⟩
      · exact Or.inl hr
      · exact Or.inr ⟨tr₀, readAt_mono i _ _ tr₀ tr tr' hpre hread, hr⟩
  | getEventLast name t =>
      rcases h with hr | ⟨tr₀, hread, hr⟩
      · exact Or.inl hr
      · exact Or.inr ⟨tr₀, readAt_mono i _ _ tr₀ tr tr' hpre hread, hr⟩

/-- What a record says about the trace before it. -/
def Obs.Justified (tr : List Obs) : Obs → Prop
  | .started _ _ => True
  | .answered i q r => Answers dep i tr q r
  | .upstream _ url reply => IsReply reply ∧ ∃ q, isValidPackage q = true ∧ url = packageUrl q
  | .stored _ key value _ => 0 < dep.ttlSeconds ∧ WrittenFrom dep key value tr
  | .looked _ key hit time => ∀ value, hit = some value →
      FreshWrite dep key value time tr ∧ WrittenFrom dep key value tr
  | .executed i stmt _ => ∃ e, Obs.started i (.postEvent e) ∈ tr ∧ stmt = e.stmt
  | .committed i stmt => ∃ e, Obs.started i (.postEvent e) ∈ tr ∧ stmt = e.stmt ∧
      commitsOf i tr = [] ∧ ∃ data, Fetched dep i e.package tr (.ok data)
  | .selected _ _ => True

end Answers

end KingPi
