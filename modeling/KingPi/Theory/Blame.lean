import KingPi.Theory.Caching
import KingPi.Theory.Packages

/-!
# Whose Mistake It Was

The two routes that fetch metadata turn what went wrong into a status by the
class of the exception. 400 and 404 say that the client made a mistake, 502
and 504 that PyPI did. The clause for 400 catches `ValueError`, which is what
the guard raises for a bad name. It is also a superclass of what
`response.json()` raises for a body that is not JSON, and of what pydantic
raises for a response model that cannot be built. So a client that asked for a
perfectly good name is told that its request was bad when PyPI sends something
odd.

Not everything odd ends so. An `info` that is no dictionary is a validation
error, but a document or a `releases` that is no dictionary has no `get` or no
`keys`, and an `AttributeError` is nobody's `ValueError`. And `post_event` does
not look into the document at all. `blame_iff` says for both routes, and for
everything PyPI can send, when an answer blames the right one.

## Main definitions

* `HasShape`: The documents `get_package` can make a summary of.
* `InfoIllTyped`: The documents it fails on with a `ValueError`.
* `AnsweredTo`: A request was answered, after this reply from PyPI.
* `FairAnswer`: An answer blames the client only for its own mistakes.
* `BlamesFairly`: All answers to a request after a reply do.
* `Misread`: The replies that are taken for a `ValueError`.
* `StatusFrom`: The ways the status of an answer can come about.

## Theorems

* `buildSummary_error`: How building a summary fails.
* `statusFrom_post`, `statusFrom_get`: Where the status of an answer comes
  from.
* `blame_iff`: When the blame is fair.
* `blame_misplaced`: A good name that is answered 400.
-/

namespace KingPi

open Async Prog

variable (dep : Deployment)

/-- The documents `get_package` can make a summary of: a dictionary in which
    `info` and `releases` are dictionaries or missing. -/
def HasShape (data : Json) : Prop :=
  ∃ items info releases, data = .object items ∧
    (items.lookup "info".toList).getD (.object []) = .object info ∧
    (items.lookup "releases".toList).getD (.object []) = .object releases

/-- The documents in which `info` is no dictionary, and nothing else is amiss. -/
def InfoIllTyped (data : Json) : Prop :=
  ∃ items releases, data = .object items ∧
    (∀ info, (items.lookup "info".toList).getD (.object []) ≠ .object info) ∧
    (items.lookup "releases".toList).getD (.object []) = .object releases

/-- A request was answered without help from the cache, and if it asked PyPI
    about the name, it got this reply. -/
structure AnsweredTo (q : Request) (name : Str) (reply : Except Exc HttpResponse)
    (c : ServerState) (i : Nat) (resp : Response) : Prop where
  reachable : Reachable dep c
  answered : c.task i = some (.answered q (.ok (.http resp)))
  noEntry : ∀ value time, Obs.looked i (cacheKey name) (some value) time ∉ c.shared.trace
  replied : ∀ r, Obs.upstream i (packageUrl name) r ∈ c.shared.trace → r = reply

/-- An answer blames the client only for its own mistakes: it is a 400 only if
    the guard rejects the name, a 404 only if PyPI answered 404 to the request,
    and not a 4xx when PyPI sent a document that is not JSON or has not the
    shape. -/
structure FairAnswer (name : Str) (i : Nat) (tr : List Obs) (resp : Response) : Prop where
  badRequest : resp.statusCode = 400 → isValidPackage name = false
  notFound : resp.statusCode = 404 → ∃ response,
    Obs.upstream i (packageUrl name) (.ok response) ∈ tr ∧ response.statusCode = 404
  unusable : ∀ response, Obs.upstream i (packageUrl name) (.ok response) ∈ tr →
    response.statusCode = 200 → (∀ data, response.body = some data → ¬ HasShape data) →
    resp.statusCode < 400 ∨ 500 ≤ resp.statusCode

/-- Every answer to a request after a reply from PyPI is fair, in every run. -/
def BlamesFairly (q : Request) (name : Str) (reply : Except Exc HttpResponse) : Prop :=
  ∀ c i resp, AnsweredTo dep q name reply c i resp → FairAnswer name i c.shared.trace resp

/-- A reply that `response.json()` cannot read, or whose document is one of
    these. -/
def Misread (wrong : Json → Prop) (reply : Except Exc HttpResponse) : Prop :=
  ∃ response, reply = .ok response ∧ response.statusCode = 200 ∧
    (response.body = none ∨ ∃ data, response.body = some data ∧ wrong data)

/-- Where the status of an answer comes from: the guard, a fetch that failed, a
    document that was used, or a document that was taken for a `ValueError`. -/
inductive StatusFrom (wrong : Json → Prop) (name : Str) (reply : Except Exc HttpResponse) :
    Nat → Prop where
  | rejected : isValidPackage name = false → StatusFrom wrong name reply 400
  | failed (exc : Exc) : isValidPackage name = true → IsReply reply →
      directFetch name reply = .error exc → StatusFrom wrong name reply (fetchStatus exc)
  | used (data : Json) (status : Nat) : isValidPackage name = true → reply = found data →
      status ∈ [200, 201, 500] → StatusFrom wrong name reply status
  | wrong (data : Json) : isValidPackage name = true → reply = found data → wrong data →
      StatusFrom wrong name reply 400

section Summary

/-- How building a summary fails. A document or a `releases` that is no
    dictionary is noticed before the model is built. -/
theorem buildSummary_error (name : Str) (data : Json)
    (events : List (EventType × PackageEventStats)) (exc : Exc)
    (h : buildSummary name data events = .error exc) :
    exc = .attributeError ∨ exc = .validationError ∧ InfoIllTyped data := by
  unfold buildSummary Json.getOrEmpty at h
  cases data with
  | object items =>
      simp only [Bind.bind, Except.bind] at h
      cases hrel : (items.lookup "releases".toList).getD (.object []) with
      | object releases =>
          simp only [hrel, Json.keys] at h
          cases hinfo : (items.lookup "info".toList).getD (.object []) with
          | object info =>
              rw [hinfo] at h
              exact absurd h (by simp only [reduceCtorEq, not_false_eq_true])
          | _ =>
              rw [hinfo] at h
              refine Or.inr ⟨(Except.error.inj h).symm, items, releases, rfl, fun info => ?_, hrel⟩
              rw [hinfo]
              simp only [ne_eq, reduceCtorEq, not_false_eq_true]
      | _ =>
          simp only [hrel, Json.keys] at h
          exact Or.inl (Except.error.inj h).symm
  | _ => exact Or.inl (Except.error.inj h).symm

theorem buildSummary_illTyped (name : Str) (data : Json)
    (events : List (EventType × PackageEventStats)) (h : InfoIllTyped data) :
    buildSummary name data events = .error .validationError := by
  rcases h with ⟨items, releases, rfl, hinfo, hrel⟩
  unfold buildSummary Json.getOrEmpty
  simp only [Bind.bind, Except.bind, hrel, Json.keys]

end Summary

section Status

/-- Without an entry in the cache, a fetch is rejected by the guard or ends as
    PyPI's reply has it. -/
theorem fetched_cold (i : Nat) (p : Str) (tr : List Obs) (fr : Except Exc Json)
    (hno : ∀ value time, Obs.looked i (cacheKey p) (some value) time ∉ tr)
    (h : Fetched dep i p tr fr) :
    isValidPackage p = false ∧ fr = .error (invalidPackageName p) ∨
      ∃ reply, isValidPackage p = true ∧ IsReply reply ∧
        Obs.upstream i (packageUrl p) reply ∈ tr ∧ fr = directFetch p reply := by
  cases h with
  | rejected hp => exact Or.inl ⟨hp, rfl⟩
  | upstream reply hp hreply hmem => exact Or.inr ⟨reply, hp, hreply, hmem, rfl⟩
  | hit value time hmem _ _ => exact absurd hmem (hno value time)

/-- A route that turns a failed fetch into a status, and otherwise answers by
    the document: where its status comes from. -/
theorem statusFrom_of_fetched (wrong : Json → Prop) (i : Nat) (p : Str) (tr : List Obs)
    (reply : Except Exc HttpResponse) (fr : Except Exc Json) (status : Nat)
    (hno : ∀ value time, Obs.looked i (cacheKey p) (some value) time ∉ tr)
    (hreplied : ∀ r, Obs.upstream i (packageUrl p) r ∈ tr → r = reply)
    (hfr : Fetched dep i p tr fr) (herror : ∀ exc, fr = .error exc → status = fetchStatus exc)
    (hdata : ∀ data, fr = .ok data → status ∈ [200, 201, 500] ∨ status = 400 ∧ wrong data) :
    StatusFrom wrong p reply status ∧
      (isValidPackage p = true → Obs.upstream i (packageUrl p) reply ∈ tr) := by
  rcases fetched_cold dep i p tr fr hno hfr with ⟨hp, rfl⟩ | ⟨r, hp, hr, hmem, rfl⟩
  · -- The guard's exception ends as a 400.
    rw [herror _ rfl]
    refine ⟨.rejected hp, fun hvalid => ?_⟩
    rw [hp] at hvalid
    exact absurd hvalid Bool.false_ne_true
  · rcases hreplied r hmem with rfl
    refine ⟨?_, fun _ => hmem⟩
    cases hfetch : directFetch p r with
    | error exc =>
        rw [herror exc hfetch]
        exact .failed exc hp hr hfetch
    | ok data =>
        have hfound := directFetch_ok p r data hp hfetch
        rcases hdata data hfetch with hused | ⟨rfl, hwrong⟩
        · exact .used data status hp hfound hused
        · exact .wrong data hp hfound hwrong

/-- The status of `post_event`, which does not look into the document. -/
theorem statusFrom_post (e : EventIn) (reply : Except Exc HttpResponse) (c : ServerState)
    (i : Nat) (resp : Response)
    (h : AnsweredTo dep (.postEvent e) e.package reply c i resp) :
    StatusFrom (fun _ => False) e.package reply resp.statusCode ∧
      (isValidPackage e.package = true →
        Obs.upstream i (packageUrl e.package) reply ∈ c.shared.trace) := by
  rcases reachable_answer dep c h.reachable i _ _ h.answered with ⟨resp', fr, hr, hfr, hans⟩
  rw [← Answer.http.inj (Except.ok.inj hr)] at hans
  refine statusFrom_of_fetched dep _ i e.package _ reply fr _ h.noEntry h.replied hfr ?_ ?_
  · rintro exc rfl
    rw [hans.1]
    exact errorResponse_status _ exc (fetched_error dep i e.package _ exc hfr)
  · rintro data rfl
    rcases hans with ⟨hresp, _⟩ | hresp
    · rw [hresp]
      exact Or.inl (by decide)
    · rw [hresp]
      exact Or.inl (by decide)

/-- The status of `get_package`, which fails on some documents. -/
theorem statusFrom_get (name : Str) (reply : Except Exc HttpResponse) (c : ServerState) (i : Nat)
    (resp : Response) (h : AnsweredTo dep (.getPackage name) name reply c i resp) :
    StatusFrom InfoIllTyped name reply resp.statusCode ∧
      (isValidPackage name = true →
        Obs.upstream i (packageUrl name) reply ∈ c.shared.trace) := by
  rcases reachable_answer dep c h.reachable i _ _ h.answered with ⟨resp', fr, hr, hfr, hans⟩
  rw [← Answer.http.inj (Except.ok.inj hr)] at hans
  refine statusFrom_of_fetched dep _ i name _ reply fr _ h.noEntry h.replied hfr ?_ ?_
  · rintro exc rfl
    rw [show resp = packageError name exc from hans]
    exact errorResponse_status _ exc (fetched_error dep i name _ exc hfr)
  · rintro data rfl
    rcases hans with hresp | ⟨_, events, _, _, _, hresp⟩
    · rw [hresp]
      exact Or.inl (by decide)
    · rw [hresp]
      cases hbuild : buildSummary name data events with
      | ok s => exact Or.inl List.mem_cons_self
      | error exc =>
          -- An `AttributeError` leaves the route, a `ValidationError` does not.
          rcases buildSummary_error name data events exc hbuild with rfl | ⟨rfl, hill⟩
          · exact Or.inl (List.mem_cons_of_mem _ (List.mem_cons_of_mem _ List.mem_cons_self))
          · exact Or.inr ⟨rfl, hill⟩

/-- How PyPI's reply makes a fetch fail: on its side, with a 404, or with a body
    that is not JSON. -/
theorem failed_status (p : Str) (reply : Except Exc HttpResponse) (exc : Exc)
    (hp : isValidPackage p = true) (hreply : IsReply reply)
    (h : directFetch p reply = .error exc) :
    500 ≤ fetchStatus exc ∨
      (fetchStatus exc = 404 ∧ ∃ response, reply = .ok response ∧ response.statusCode = 404) ∨
      ∃ response, reply = .ok response ∧ response.statusCode = 200 ∧ response.body = none := by
  rcases directFetch_error_cases p reply exc hp h with hraised |
    ⟨response, hreply', ⟨h200, hbody, _⟩ | ⟨h404, rfl⟩ | rfl⟩
  · have hfault := hreply exc hraised
    cases exc with
    | timeoutException | transportError => exact Or.inl (by decide)
    | _ => exact absurd hfault (by simp only [Exc.isHttpFault, Bool.false_eq_true,
        not_false_eq_true])
  · exact Or.inr (Or.inr ⟨response, hreply', h200, hbody⟩)
  · exact Or.inr (Or.inl ⟨rfl, response, hreply', h404⟩)
  · exact Or.inl (show 500 ≤ 502 by decide)

/-- An answer that is not a 4xx blames nobody. -/
theorem fair_of_not_client (name : Str) (i : Nat) (tr : List Obs) (resp : Response)
    (h : resp.statusCode < 400 ∨ 500 ≤ resp.statusCode) : FairAnswer name i tr resp where
  badRequest := fun h400 => by omega
  notFound := fun h404 => by omega
  unusable := fun _ _ _ _ => h

/-- An answer is fair unless the reply was misread. -/
theorem fair_of_status (wrong : Json → Prop) (q : Request) (name : Str)
    (reply : Except Exc HttpResponse) (c : ServerState) (i : Nat) (resp : Response)
    (h : AnsweredTo dep q name reply c i resp)
    (hstatus : StatusFrom wrong name reply resp.statusCode ∧
      (isValidPackage name = true → Obs.upstream i (packageUrl name) reply ∈ c.shared.trace))
    (hright : ¬ (isValidPackage name = true ∧ Misread wrong reply)) :
    FairAnswer name i c.shared.trace resp := by
  rcases hstatus with ⟨hstatus, hmem⟩
  generalize hcode : resp.statusCode = code at hstatus
  cases hstatus with
  | rejected hp =>
      refine ⟨fun _ => hp, fun h404 => by omega, fun response hup _ _ => ?_⟩
      -- A name the guard rejects is not asked for.
      rcases chronicle_mem _ _ _ (reachable_inv dep c h.reachable).history hup with
        ⟨_, _, _, p, hvalid, hurl⟩
      rw [← packageUrl_inj name p hurl, hp] at hvalid
      exact absurd hvalid Bool.false_ne_true
  | used data _ hp hreply hused =>
      refine fair_of_not_client name i _ resp ?_
      simp only [List.mem_cons, List.not_mem_nil, or_false] at hused
      omega
  | wrong data hp hreply hwrong =>
      exact absurd ⟨hp, ⟨_, hreply, rfl, Or.inr ⟨data, rfl, hwrong⟩⟩⟩ hright
  | failed exc hp hisReply hfetch =>
      rcases failed_status name reply exc hp hisReply hfetch with
        hserver | ⟨hcode', response, rfl, h404⟩ | ⟨response, hreply, h200, hbody⟩
      · exact fair_of_not_client name i _ resp (Or.inr (by omega))
      · -- The reply was a 404, so it was not a 200.
        refine ⟨fun h400 => by omega, fun _ => ⟨response, hmem hp, h404⟩,
          fun response' hup h200 _ => ?_⟩
        rw [Except.ok.inj (h.replied _ hup), h404] at h200
        exact absurd h200 (by decide)
      · exact absurd ⟨hp, ⟨response, hreply, h200, Or.inl hbody⟩⟩ hright

end Status

section Misreadings

/-- What happens to a request when nothing works but PyPI, and PyPI sends a body
    that is not JSON. -/
def garbled : Eff → Fate := upstreamFate (fun _ => .ok { statusCode := 200, body := none })

/-- A fetch that runs alone, and gets a body that is not JSON. -/
theorem fetch_garbled (i : Nat) (p : Str) (w : World) (hp : isValidPackage p = true) :
    (PyPICacheClient.fetchPackageInfo dep p).solo (fun e => World.serve dep i e (garbled e)) w
      = some (.error .jsonDecodeError,
          w.log (.upstream i (packageUrl p) (.ok { statusCode := 200, body := none }))) := by
  have hget : (RedisTTLCache.get (cacheKey p)).solo
      (fun e => World.serve dep i e (garbled e)) w = some (.ok none, w) := rfl
  have hclient : (PyPIClient.fetchPackageInfo p).solo
      (fun e => World.serve dep i e (garbled e)) w = some (.error .jsonDecodeError,
        w.log (.upstream i (packageUrl p) (.ok { statusCode := 200, body := none }))) := by
    rw [PyPIClient.fetchPackageInfo_valid p hp]
    rfl
  unfold PyPICacheClient.fetchPackageInfo
  rw [bind_eq, solo_bind, hget]
  simp only [bind_eq, solo_bind, hclient]

theorem post_garbled (i : Nat) (e : EventIn) (w : World) (hp : isValidPackage e.package = true) :
    (Request.body dep (.postEvent e)).solo (fun e => World.serve dep i e (garbled e)) w
      = some (.ok (.http (postError e .jsonDecodeError)), w.log (.upstream i
          (packageUrl e.package) (.ok { statusCode := 200, body := none }))) := by
  simp only [Request.body, handle, KingPi.postEvent, bind_eq, solo_bind, solo_tryCatch,
    fetch_garbled dep i e.package w hp]
  rfl

theorem get_garbled (i : Nat) (name : Str) (w : World) (hp : isValidPackage name = true) :
    (Request.body dep (.getPackage name)).solo (fun e => World.serve dep i e (garbled e)) w
      = some (.ok (.http (packageError name .jsonDecodeError)), w.log (.upstream i
          (packageUrl name) (.ok { statusCode := 200, body := none }))) := by
  simp only [Request.body, handle, KingPi.getPackage, getPackageSummary, bind_eq, solo_bind,
    solo_tryCatch, fetch_garbled dep i name w hp]
  rfl

theorem getCounts_alone (body : Json) (i : Nat) (name : Str) (w : World) :
    ∃ counts, (PostgresEventStore.getCounts name).solo (plainServe dep body i) w
      = some (.ok counts, w.log (.selected i (.counts name))) := by
  unfold PostgresEventStore.getCounts
  rw [bind_eq, solo_bind, select_alone]
  exact ⟨_, rfl⟩

/-- The loop of a summary, running alone, only reads. -/
theorem collectStats_alone (body : Json) (i : Nat) (name : Str) (counts : List (Str × Nat))
    (types : List EventType) (w : World) (hkeys : (w.db.table.map PackageEvent.key).Nodup) :
    ∃ events w', (collectStats name counts types).solo (plainServe dep body i) w
        = some (.ok events, w') ∧
      w'.trace = w.trace ++ types.map (fun t => Obs.selected i (.last name t.value)) := by
  induction types generalizing w with
  | nil => exact ⟨[], w, rfl, (List.append_nil _).symm⟩
  | cons t types ih =>
      rcases ih (w.log (.selected i (.last name t.value))) hkeys with ⟨events, w', hrest, htrace⟩
      refine ⟨(t, { count := (counts.lookup t.value).getD 0,
                    last := (rowStats w name t.value).last }) :: events, w', ?_, ?_⟩
      · rw [collectStats, bind_eq, solo_bind, getLast_alone dep body i name t.value w hkeys]
        simp only [bind_eq, solo_bind, hrest]
        rfl
      · rw [htrace, World.log, List.map_cons, List.append_assoc]
        rfl

/-- A summary that runs alone, and gets a document whose `info` is no
    dictionary. -/
theorem get_illTyped (data : Json) (i : Nat) (name : Str) (w : World)
    (hp : isValidPackage name = true) (hill : InfoIllTyped data)
    (hkeys : (w.db.table.map PackageEvent.key).Nodup) :
    ∃ w', (Request.body dep (.getPackage name)).solo (plainServe dep data i) w
        = some (.ok (.http (packageError name .validationError)), w') ∧
      w'.trace = w.trace ++ [.upstream i (packageUrl name) (found data),
        .selected i (.counts name)] ++
          EventType.members.map (fun t => Obs.selected i (.last name t.value)) := by
  let w₁ := w.log (.upstream i (packageUrl name) (found data))
  rcases getCounts_alone dep data i name w₁ with ⟨counts, hcounts⟩
  rcases collectStats_alone dep data i name counts EventType.members
    (w₁.log (.selected i (.counts name))) hkeys with ⟨events, w', hstats, htrace⟩
  refine ⟨w', ?_, ?_⟩
  · have hsummary : (getPackageSummary dep name).solo (plainServe dep data i) w
        = some (.error .validationError, w') := by
      unfold getPackageSummary
      rw [bind_eq, solo_bind, fetch_alone dep data i name w hp]
      simp only [bind_eq, solo_bind]
      -- What was read does not matter, the document decides.
      rw [show (PostgresEventStore.getCounts name).solo (plainServe dep data i) (w.log _)
        = _ from hcounts]
      simp only [hstats, buildSummary_illTyped name data events hill]
      exact solo_fromExcept _ _ _
    simp only [Request.body, handle, KingPi.getPackage, bind_eq, solo_bind, solo_tryCatch,
      hsummary]
    rfl
  · rw [htrace]
    simp only [w₁, World.log, List.append_assoc]
    rfl

/-- A request that runs alone from the start, seen as an answered one. -/
theorem answeredTo_alone (q : Request) (name : Str) (reply : Except Exc HttpResponse)
    (fate : Eff → Fate) (resp : Response) (w : World)
    (hsolo : (Request.body dep q).solo (fun e => World.serve dep 0 e (fate e))
      (boot.log (.started 0 q)) = some (.ok (.http resp), w))
    (hno : ∀ value time, Obs.looked 0 (cacheKey name) (some value) time ∉ w.trace)
    (hreplied : ∀ r, Obs.upstream 0 (packageUrl name) r ∈ w.trace → r = reply) :
    ∃ c, AnsweredTo dep q name reply c 0 resp := by
  rcases reaches_request (server dep) 0 q fate (Config.init boot) _ _ rfl hsolo with
    ⟨c, hc, hsh, htask, _⟩
  have htrace : c.shared.trace = w.trace ++ [.answered 0 q (.ok (.http resp))] := by
    rw [hsh]
    rfl
  refine ⟨c, hc, htask, fun value time hmem => ?_, fun r hmem => ?_⟩
  · rw [htrace, List.mem_append, List.mem_singleton] at hmem
    rcases hmem with hmem | hmem
    · exact hno value time hmem
    · exact absurd hmem (by simp only [reduceCtorEq, not_false_eq_true])
  · rw [htrace, List.mem_append, List.mem_singleton] at hmem
    rcases hmem with hmem | hmem
    · exact hreplied r hmem
    · exact absurd hmem (by simp only [reduceCtorEq, not_false_eq_true])

/-- A request that got a body that is not JSON, seen as an answered one. -/
theorem answeredTo_garbled (q : Request) (name : Str) (resp : Response)
    (hsolo : (Request.body dep q).solo (fun e => World.serve dep 0 e (garbled e))
      (boot.log (.started 0 q)) = some (.ok (.http resp), (boot.log (.started 0 q)).log
        (.upstream 0 (packageUrl name) (.ok { statusCode := 200, body := none })))) :
    ∃ c, AnsweredTo dep q name (.ok { statusCode := 200, body := none }) c 0 resp := by
  refine answeredTo_alone dep q name _ garbled resp _ hsolo (fun value time hmem => ?_)
    (fun r hmem => ?_)
  · simp only [World.log, boot, List.nil_append, List.cons_append, List.mem_cons, reduceCtorEq,
      List.not_mem_nil, or_false] at hmem
  · simp only [World.log, boot, List.nil_append, List.cons_append, List.mem_cons, reduceCtorEq,
      List.not_mem_nil, or_false, false_or, Obs.upstream.injEq, true_and] at hmem
    exact hmem

theorem answeredTo_illTyped (name : Str) (data : Json) (hp : isValidPackage name = true)
    (hill : InfoIllTyped data) : ∃ c, AnsweredTo dep (.getPackage name) name (found data) c 0
      (packageError name .validationError) := by
  rcases get_illTyped dep data 0 name (boot.log (.started 0 (.getPackage name))) hp hill
    List.nodup_nil with ⟨w, hsolo, htrace⟩
  refine answeredTo_alone dep _ name _ (plainFate data) _ w hsolo (fun value time hmem => ?_)
    (fun r hmem => ?_)
  · simp only [htrace, World.log, boot, List.nil_append, List.cons_append, List.mem_cons,
      List.mem_map, reduceCtorEq, and_false, exists_false, or_self] at hmem
  · simp only [htrace, World.log, boot, List.nil_append, List.cons_append, List.mem_cons,
      List.mem_map, reduceCtorEq, and_false, exists_false, or_false, false_or, Obs.upstream.injEq,
      true_and] at hmem
    exact hmem

/-- A good name that was answered 400 was not answered fairly. -/
theorem not_fair (q : Request) (name : Str) (reply : Except Exc HttpResponse) (c : ServerState)
    (i : Nat) (resp : Response) (hp : isValidPackage name = true) (h400 : resp.statusCode = 400)
    (h : AnsweredTo dep q name reply c i resp) : ¬ BlamesFairly dep q name reply := by
  intro hfair
  have hbad := (hfair c i resp h).badRequest h400
  rw [hp] at hbad
  exact absurd hbad.symm Bool.false_ne_true

end Misreadings

/-- When the blame is fair. The answers to an event after a reply from PyPI
    blame the right one exactly when the guard rejects the name or the reply
    is not a 200 with a body that is not JSON. For a package, the reply may
    not be a 200 with a document whose `info` is no dictionary either, unless
    the document or its `releases` is no dictionary. -/
theorem blame_iff :
    (∀ e reply, BlamesFairly dep (.postEvent e) e.package reply ↔
      ¬ (isValidPackage e.package = true ∧ reply = .ok { statusCode := 200, body := none })) ∧
    ∀ name reply, BlamesFairly dep (.getPackage name) name reply ↔
      ¬ (isValidPackage name = true ∧ (reply = .ok { statusCode := 200, body := none } ∨
        ∃ data, InfoIllTyped data ∧ reply = .ok { statusCode := 200, body := some data })) := by
  refine ⟨fun e reply => ⟨fun hfair => ?_, fun hright c i resp h => ?_⟩,
    fun name reply => ⟨fun hfair => ?_, fun hright c i resp h => ?_⟩⟩
  -- A misread reply has a run in which the request is alone with it; any other
  -- reply leads to a status that says who made the mistake.
  · rintro ⟨hp, rfl⟩
    rcases answeredTo_garbled dep _ _ _ (post_garbled dep 0 e _ hp) with ⟨c, hc⟩
    exact not_fair dep _ _ _ c 0 _ hp rfl hc hfair
  · refine fair_of_status dep _ _ _ reply c i resp h (statusFrom_post dep e reply c i resp h) ?_
    rintro ⟨hp, ⟨status, body⟩, rfl, rfl, rfl | ⟨_, _, hfalse⟩⟩
    · exact hright ⟨hp, rfl⟩
    · exact hfalse
  · rintro ⟨hp, rfl | ⟨data, hill, rfl⟩⟩
    · rcases answeredTo_garbled dep _ _ _ (get_garbled dep 0 name _ hp) with ⟨c, hc⟩
      exact not_fair dep _ _ _ c 0 _ hp rfl hc hfair
    · rcases answeredTo_illTyped dep name data hp hill with ⟨c, hc⟩
      exact not_fair dep _ _ _ c 0 _ hp rfl hc hfair
  · refine fair_of_status dep _ _ _ reply c i resp h (statusFrom_get dep name reply c i resp h) ?_
    rintro ⟨hp, ⟨status, body⟩, rfl, rfl, rfl | ⟨data, rfl, hill⟩⟩
    · exact hright ⟨hp, Or.inl rfl⟩
    · exact hright ⟨hp, Or.inr ⟨data, hill, rfl⟩⟩

/-- A good name that is answered 400, by both routes, because PyPI sent a body
    that is not JSON. -/
theorem blame_misplaced : isValidPackage "numpy".toList = true ∧
    (∃ c, AnsweredTo utcDeployment (.getPackage "numpy".toList) "numpy".toList
      (.ok { statusCode := 200, body := none }) c 0
      { statusCode := 400, body := .detail [.library] }) ∧
    (∃ c, AnsweredTo utcDeployment (.postEvent (numpyInstall 0)) "numpy".toList
      (.ok { statusCode := 200, body := none }) c 0
      { statusCode := 400, body := .detail [.library] }) ∧
    ¬ BlamesFairly utcDeployment (.getPackage "numpy".toList) "numpy".toList
      (.ok { statusCode := 200, body := none }) := by
  have hp : isValidPackage "numpy".toList = true := by decide
  rcases answeredTo_garbled utcDeployment _ _ _ (get_garbled utcDeployment 0 _ _ hp) with ⟨c, hc⟩
  rcases answeredTo_garbled utcDeployment _ _ _
    (post_garbled utcDeployment 0 (numpyInstall 0) _ hp) with ⟨d, hd⟩
  exact ⟨hp, ⟨c, hc⟩, ⟨d, hd⟩, not_fair utcDeployment _ _ _ c 0 _ hp rfl hc⟩

end KingPi
