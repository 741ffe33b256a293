import KingPi.Theory.Runs

/-!
# Rejected Names and the Cache

The guard on package names sits in the inner client, behind the cache lookup.
A hit skips it. So a name the guard rejects is rejected in every state only
if its cache key is never the key of an accepted name.

For nearly all rejected names that is so: collapsing the separators and
folding case turns a bad character into nothing the guard would let through.
The one exception is the Kelvin sign, U+212A, which `str.lower` takes to the
letter k. A name with Kelvin signs in place of some of its k's is rejected by
the guard, shares its key with the name spelled properly, and gets through
once that name is cached.

`rejected_everywhere_iff` draws the line: a rejected name is rejected in every
state if and only if it stays rejected when its Kelvin signs are written as
the letter k, or nothing is ever cached because the time to live is not
positive.

## Main definitions

* `RejectedIn`: A state has turned a name away wherever it turned up.

## Theorems

* `key_rejected`: The key of a rejected name is not that of an accepted one.
* `rejected_everywhere_iff`: When the rejection does not depend on the cache.
* `kelvin_accepted`: A rejected name that gets through a warm cache.
-/

namespace KingPi

open Async

variable (dep : Deployment)

/-- The answer to a name the guard rejects. -/
def badRequest (p : Str) : Response :=
  { statusCode := 400, body := .detail (invalidPackageName p).str }

/-- A state has turned a name away wherever it turned up: every fetch of it
    raised the guard's exception, every request with it was answered 400, and
    no row has it. -/
structure RejectedIn (c : ServerState) (p : Str) : Prop where
  fetch : ∀ i r, c.task i = some (.answered (.fetch p) r) → r = .error (invalidPackageName p)
  post : ∀ i e r, e.package = p → c.task i = some (.answered (.postEvent e) r) →
    r = .ok (.http (badRequest p))
  get : ∀ i r, c.task i = some (.answered (.getPackage p) r) → r = .ok (.http (badRequest p))
  row : ∀ row ∈ c.shared.db.table, row.package ≠ p

/-- Unless the guard accepts a name with its Kelvin signs written out, the key
    of the name is not that of an accepted one. -/
theorem key_rejected (p q : Str) (hp : isValidPackage (p.map unKelvin) = false)
    (hq : isValidPackage q = true) : cacheKey p ≠ cacheKey q := by
  intro hkey
  have hnorm := (cacheKey_inj p q).mp hkey
  -- The guard judges the normal form of an accepted name as the name itself.
  have hqn : isValidPackage (normalizePackageName q) = true := by
    rw [isValidPackage_normalize, map_unKelvin_of_ascii q (isAscii_of_valid q hq)]
    exact hq
  rw [← hnorm, isValidPackage_normalize, hp] at hqn
  exact absurd hqn (by simp only [Bool.false_eq_true, not_false_eq_true])

/-- Writing the Kelvin signs out keeps the key, if it makes the name
    acceptable. -/
theorem key_unKelvin (p : Str) (h : isValidPackage (p.map unKelvin) = true) :
    cacheKey p = cacheKey (p.map unKelvin) := by
  rw [cacheKey_inj]
  have hnorm : isValidPackage (normalizePackageName p) = true := by
    rw [isValidPackage_normalize]
    exact h
  exact (normalize_map_unKelvin p (ascii_of_normalize p (isAscii_of_valid _ hnorm))).symm

/-- Where no hit is possible, a rejected name is rejected. -/
theorem fetched_rejected (i : Nat) (p : Str) (tr : List Obs) (fr : Except Exc Json)
    (hp : isValidPackage p = false)
    (hcond : dep.ttlSeconds ≤ 0 ∨ isValidPackage (p.map unKelvin) = false)
    (h : Fetched dep i p tr fr) : fr = .error (invalidPackageName p) := by
  cases h with
  | rejected _ => rfl
  | upstream reply hvalid _ _ =>
      rw [hp] at hvalid
      exact absurd hvalid (by simp only [Bool.false_eq_true, not_false_eq_true])
  | hit value time _ hfresh hfrom =>
      rcases hcond with httl | hkelvin
      · -- A write that is not older than nothing at all.
        rcases hfresh with ⟨j, written, _, hle, hlt⟩
        exact absurd hlt (by omega)
      · rcases hfrom with ⟨j, q, v, hq, hkey, _⟩
        exact absurd hkey (key_rejected p q hkelvin hq)

theorem rejectedIn_of_fetched (c : ServerState) (hc : Reachable dep c) (p : Str)
    (hfetched : ∀ i tr fr, Fetched dep i p tr fr → fr = .error (invalidPackageName p)) :
    RejectedIn c p where
  fetch := fun i r htask => by
    rcases reachable_answer dep c hc i _ _ htask with ⟨fr, hfr, hr⟩
    rw [hr, hfetched i _ fr hfr]
    rfl
  post := fun i e r he htask => by
    rcases reachable_answer dep c hc i _ _ htask with ⟨resp, fr, hr, hfr, hans⟩
    rw [he] at hfr
    -- The route turns the guard's exception into the answer.
    rw [hfetched i _ fr hfr] at hans
    rw [hr, hans.1]
    rfl
  get := fun i r htask => by
    rcases reachable_answer dep c hc i _ _ htask with ⟨resp, fr, hr, hfr, hans⟩
    rw [hfetched i _ fr hfr] at hans
    rw [hr, hans]
    rfl
  row := fun row hrow hrp => by
    have hinv := reachable_inv dep c hc
    -- A row goes back to a commit, and a commit to a fetch that returned.
    rcases commit_of_row dep c.shared hinv row hrow with ⟨A, i, d, hA⟩
    rcases chronicle_at _ _ A _ hinv.history hA with ⟨e, _, hstmt, _, data, hfr⟩
    have hep : e.package = p := by
      rw [← hrp]
      exact (Upsert.mk.inj hstmt).1.symm
    rw [hep] at hfr
    exact absurd (hfetched i A _ hfr) (by simp only [reduceCtorEq, not_false_eq_true])

/-- When the rejection of a name does not depend on the cache. A name the
    guard rejects is turned away in every reachable state exactly when the
    guard still rejects it with its Kelvin signs written as the letter k, or
    the time to live is not positive. -/
theorem rejected_everywhere_iff (p : Str) (hp : isValidPackage p = false) :
    (∀ c, Reachable dep c → RejectedIn c p) ↔
      (dep.ttlSeconds ≤ 0 ∨ isValidPackage (p.map unKelvin) = false) := by
  constructor
  · intro h
    by_contra hcond
    rw [not_or, Int.not_le, Bool.not_eq_false] at hcond
    -- The name spelled properly warms the cache.
    rcases warm_run dep .null (p.map unKelvin) p hcond.2 (key_unKelvin p hcond.2) hcond.1 with
      ⟨c, hc, _, _, htask, _⟩
    have hbad := (h c hc).fetch 1 _ htask
    rw [Deployment.jsonLoads] at hbad
    -- Whatever the hit decodes to, it is not the guard's exception.
    cases hl : dep.loads (dep.dumps .null) with
    | none =>
        rw [hl] at hbad
        exact absurd (Except.error.inj hbad) (by simp only [invalidPackageName, reduceCtorEq,
          not_false_eq_true])
    | some v =>
        rw [hl] at hbad
        exact absurd hbad (by simp only [Except.map, reduceCtorEq, not_false_eq_true])
  · intro hcond c hc
    exact rejectedIn_of_fetched dep c hc p
      (fun i tr fr hfr => fetched_rejected dep i p tr fr hp hcond hfr)

/-- A separator in front is rejected in every state. -/
theorem rejected_everywhere_iff_dash : isValidPackage "-kivy".toList = false ∧
    ∀ c, Reachable utcDeployment c → RejectedIn c "-kivy".toList :=
  ⟨by decide,
    (rejected_everywhere_iff utcDeployment "-kivy".toList (by decide)).mpr (Or.inr (by decide))⟩

/-- The name, with a Kelvin sign for its first letter. -/
def kelvinKivy : Str := "\u212Aivy".toList

/-- Two events, and a fetch. The second event and the fetch have the Kelvin
    sign, and find what the first event left in the cache. -/
def kelvinRun : List (Label Request Fate Env) :=
  [.start 0 (.postEvent (installOf "kivy".toList (by decide) (by decide))), .act 0 .ok,
    .act 0 (.http { statusCode := 200, body := some (.object []) }), .act 0 .ok, .act 0 .ok,
    .act 0 .ok, .answer 0,
    .start 1 (.postEvent (installOf kelvinKivy (by decide) (by decide))), .act 1 .ok,
    .act 1 .ok, .act 1 .ok, .answer 1,
    .start 2 (.fetch kelvinKivy), .act 2 .ok, .answer 2]

/-- A rejected name gets through a warm cache: the fetch returns, the event is
    accepted, and a row is written under the name. -/
theorem kelvin_accepted : isValidPackage kelvinKivy = false ∧ ∃ c, Reachable utcDeployment c ∧
    c.task 1 = some (.answered (.postEvent (installOf kelvinKivy (by decide) (by decide)))
      acceptedAnswer) ∧
    c.task 2 = some (.answered (.fetch kelvinKivy) (.ok (.data (.object [])))) ∧
    (c.shared.db.table.map PackageEvent.package) = ["kivy".toList, kelvinKivy] ∧
    ¬ RejectedIn c kelvinKivy := by
  refine ⟨by decide, ?_⟩
  rcases reaches_of_run_map kelvinRun (Config.init boot)
      (fun c : ServerState => (c.task 1, c.task 2, c.shared.db.table.map PackageEvent.package)) _
      (show (run (server utcDeployment) _ _).map _ = some (_, _, _) from rfl) with ⟨c, hc, hobs⟩
  have htask := (Prod.mk.inj hobs).1
  have hrest := Prod.mk.inj (Prod.mk.inj hobs).2
  refine ⟨c, hc, htask, hrest.1, hrest.2, fun hrej => ?_⟩
  exact absurd (hrej.fetch 2 _ hrest.1) (by simp only [reduceCtorEq, not_false_eq_true])

end KingPi
