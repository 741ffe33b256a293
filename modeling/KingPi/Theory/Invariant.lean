import KingPi.Theory.Effects

/-!
# The Invariant of the World

Three invariants, joined into one.

The trace is a chronicle: every record in it is justified by the records
before it. The cache holds only what the trace says was stored, with the
expiry that goes with it. The store holds for each pair exactly the tally of
the events the trace says were committed for it.

The third needs to know what the open transactions are about to write. A row
in an open transaction is the tally of its pair with the transaction's own
event added, and it stays so until the transaction ends, because nobody else
can commit for that pair in the meantime: the keys of the open transactions
are pairwise distinct, which is what PostgreSQL's row lock is for.

Each way a step can change the world gets one lemma that says the invariant
survives it.

## Main definitions

* `CacheInv`, `StoreInv`, `WorldInv`: The invariants.

## Theorems

* `inv_log`: A record that is justified.
* `inv_store`: A write to the cache.
* `inv_execute`: A statement that opens a transaction.
* `inv_commit`: A commit.
* `inv_rollback`: A transaction that ends without its commit.
* `inv_env`: The environment.
-/

namespace KingPi

open Async

variable (dep : Deployment)

/-- Every key in Redis was stored when the trace says so, and expires when
    its time to live has passed. -/
def CacheInv (w : World) : Prop :=
  ∀ key entry, w.redis key = some entry → ∃ i time, Obs.stored i key entry.value time ∈ w.trace ∧
    entry.expireAt = time + 1000 * dep.ttlSeconds ∧ time ≤ w.now

/-- What an open transaction is about to write, and by what right. -/
structure PendingOk (tr : List Obs) (x : Pending) : Prop where
  key : x.row.key = (x.stmt.package, x.stmt.eventType)
  stats : some x.row.stats
    = tally dep (eventsFor x.stmt.package x.stmt.eventType tr ++ [x.stmt.timestamp])
  justified : Obs.Justified dep tr (.committed x.owner x.stmt)

/-- Every row is the tally of its pair, and every open transaction is about to
    make it the next one. -/
structure StoreInv (w : World) : Prop where
  keys : (w.db.table.map PackageEvent.key).Nodup
  rows : ∀ p t, (Database.find w.db.table p t).map PackageEvent.stats
    = tally dep (eventsFor p t w.trace)
  owners : (w.db.pending.map Pending.owner).Nodup
  locks : (w.db.pending.map (fun x => x.row.key)).Nodup
  pending : ∀ x ∈ w.db.pending, PendingOk dep w.trace x

/-- The invariant of the world. -/
structure WorldInv (w : World) : Prop where
  history : Chronicle (Obs.Justified dep) w.trace
  cache : CacheInv dep w
  store : StoreInv dep w

theorem inv_boot : WorldInv dep boot where
  history := chronicle_nil _
  cache := fun _ _ h => absurd h (by simp only [boot, reduceCtorEq, not_false_eq_true])
  store :=
    { keys := List.nodup_nil
      rows := fun _ _ => rfl
      owners := List.nodup_nil
      locks := List.nodup_nil
      pending := fun _ h => absurd h List.not_mem_nil }

/-- A row reports the events of its pair. -/
theorem row_stats (w : World) (hinv : WorldInv dep w) (row : PackageEvent)
    (hrow : row ∈ w.db.table) :
    row.stats = statsOf dep (eventsFor row.package row.eventType w.trace) := by
  have hrows := hinv.store.rows row.package row.eventType
  rw [find_of_mem _ hinv.store.keys row hrow, Option.map_some] at hrows
  rw [← tally_getD, ← hrows, Option.getD_some]

/-- A row has events. -/
theorem row_events (w : World) (hinv : WorldInv dep w) (row : PackageEvent)
    (hrow : row ∈ w.db.table) : eventsFor row.package row.eventType w.trace ≠ [] := by
  intro hnil
  have hrows := hinv.store.rows row.package row.eventType
  rw [hnil, tally_nil, find_of_mem _ hinv.store.keys row hrow] at hrows
  exact absurd hrows (by simp only [Option.map_some, reduceCtorEq, not_false_eq_true])

/-- A row goes back to a commit. -/
theorem commit_of_row (w : World) (hinv : WorldInv dep w) (row : PackageEvent)
    (hrow : row ∈ w.db.table) : ∃ A i d,
      A ++ [Obs.committed i ⟨row.package, row.eventType, d⟩] <+: w.trace := by
  rcases List.exists_mem_of_ne_nil _ (row_events dep w hinv row hrow) with ⟨d, hd⟩
  rcases (mem_eventsFor _ _ _ d).mp hd with ⟨i, hi⟩
  rcases chronicle_mem _ _ _ hinv.history hi with ⟨A, hA, _⟩
  exact ⟨A, i, d, hA⟩

section Quiet

theorem cacheInv_mono (w w' : World) (hredis : w'.redis = w.redis) (htrace : w.trace <+: w'.trace)
    (hnow : w.now ≤ w'.now) (h : CacheInv dep w) : CacheInv dep w' := by
  intro key entry hentry
  rw [hredis] at hentry
  rcases h key entry hentry with ⟨i, time, hmem, hexp, hle⟩
  exact ⟨i, time, htrace.subset hmem, hexp, hle.trans hnow⟩

/-- A pending row keeps its right to be committed when other requests
    commit for other pairs. -/
theorem pendingOk_mono (tr tr' : List Obs) (x : Pending) (hpre : tr <+: tr')
    (hcommits : commitsOf x.owner tr' = commitsOf x.owner tr)
    (hevents : eventsFor x.stmt.package x.stmt.eventType tr'
      = eventsFor x.stmt.package x.stmt.eventType tr)
    (h : PendingOk dep tr x) : PendingOk dep tr' x := by
  rcases h with ⟨hkey, hstats, e, hstarted, hstmt, hnone, data, hfr⟩
  -- The tally depends on the events of the pair, the right on the commits of the
  -- owner: both are as they were.
  refine ⟨hkey, ?_, e, hpre.subset hstarted, hstmt, ?_, data,
    fetched_mono dep _ _ _ _ _ hpre hfr⟩
  · rw [hevents]
    exact hstats
  · rw [hcommits]
    exact hnone

/-- The store does not notice a quiet step. -/
theorem storeInv_quiet (w w' : World) (hq : Quiet w w') (h : StoreInv dep w) :
    StoreInv dep w' where
  keys := by
    rw [hq.table]
    exact h.keys
  rows := fun p t => by
    rw [hq.table, quiet_eventsFor p t w w' hq]
    exact h.rows p t
  owners := by
    rw [hq.pending]
    exact h.owners
  locks := by
    rw [hq.pending]
    exact h.locks
  pending := fun x hx => by
    rw [hq.pending] at hx
    have hrely := quiet_rely x.owner w w' hq
    exact pendingOk_mono dep _ _ x hrely.trace hrely.commits (quiet_eventsFor _ _ w w' hq)
      (h.pending x hx)

/-- A record that is justified, and is not a commit. -/
theorem inv_log (w : World) (o : Obs) (hq : o.commit = none)
    (hjust : o.Justified dep w.trace) (h : WorldInv dep w) : WorldInv dep (w.log o) where
  history := chronicle_concat _ _ _ h.history hjust
  cache := cacheInv_mono dep w (w.log o) rfl (List.prefix_append _ _) (Nat.le_refl _) h.cache
  store := storeInv_quiet dep w (w.log o) (quiet_log w o hq) h.store

/-- A write to the cache of what it should hold. -/
theorem inv_store (w : World) (i : Nat) (key value : Str) (httl : 0 < dep.ttlSeconds)
    (hfrom : WrittenFrom dep key value w.trace) (h : WorldInv dep w) :
    WorldInv dep (w.store i key value dep.ttlSeconds) where
  history := chronicle_concat _ _ _ h.history ⟨httl, hfrom⟩
  cache := by
    intro k entry hentry
    -- The key just written expires by the record just made, any other as before.
    by_cases hk : k = key
    · simp only [World.store, if_pos hk, Option.some.injEq] at hentry
      rw [← hentry, hk]
      exact ⟨i, w.now, List.mem_append_right _ (List.mem_singleton.mpr rfl), rfl, Nat.le_refl _⟩
    · simp only [World.store, if_neg hk] at hentry
      rcases h.cache k entry hentry with ⟨j, time, hmem, hexp, hle⟩
      exact ⟨j, time, List.mem_append_left _ hmem, hexp, hle⟩
  store := storeInv_quiet dep w _ (quiet_store w i key value dep.ttlSeconds) h.store

/-- The environment: time passes, keys are dropped. -/
theorem inv_env (a : Env) (w w' : World) (ha : World.env a w = some w') (h : WorldInv dep w) :
    WorldInv dep w' where
  history := by
    cases a with
    | tick ms =>
        rw [← Option.some.inj ha]
        exact h.history
    | evict key =>
        rw [← Option.some.inj ha]
        exact h.history
  cache := by
    cases a with
    | tick ms =>
        rw [← Option.some.inj ha]
        exact cacheInv_mono dep w _ rfl (List.prefix_refl _) (Nat.le_add_right _ _) h.cache
    | evict key =>
        rw [← Option.some.inj ha]
        intro k entry hentry
        by_cases hk : k = key
        · simp only [if_pos hk, reduceCtorEq] at hentry
        · simp only [if_neg hk] at hentry
          exact h.cache k entry hentry
  store := storeInv_quiet dep w w' (quiet_env a w w' ha) h.store

/-- A value that is alive in the cache was written less than the time to live
    ago, and is what the cache should hold. -/
theorem live_spec (w : World) (key value : Str) (h : WorldInv dep w)
    (hlive : w.live key = some value) :
    FreshWrite dep key value w.now w.trace ∧ WrittenFrom dep key value w.trace := by
  rw [World.live] at hlive
  cases hentry : w.redis key with
  | none =>
      rw [hentry] at hlive
      exact absurd hlive (by simp only [reduceCtorEq, not_false_eq_true])
  | some entry =>
      rw [hentry] at hlive
      rcases of_ite_some hlive with ⟨hlt, rfl⟩
      rcases h.cache key entry hentry with ⟨i, time, hmem, hexp, hle⟩
      rw [hexp] at hlt
      -- The record of the write carries its justification.
      rcases chronicle_mem _ _ _ h.history hmem with ⟨A, hA, _, hfrom⟩
      exact ⟨⟨i, time, hmem, hle, hlt⟩,
        writtenFrom_mono dep _ _ _ _ ((List.prefix_append _ _).trans hA) hfrom⟩

end Quiet

section Transactions

/-- Another database that differs in the sequence only. -/
theorem inv_drawn (w : World) (n : Nat) (h : WorldInv dep w) :
    WorldInv dep (w.withDb { w.db with drawn := n }) :=
  ⟨h.history, h.cache, h.store.keys, h.store.rows, h.store.owners, h.store.locks,
    h.store.pending⟩

/-- A transaction that ends without its commit. -/
theorem inv_rollback (w : World) (i : Nat) (h : WorldInv dep w) :
    WorldInv dep (w.rollback i) where
  history := h.history
  cache := h.cache
  store :=
    { keys := h.store.keys
      rows := h.store.rows
      owners := h.store.owners.sublist (List.filter_sublist.map _)
      locks := h.store.locks.sublist (List.filter_sublist.map _)
      pending := fun x hx => h.store.pending x (List.mem_filter.mp hx).1 }

theorem mem_openBy (w : World) (i : Nat) (x : Pending) :
    x ∈ w.openBy i ↔ x ∈ w.db.pending ∧ x.owner = i := by
  rw [World.openBy, List.mem_filter, beq_iff_eq]

/-- A statement that opens a transaction: it did not have to wait, so no other
    open transaction has its key. -/
theorem inv_execute (w : World) (i : Nat) (stmt : Upsert) (row : PackageEvent) (db : Database)
    (hupsert : w.db.upsert dep stmt = (.ok row, db)) (hlocked : w.db.locked i stmt = false)
    (hopen : w.openBy i = []) (hjust : Obs.Justified dep w.trace (.committed i stmt))
    (h : WorldInv dep w) :
    WorldInv dep (w.withDb { db with pending := ⟨i, stmt, row⟩ :: db.pending }) := by
  rcases upsert_spec dep w.db db stmt row _ (h.store.rows _ _) hupsert with
    ⟨hkey, hstats, rfl⟩
  -- Two things keep the keys of the open transactions distinct: the request has
  -- no other transaction, and the lock was free.
  have howner : ∀ x ∈ w.db.pending, x.owner ≠ i := by
    intro x hx hxi
    have : x ∈ w.openBy i := (mem_openBy w i x).mpr ⟨hx, hxi⟩
    rw [hopen] at this
    exact List.not_mem_nil this
  have hlock : ∀ x ∈ w.db.pending, x.row.key ≠ row.key := by
    intro x hx hxk
    rw [Database.locked, List.any_eq_false] at hlocked
    refine hlocked x hx ?_
    rw [Bool.and_eq_true, bne_iff_ne, hasKey_iff, hxk, hkey]
    exact ⟨howner x hx, rfl⟩
  refine ⟨h.history, h.cache, h.store.keys, h.store.rows, ?_, ?_, ?_⟩
  · refine List.nodup_cons.mpr ⟨fun hmem => ?_, h.store.owners⟩
    rcases List.mem_map.mp hmem with ⟨x, hx, hxi⟩
    exact howner x hx hxi
  · refine List.nodup_cons.mpr ⟨fun hmem => ?_, h.store.locks⟩
    rcases List.mem_map.mp hmem with ⟨x, hx, hxk⟩
    exact hlock x hx hxk
  · intro x hx
    rcases List.mem_cons.mp hx with rfl | hx
    · exact ⟨hkey, hstats, hjust⟩
    · exact h.store.pending x hx

theorem eventsFor_committed (p t : Str) (tr : List Obs) (i : Nat) (stmt : Upsert) :
    eventsFor p t (tr ++ [.committed i stmt]) =
      if stmt.package = p ∧ stmt.eventType = t then eventsFor p t tr ++ [stmt.timestamp]
      else eventsFor p t tr := by
  rw [eventsFor_append]
  by_cases hkey : stmt.package = p ∧ stmt.eventType = t
  · rw [if_pos hkey]
    simp only [eventsFor, List.filterMap_cons, Obs.eventFor, if_pos hkey, List.filterMap_nil]
  · rw [if_neg hkey]
    simp only [eventsFor, List.filterMap_cons, Obs.eventFor, if_neg hkey, List.filterMap_nil,
      List.append_nil]

/-- A commit makes the row of its pair the next tally, and is nobody else's
    business. -/
theorem inv_commit (w : World) (i : Nat) (h : WorldInv dep w) : WorldInv dep (w.commit i) := by
  rcases commit_eq w i with ⟨_, heq⟩ | ⟨x, l, hopen, heq⟩
  · rw [heq]
    exact h
  · rw [heq]
    have hx : x ∈ w.db.pending ∧ x.owner = i := by
      rw [← mem_openBy, hopen]
      exact List.mem_cons_self ..
    rcases h.store.pending x hx.1 with ⟨hkey, hstats, hjust⟩
    rw [hx.2] at hjust
    refine ⟨chronicle_concat _ _ _ h.history hjust,
      cacheInv_mono dep w _ rfl (List.prefix_append _ _) (Nat.le_refl _) h.cache,
      nodup_put _ _ h.store.keys, ?_, h.store.owners.sublist (List.filter_sublist.map _),
      h.store.locks.sublist (List.filter_sublist.map _), ?_⟩
    · -- The row of the pair is the next tally, and the other rows stay.
      intro p t
      simp only [find_put _ _ h.store.keys, eventsFor_committed, hkey, Prod.mk.injEq]
      by_cases hpt : x.stmt.package = p ∧ x.stmt.eventType = t
      · rw [if_pos hpt, if_pos hpt, Option.map_some, hstats, hpt.1, hpt.2]
      · rw [if_neg hpt, if_neg hpt]
        exact h.store.rows p t
    · intro y hy
      have hyo := List.mem_filter.mp hy
      have hne : y.owner ≠ i := bne_iff_ne.mp hyo.2
      have hyok := h.store.pending y hyo.1
      -- The other open transactions are about other pairs.
      have hother : ¬ (x.stmt.package = y.stmt.package ∧ x.stmt.eventType = y.stmt.eventType) := by
        intro hc
        have hkeys : x.row.key = y.row.key := by
          rw [hkey, hyok.key, hc.1, hc.2]
        have hxy := List.inj_on_of_nodup_map h.store.locks hx.1 hyo.1 hkeys
        exact hne (by rw [← hxy, hx.2])
      refine pendingOk_mono dep _ _ y (List.prefix_append _ _)
        (commitsOf_other _ i y.owner x.stmt hne) ?_ hyok
      rw [eventsFor_committed, if_neg hother]

end Transactions

end KingPi
