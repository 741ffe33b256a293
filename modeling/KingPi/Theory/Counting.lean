import KingPi.Theory.Runs

/-!
# The Table Counts the Committed Events

The refinement from the table to the log of committed events. In every
reachable state, however the requests interleaved and wherever they failed,
each pair that has a committed event has one row, and that row holds the
number of those events and the latest of their timestamps.

A request contributes to the log what its answer says. An accepted one
committed its own event, once; a request that was turned away committed
nothing. The only steps that change the table are commits, so a statement
that fails, or a transaction that does not get to its commit, leaves every
row as it was.

Count and maximum do not depend on the order of the events, so neither does
the table: two runs that committed the same events end with the same rows,
up to the order they stand in and the identifiers they carry.

## Main definitions

* `DateTime.utc`: The instant of a zone-aware datetime.
* `RowsExact`: Every row counts the committed events of its pair.
* `PackageEvent.content`: A row without its identifier.

## Theorems

* `rows_exact`: The rows of a reachable state.
* `post_commits`: What a request committed, by its answer.
* `table_unchanged`: Without a commit the table stays as it was.
* `table_perm`: The table depends on the multiset of committed events.
* `event_counts_exact`: All of it, for every reachable state.
-/

namespace KingPi

open Async

/-- The instant of a zone-aware datetime. -/
def DateTime.utc (d : DateTime) : Instant := d.wall - d.utcoffset.getD 0

/-- A row without its identifier. -/
def PackageEvent.content (row : PackageEvent) : (Str × Str) × PackageEventStats :=
  (row.key, row.stats)

/-- Every row counts the committed events of its pair and holds the latest of
    their timestamps, and the pairs with a row are those with an event. -/
structure RowsExact (w : World) : Prop where
  unique : (w.db.table.map PackageEvent.key).Nodup
  present : ∀ p t, eventsFor p t w.trace ≠ [] → ∃ row ∈ w.db.table, row.key = (p, t)
  absent : ∀ p t, eventsFor p t w.trace = [] → ∀ row ∈ w.db.table, row.key ≠ (p, t)
  count : ∀ row ∈ w.db.table,
    row.count = (eventsFor row.package row.eventType w.trace).length
  last : ∀ row ∈ w.db.table, row.lastTimestamp
    = ((eventsFor row.package row.eventType w.trace).map DateTime.utc).max?

/-- All events that were ever posted carry a zone. -/
def AwarePosts (tr : List Obs) : Prop :=
  ∀ i e, Obs.started i (.postEvent e) ∈ tr → e.timestamp.isAware = true

variable (dep : Deployment)

theorem columnInstant_of_aware (d : DateTime) (h : d.isAware = true) :
    dep.columnInstant d = d.utc := by
  rcases d with ⟨wall, _ | offset⟩
  · exact absurd h (by simp only [DateTime.isAware, Option.isSome_none, Bool.false_eq_true,
      not_false_eq_true])
  · rfl

section Rows

/-- A committed timestamp was posted. -/
theorem committed_aware (w : World) (hinv : WorldInv dep w) (haware : AwarePosts w.trace)
    (p t : Str) : ∀ d ∈ eventsFor p t w.trace, d.isAware = true := by
  intro d hd
  rcases (mem_eventsFor p t w.trace d).mp hd with ⟨i, hi⟩
  -- The record of the commit names the event that was posted.
  rcases chronicle_mem _ _ _ hinv.history hi with ⟨A, hA, e, hstarted, hstmt, _⟩
  have hmem := ((List.prefix_append _ _).trans hA).subset hstarted
  rw [(Upsert.mk.inj hstmt).2.2]
  exact haware i e hmem

/-- For zone-aware events the tally is the count and the latest instant. -/
theorem statsOf_aware (ds : List DateTime) (h : ∀ d ∈ ds, d.isAware = true) :
    statsOf dep ds = { count := ds.length, last := (ds.map DateTime.utc).max? } := by
  rw [statsOf, readings_of_aware dep ds h,
    List.map_congr_left (fun d hd => columnInstant_of_aware dep d (h d hd))]

theorem rows_exact (w : World) (hinv : WorldInv dep w) (haware : AwarePosts w.trace) :
    RowsExact w where
  unique := hinv.store.keys
  present := fun p t hne => by
    have hrows := hinv.store.rows p t
    rw [tally_of_ne_nil dep _ hne] at hrows
    rcases Option.map_eq_some_iff.mp hrows with ⟨row, hfind, _⟩
    exact ⟨row, find_some _ p t row hfind⟩
  absent := fun p t hnil row hrow hkey => by
    have hrows := hinv.store.rows p t
    rw [hnil, tally_nil, Option.map_eq_none_iff] at hrows
    exact find_none _ p t hrows row hrow hkey
  count := fun row hrow => by
    have hstats := row_stats dep w hinv row hrow
    rw [statsOf_aware dep _ (committed_aware dep w hinv haware _ _)] at hstats
    exact (PackageEventStats.mk.inj hstats).1
  last := fun row hrow => by
    have hstats := row_stats dep w hinv row hrow
    rw [statsOf_aware dep _ (committed_aware dep w hinv haware _ _)] at hstats
    exact (PackageEventStats.mk.inj hstats).2

end Rows

section Answers

/-- What a request committed, by the status of its answer. -/
theorem post_commits (i : Nat) (tr : List Obs) (e : EventIn) (r : Except Exc Answer)
    (h : Answers dep i tr (.postEvent e) r) :
    ∃ resp, r = .ok (.http resp) ∧
      (resp.statusCode = 201 ∧ commitsOf i tr = [e.stmt] ∨
        resp.statusCode ∈ [400, 404, 502, 504] ∧ commitsOf i tr = [] ∨
        resp.statusCode = 500) := by
  rcases h with ⟨resp, fr, hr, hfr, hans⟩
  refine ⟨resp, hr, ?_⟩
  cases fr with
  -- The fetch failed: nothing was committed, and the status is that of the
  -- exception the fetch raised.
  | error x =>
      rcases hans with ⟨hresp, hcommits⟩
      have hx := fetched_error dep i e.package tr x hfr
      have hstatus : resp.statusCode = fetchStatus x := by
        rw [hresp]
        exact errorResponse_status _ x hx
      rw [hstatus]
      cases x with
      | valueError _ | jsonDecodeError | packageNotFoundError _ | pypiUpstreamError _ _
      | timeoutException => exact Or.inr (Or.inl ⟨by simp only [fetchStatus]; decide, hcommits⟩)
      | _ => exact Or.inr (Or.inr rfl)
  -- The fetch succeeded: the event was recorded, or the store failed with a 500
  -- that leaves open whether the commit went through.
  | ok data =>
      rcases hans with ⟨hresp, hcommits⟩ | hresp
      · rw [hresp]
        exact Or.inl ⟨rfl, hcommits⟩
      · rw [hresp]
        exact Or.inr (Or.inr rfl)

end Answers

section Steps

/-- What a step does to the table and to the log of commits: nothing to
    either, or one commit. -/
def CommitsOrNothing (w w' : World) : Prop :=
  w'.db.table = w.db.table ∧ commits w'.trace = commits w.trace ∨
    ∃ stmt, commits w'.trace = commits w.trace ++ [stmt]

theorem quiet_commitsOrNothing (w w' : World) (h : Quiet w w') : CommitsOrNothing w w' := by
  rcases h.trace with ⟨l, htrace, hl⟩
  have hnil : commits l = [] := by
    rw [List.eq_nil_iff_forall_not_mem]
    intro stmt hstmt
    rcases (mem_commits l stmt).mp hstmt with ⟨i, hi⟩
    exact hl i stmt hi
  exact Or.inl ⟨h.table, by rw [htrace, commits_append, hnil, List.append_nil]⟩

theorem commit_commitsOrNothing (w : World) (i : Nat) : CommitsOrNothing w (w.commit i) := by
  rcases commit_eq w i with ⟨_, heq⟩ | ⟨x, l, _, heq⟩
  · rw [heq]
    exact Or.inl ⟨rfl, rfl⟩
  · rw [heq]
    exact Or.inr ⟨x.stmt, commits_append _ _⟩

theorem serve_commitsOrNothing (i : Nat) (e : Eff) (o : Fate) (w w' : World)
    (r : Except Exc e.Reply) (h : World.serve dep i e o w = some (r, w')) :
    CommitsOrNothing w w' := by
  cases serve_cases dep i e o w w' r h with
  | nothing => exact Or.inl ⟨rfl, rfl⟩
  | recorded o hcommit _ => exact quiet_commitsOrNothing _ _ (quiet_log w o hcommit)
  | stored key value ex => exact quiet_commitsOrNothing _ _ (quiet_store w i key value ex)
  | executed stmt l _ =>
      refine Or.inl ⟨rfl, ?_⟩
      exact (commits_append _ _).trans (List.append_nil _)
  | committed => exact commit_commitsOrNothing w i
  | rolledBack => exact Or.inl ⟨rfl, rfl⟩

/-- What a run does to the table and to the log of commits: the log grows, and
    the table does not change unless it does. -/
def TableFollowsCommits (w w' : World) : Prop :=
  commits w.trace <+: commits w'.trace ∧
    (commits w'.trace = commits w.trace → w'.db.table = w.db.table)

theorem tableFollowsCommits_step (w w' : World) (h : CommitsOrNothing w w') :
    TableFollowsCommits w w' := by
  rcases h with ⟨htable, hcommits⟩ | ⟨stmt, hcommits⟩
  · rw [TableFollowsCommits, hcommits]
    exact ⟨List.prefix_refl _, fun _ => htable⟩
  · rw [TableFollowsCommits, hcommits]
    refine ⟨List.prefix_append _ _, fun h => ?_⟩
    have hlen := congrArg List.length h
    rw [List.length_append, List.length_singleton] at hlen
    omega

theorem tableFollowsCommits_trans (w w' w'' : World) (h : TableFollowsCommits w w')
    (h' : TableFollowsCommits w' w'') : TableFollowsCommits w w'' := by
  refine ⟨h.1.trans h'.1, fun heq => ?_⟩
  -- A log that only grows and is the same at both ends was the same between.
  have hmid : commits w'.trace = commits w.trace := by
    refine (h.1.eq_of_length_le ?_).symm
    rw [← heq]
    exact h'.1.length_le
  rw [h'.2 (heq.trans hmid.symm), h.2 hmid]

theorem moves_tableFollowsCommits : Moves (server dep) TableFollowsCommits where
  start i q w := tableFollowsCommits_step _ _
    (quiet_commitsOrNothing _ _ (started_quiet dep i q w))
  serve i e o w r w' h := tableFollowsCommits_step _ _ (serve_commitsOrNothing dep i e o w w' r h)
  answer i q r w := tableFollowsCommits_step _ _
    (quiet_commitsOrNothing _ _ (answered_quiet dep i q r w))
  abort _ _ := tableFollowsCommits_step _ _ (Or.inl ⟨rfl, rfl⟩)
  env a w w' h := tableFollowsCommits_step _ _ (quiet_commitsOrNothing _ _ (quiet_env a w w' h))

/-- Without a commit the table stays as it was. -/
theorem table_unchanged (c d : ServerState) (h : Reaches (server dep) c d)
    (hcommits : commits d.shared.trace = commits c.shared.trace) :
    d.shared.db.table = c.shared.db.table :=
  ((moves_tableFollowsCommits dep).reaches
    (fun _ => ⟨List.prefix_refl _, fun _ => rfl⟩) tableFollowsCommits_trans c d h).2 hcommits

end Steps

section Order

/-- Lists with the same elements have the same maximum. -/
theorem max?_congr (l l' : List Instant) (h : ∀ x, x ∈ l ↔ x ∈ l') : l.max? = l'.max? :=
  noLater_antisymm _ _ (max?_mono l l' (fun x hx => (h x).mp hx))
    (max?_mono l' l (fun x hx => (h x).mpr hx))

theorem max?_perm (l l' : List Instant) (h : l.Perm l') : l.max? = l'.max? :=
  max?_congr l l' (fun _ => h.mem_iff)

/-- The count and the latest instant do not depend on the order of events. -/
theorem statsOf_perm (ds ds' : List DateTime) (h : ds.Perm ds')
    (haware : ∀ d ∈ ds, d.isAware = true) (haware' : ∀ d ∈ ds', d.isAware = true) :
    statsOf dep ds = statsOf dep ds' := by
  rw [statsOf_aware dep ds haware, statsOf_aware dep ds' haware', h.length_eq,
    max?_perm _ _ (h.map DateTime.utc)]

/-- What a row holds, by the log of commits. -/
theorem mem_content (w : World) (hinv : WorldInv dep w) (p t : Str) (s : PackageEventStats) :
    ((p, t), s) ∈ w.db.table.map PackageEvent.content
      ↔ eventsFor p t w.trace ≠ [] ∧ s = statsOf dep (eventsFor p t w.trace) := by
  rw [List.mem_map]
  constructor
  · rintro ⟨row, hrow, hcontent⟩
    rw [PackageEvent.content, Prod.mk.injEq, PackageEvent.key, Prod.mk.injEq] at hcontent
    rcases hcontent with ⟨⟨rfl, rfl⟩, rfl⟩
    exact ⟨row_events dep w hinv row hrow, row_stats dep w hinv row hrow⟩
  · rintro ⟨hne, rfl⟩
    have hrows := hinv.store.rows p t
    rw [tally_of_ne_nil dep _ hne] at hrows
    rcases Option.map_eq_some_iff.mp hrows with ⟨row, hfind, hstats⟩
    rcases find_some _ p t row hfind with ⟨hrow, hkey⟩
    exact ⟨row, hrow, by rw [PackageEvent.content, hkey, hstats]⟩

theorem nodup_content (table : List PackageEvent) (h : (table.map PackageEvent.key).Nodup) :
    (table.map PackageEvent.content).Nodup := by
  refine List.Nodup.of_map Prod.fst ?_
  rw [List.map_map]
  exact h

/-- The table depends on the multiset of committed events, and not on their
    order. -/
theorem table_perm (w w' : World) (hinv : WorldInv dep w) (hinv' : WorldInv dep w')
    (haware : AwarePosts w.trace) (haware' : AwarePosts w'.trace)
    (hperm : (commits w.trace).Perm (commits w'.trace)) :
    (w.db.table.map PackageEvent.content).Perm (w'.db.table.map PackageEvent.content) := by
  rw [List.perm_ext_iff_of_nodup (nodup_content _ hinv.store.keys)
    (nodup_content _ hinv'.store.keys)]
  rintro ⟨⟨p, t⟩, s⟩
  -- The events of a pair are picked from the log, so they are permuted with it.
  have hevents : (eventsFor p t w.trace).Perm (eventsFor p t w'.trace) := by
    rw [eventsFor_eq, eventsFor_eq]
    exact hperm.filterMap _
  rw [mem_content dep w hinv, mem_content dep w' hinv',
    statsOf_perm dep _ _ hevents (committed_aware dep w hinv haware p t)
      (committed_aware dep w' hinv' haware' p t), ne_eq, ne_eq]
  have hnil : eventsFor p t w.trace = [] ↔ eventsFor p t w'.trace = [] := by
    rw [← List.length_eq_zero_iff, ← List.length_eq_zero_iff, hevents.length_eq]
  rw [hnil]

end Order

/-- The event counts are exact. In every reachable state the rows count the
    committed events; every request has committed what its answer says; the
    table changes with a commit only; and runs that committed the same events
    have the same rows. -/
theorem event_counts_exact (c : ServerState) (hc : Reachable dep c)
    (haware : AwarePosts c.shared.trace) :
    RowsExact c.shared ∧
      (∀ i e r, c.task i = some (.answered (.postEvent e) r) → ∃ resp, r = .ok (.http resp) ∧
        (resp.statusCode = 201 → commitsOf i c.shared.trace = [e.stmt]) ∧
        (resp.statusCode ∈ [400, 404, 502, 504] → commitsOf i c.shared.trace = [])) ∧
      (∀ d, Reaches (server dep) c d → commits d.shared.trace = commits c.shared.trace →
        d.shared.db.table = c.shared.db.table) ∧
      (∀ c', Reachable dep c' → AwarePosts c'.shared.trace →
        (commits c.shared.trace).Perm (commits c'.shared.trace) →
        (c.shared.db.table.map PackageEvent.content).Perm
          (c'.shared.db.table.map PackageEvent.content)) := by
  have hinv := reachable_inv dep c hc
  refine ⟨rows_exact dep c.shared hinv haware, ?_, fun d hd => table_unchanged dep c d hd,
    fun c' hc' haware' => table_perm dep _ _ hinv (reachable_inv dep c' hc') haware haware'⟩
  -- What an answer committed was said at the moment of the answer, and still
  -- holds: a request commits nothing after it.
  intro i e r htask
  rcases post_commits dep i _ e r (reachable_answer dep c hc i _ r htask) with
    ⟨resp, hr, ⟨hstatus, hcommits⟩ | ⟨hstatus, hcommits⟩ | hstatus⟩
  · refine ⟨resp, hr, fun _ => hcommits, fun h => ?_⟩
    rw [hstatus] at h
    exact absurd h (by decide)
  · refine ⟨resp, hr, fun h => ?_, fun _ => hcommits⟩
    rw [h] at hstatus
    exact absurd hstatus (by decide)
  · refine ⟨resp, hr, fun h => ?_, fun h => ?_⟩
    · rw [hstatus] at h
      exact absurd h (by decide)
    · rw [hstatus] at h
      exact absurd h (by decide)

/-- Two installs posted out of order: one row, with a count of two. -/
theorem event_counts_exact_numpy : ∃ c, Reachable utcDeployment c ∧
    commits c.shared.trace = [(numpyInstall 5).stmt, (numpyInstall 3).stmt] ∧
    RowsExact c.shared := by
  rcases serial_run utcDeployment [numpyInstall 5, numpyInstall 3]
    (by simp only [List.mem_cons, List.not_mem_nil, or_false, forall_eq_or_imp, forall_eq]
        exact ⟨by decide, by decide⟩) (by decide) with ⟨c, hc⟩
  refine ⟨c, hc.reachable, hc.commits, (event_counts_exact utcDeployment c hc.reachable ?_).1⟩
  intro i e hstarted
  rcases hc.posts i _ hstarted with ⟨e', he', heq, _⟩
  rw [Request.postEvent.inj heq]
  simp only [List.mem_cons, List.not_mem_nil, or_false] at he'
  rcases he' with rfl | rfl <;> rfl

end KingPi
