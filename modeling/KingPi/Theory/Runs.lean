import KingPi.Theory.Specs

/-!
# Requests That Run Alone

The other half of the semantics: not what every run does, but runs that
exist. A request that arrives while nothing else moves, with the outside
world answering as it pleases, runs through to its answer, and this module
computes the state it leaves.

In the runs built here Redis is down, so that every request goes to PyPI, and
the database works. `Serial` describes the state after a list of events has
been posted one after the other in this way, and `serial_run` says that there
is such a run for every list of events with accepted names, as long as the
sequence lasts.

## Main definitions

* `utcDeployment`: A deployment to run.
* `plainFate`: Redis is down, PyPI knows the package, the database works.
* `World.posted`: The world after an event was posted.
* `Serial`: The state after a list of events was posted in turn.

## Theorems

* `fetch_alone`: A fetch that runs alone.
* `post_alone`: A request to post an event that runs alone.
* `serial_run`: The events of a list can be posted in turn.
-/

namespace KingPi

open Async Prog

variable (dep : Deployment)

/-- A deployment in UTC with a time to live of five minutes. Its `json` module
    is only good for the empty object and for null. -/
def utcDeployment : Deployment where
  ttlSeconds := 300
  dumps
    | .object [] => "\x7b\x7d".toList
    | _ => "null".toList
  loads s :=
    if s = "\x7b\x7d".toList then some (.object [])
    else if s = "null".toList then some .null
    else none
  localZone := id
  sessionZone := id

/-- An install of numpy, at an instant. -/
def numpyInstall (t : Instant) : EventIn where
  timestamp := { wall := t, utcoffset := some 0 }
  package := "numpy".toList
  type := .install
  minLength := by decide
  maxLength := by decide

/-- An install of a package. -/
def installOf (name : Str) (hmin : 1 ≤ name.length) (hmax : name.length ≤ 200) : EventIn where
  timestamp := { wall := 0, utcoffset := some 0 }
  package := name
  type := .install
  minLength := hmin
  maxLength := hmax

/-- What the outside world does in a plain run: Redis is down, PyPI answers
    with the same body every time, and the database works. -/
def plainFate (body : Json) : Eff → Fate
  | .redisGet _ => .fail .redisError false
  | .redisSet _ _ _ => .fail .redisError false
  | .httpGet _ => .http { statusCode := 200, body := some body }
  | .execute _ => .ok
  | .commit => .ok
  | .select _ => .ok

/-- The effects of a plain run. -/
def plainServe (body : Json) (i : Nat) (e : Eff) (w : World) :
    Option (Except Exc e.Reply × World) :=
  World.serve dep i e (plainFate body e) w

/-- A fetch that runs alone: the cache is of no help, and PyPI answers. -/
theorem fetch_alone (body : Json) (i : Nat) (p : Str) (w : World)
    (hp : isValidPackage p = true) :
    (PyPICacheClient.fetchPackageInfo dep p).solo (plainServe dep body i) w
      = some (.ok body, w.log (.upstream i (packageUrl p) (found body))) := by
  -- Redis is down: the read misses, and the write at the end is lost.
  have hget : (RedisTTLCache.get (cacheKey p)).solo (plainServe dep body i) w
      = some (.ok none, w) := rfl
  have hclient : (PyPIClient.fetchPackageInfo p).solo (plainServe dep body i) w
      = some (.ok body, w.log (.upstream i (packageUrl p) (found body))) := by
    rw [PyPIClient.fetchPackageInfo_valid p hp]
    rfl
  unfold PyPICacheClient.fetchPackageInfo
  rw [bind_eq, solo_bind, hget]
  simp only [bind_eq, solo_bind, hclient]
  rfl

/-- The world after an event was posted, given the row the upsert computed. -/
def World.posted (w : World) (i : Nat) (e : EventIn) (body : Json) (row : PackageEvent) :
    World :=
  { w with
    db := { table := Database.put w.db.table row, drawn := w.db.drawn + 1, pending := [] },
    trace := w.trace ++ [.started i (.postEvent e),
      .upstream i (packageUrl e.package) (found body),
      .executed i e.stmt (some (w.db.drawn + 1)), .committed i e.stmt,
      .answered i (.postEvent e) (.ok (.http { statusCode := 201, body := .accepted }))] }

/-- The upsert goes through while there are identifiers left and the count of
    the pair is below its limit. -/
theorem upsert_ok (db : Database) (stmt : Upsert) (hdrawn : db.drawn < maxInteger)
    (hcount : ∀ row, Database.find db.table stmt.package stmt.eventType = some row →
      row.count < maxInteger) :
    ∃ row, db.upsert dep stmt = (.ok row, { db with drawn := db.drawn + 1 }) := by
  unfold Database.upsert
  rw [if_neg (Nat.ne_of_lt hdrawn)]
  cases hf : Database.find db.table stmt.package stmt.eventType with
  | none => exact ⟨_, rfl⟩
  | some row =>
      -- `ON CONFLICT DO UPDATE`: the count of the row is raised by one.
      refine ⟨{ row with
        count := row.count + 1
        lastTimestamp := greatest row.lastTimestamp (dep.valueInstant stmt.timestamp) }, ?_⟩
      simp only
      rw [if_pos (Nat.succ_le_of_lt (hcount row hf))]

theorem fits_stmt (e : EventIn) : Database.fits e.stmt = true := by
  rw [Database.fits, Bool.and_eq_true, decide_eq_true_eq, decide_eq_true_eq]
  refine ⟨Nat.le_trans e.maxLength (by decide), ?_⟩
  have htype : ∀ t : EventType, t.value.length ≤ 50 := by
    intro t
    cases t with
    | install => decide
    | uninstall => decide
  exact htype e.type

/-- `record_event` that runs alone. -/
theorem recordEvent_alone (body : Json) (i : Nat) (e : EventIn) (w : World) (row : PackageEvent)
    (hpending : w.db.pending = [])
    (hdrawn : w.db.drawn < maxInteger)
    (hupsert : w.db.upsert dep e.stmt = (.ok row, { w.db with drawn := w.db.drawn + 1 })) :
    (PostgresEventStore.recordEvent e.package e.type.value e.timestamp).solo
        (plainServe dep body i) w
      = some (.ok (), { w with
          db := { table := Database.put w.db.table row, drawn := w.db.drawn + 1, pending := [] },
          trace := w.trace ++ [.executed i e.stmt (some (w.db.drawn + 1)),
            .committed i e.stmt] }) := by
  -- With no transaction open there is nothing to wait for.
  have hlocked : w.db.locked i e.stmt = false := by
    rw [Database.locked, hpending, List.any_nil]
  have hnextval : w.db.nextval = some (w.db.drawn + 1) := by
    rw [Database.nextval, if_neg (Nat.ne_of_lt hdrawn)]
  have hexecute : plainServe dep body i (.execute e.stmt) w
      = some (.ok (), (w.log (.executed i e.stmt w.db.nextval)).withDb
          { w.db with drawn := w.db.drawn + 1, pending := [⟨i, e.stmt, row⟩] }) := by
    simp only [plainServe, plainFate, World.serve, fits_stmt, hlocked, Bool.not_false,
      Bool.and_self, if_true, hupsert, hpending]
  have hcommit : plainServe dep body i .commit
      ((w.log (.executed i e.stmt w.db.nextval)).withDb
        { w.db with drawn := w.db.drawn + 1, pending := [⟨i, e.stmt, row⟩] })
      = some (.ok (), { w with
          db := { table := Database.put w.db.table row, drawn := w.db.drawn + 1, pending := [] },
          trace := w.trace ++ [.executed i e.stmt (some (w.db.drawn + 1)),
            .committed i e.stmt] }) := by
    simp only [plainServe, plainFate, World.serve, World.commit, World.withDb, World.log,
      List.find?_cons, beq_self_eq_true, Database.rollback, List.filter_cons, bne_self_eq_false,
      Bool.false_eq_true, if_false, List.filter_nil, hnextval, List.append_assoc,
      List.singleton_append]
  unfold PostgresEventStore.recordEvent
  -- The two effects, one after the other.
  have hrun : (Session.execute ⟨e.package, e.type.value, e.timestamp⟩).solo
      (plainServe dep body i) w = plainServe dep body i (.execute e.stmt) w := solo_call _ _ _
  rw [bind_eq, solo_bind, hrun, hexecute]
  exact (solo_call _ _ _).trans hcommit

/-- A request to post an event that runs alone is accepted. -/
theorem post_alone (body : Json) (i : Nat) (e : EventIn) (c : ServerState) (row : PackageEvent)
    (hfree : c.task i = none) (hpending : c.shared.db.pending = [])
    (hvalid : isValidPackage e.package = true) (hdrawn : c.shared.db.drawn < maxInteger)
    (hupsert : c.shared.db.upsert dep e.stmt
      = (.ok row, { c.shared.db with drawn := c.shared.db.drawn + 1 })) :
    ∃ d, Reaches (server dep) c d ∧ d.shared = c.shared.posted i e body row ∧
      d.task i = some (.answered (.postEvent e)
        (.ok (.http { statusCode := 201, body := .accepted }))) ∧
      ∀ j, j ≠ i → d.task j = c.task j := by
  have hfetch := fetch_alone dep body i e.package (c.shared.log (.started i (.postEvent e)))
    hvalid
  have hrecord := recordEvent_alone dep body i e
    ((c.shared.log (.started i (.postEvent e))).log
      (.upstream i (packageUrl e.package) (found body))) row hpending hdrawn hupsert
  -- The route runs the fetch and then `record_event`, each as computed before.
  have hsolo : (Request.body dep (.postEvent e)).solo (plainServe dep body i)
      (c.shared.log (.started i (.postEvent e)))
      = some (.ok (.http { statusCode := 201, body := .accepted }), { c.shared with
          db := { table := Database.put c.shared.db.table row,
                  drawn := c.shared.db.drawn + 1, pending := [] },
          trace := c.shared.trace ++ [.started i (.postEvent e),
            .upstream i (packageUrl e.package) (found body),
            .executed i e.stmt (some (c.shared.db.drawn + 1)), .committed i e.stmt] }) := by
    simp only [Request.body, handle, postEvent, bind_eq, solo_bind, solo_tryCatch, hfetch,
      hrecord]
    simp only [pure_eq, solo_ret, World.log, List.append_assoc, List.cons_append,
      List.nil_append]
  rcases reaches_request (server dep) i (.postEvent e) (plainFate body) c _ _ hfree hsolo with
    ⟨d, hd, hsh, htask, hother⟩
  refine ⟨d, hd, ?_, htask, hother⟩
  rw [hsh]
  simp only [server, World.log, World.posted, List.append_assoc, List.cons_append,
    List.nil_append]

/-- The answer of an accepted event. -/
def acceptedAnswer : Except Exc Answer := .ok (.http { statusCode := 201, body := .accepted })

/-- The state after the events of a list were posted one after the other, each
    accepted. -/
structure Serial (es : List EventIn) (d : ServerState) : Prop where
  reachable : Reachable dep d
  pending : d.shared.db.pending = []
  commits : commits d.shared.trace = es.map EventIn.stmt
  drawn : d.shared.db.drawn = es.length
  free : ∀ i, es.length ≤ i → d.task i = none
  posts : ∀ i q, Obs.started i q ∈ d.shared.trace → ∃ e ∈ es, q = .postEvent e ∧
    d.task i = some (.answered (.postEvent e) acceptedAnswer)

theorem serial_nil : Serial dep [] (Config.init boot) where
  reachable := Reaches.refl
  pending := rfl
  commits := rfl
  drawn := rfl
  free := fun _ _ => rfl
  posts := fun _ _ h => absurd h List.not_mem_nil

theorem posted_commits (w : World) (i : Nat) (e : EventIn) (body : Json) (row : PackageEvent) :
    commits (w.posted i e body row).trace = commits w.trace ++ [e.stmt] :=
  commits_append _ _

/-- One more event: there is room for it in the table, since no row counts
    more events than there were. -/
theorem serial_concat (body : Json) (es : List EventIn) (e : EventIn) (c : ServerState)
    (hc : Serial dep es c) (hvalid : isValidPackage e.package = true)
    (hlen : es.length < maxInteger) : ∃ d, Serial dep (es ++ [e]) d := by
  have hinv := reachable_inv dep c hc.reachable
  have hdrawn : c.shared.db.drawn < maxInteger := by
    rw [hc.drawn]
    exact hlen
  -- No row is full: its count is the number of its events, which is at most the
  -- number of events posted.
  have hcount : ∀ row, Database.find c.shared.db.table e.stmt.package e.stmt.eventType = some row →
      row.count < maxInteger := by
    intro row hfind
    have hstats := row_stats dep c.shared hinv row (find_some _ _ _ row hfind).1
    have hrow : row.count = (statsOf dep (eventsFor row.package row.eventType
        c.shared.trace)).count := congrArg PackageEventStats.count hstats
    have hle := length_eventsFor_le row.package row.eventType c.shared.trace
    rw [hc.commits, List.length_map] at hle
    rw [hrow, statsOf]
    exact Nat.lt_of_le_of_lt hle hlen
  rcases upsert_ok dep c.shared.db e.stmt hdrawn hcount with ⟨row, hupsert⟩
  rcases post_alone dep body es.length e c row (hc.free _ (Nat.le_refl _)) hc.pending hvalid
    hdrawn hupsert with ⟨d, hd, hsh, htask, hother⟩
  refine ⟨d, reaches_trans hc.reachable hd, ?_, ?_, ?_, ?_, ?_⟩
  · rw [hsh]
    rfl
  · rw [hsh, posted_commits, hc.commits, List.map_append, List.map_singleton]
  · rw [hsh, List.length_append, List.length_singleton]
    exact congrArg (· + 1) hc.drawn
  · -- The next request gets the number `es.length`, the first one that is free.
    intro i hi
    rw [List.length_append, List.length_singleton] at hi
    rw [hother i (by omega)]
    exact hc.free i (by omega)
  · intro i q hstarted
    rw [hsh, World.posted] at hstarted
    rcases List.mem_append.mp hstarted with hold | hnew
    · rcases hc.posts i q hold with ⟨e', he', hq, hans⟩
      refine ⟨e', List.mem_append_left _ he', hq, ?_⟩
      -- An earlier request has been answered, so it is not the new one.
      have hne : i ≠ es.length := by
        rintro rfl
        rw [hc.free _ (Nat.le_refl _)] at hans
        exact absurd hans (by simp only [reduceCtorEq, not_false_eq_true])
      rw [hother i hne]
      exact hans
    · simp only [List.mem_cons, Obs.started.injEq, reduceCtorEq, List.not_mem_nil, or_false]
        at hnew
      rcases hnew with ⟨rfl, rfl⟩
      exact ⟨e, List.mem_append_right _ (List.mem_singleton.mpr rfl), rfl, htask⟩

/-- The events of a list can be posted in turn, as long as the sequence
    lasts. -/
theorem serial_run (es : List EventIn) (hvalid : ∀ e ∈ es, isValidPackage e.package = true)
    (hlen : es.length ≤ maxInteger) : ∃ d, Serial dep es d := by
  induction es using List.reverseRecOn with
  | nil => exact ⟨_, serial_nil dep⟩
  -- Induction from the end: the last event is posted into the state the others
  -- have left.
  | append_singleton es e ih =>
      rw [List.length_append, List.length_singleton] at hlen
      rcases ih (fun e' he' => hvalid e' (List.mem_append_left _ he')) (by omega) with ⟨c, hc⟩
      exact serial_concat dep .null es e c hc
        (hvalid e (List.mem_append_right _ (List.mem_singleton.mpr rfl))) hlen

section Warm

/-- What the outside world does when everything works. -/
def goodFate (body : Json) : Eff → Fate
  | .httpGet _ => .http { statusCode := 200, body := some body }
  | _ => .ok

theorem live_log (w : World) (o : Obs) (key : Str) : (w.log o).live key = w.live key := rfl

/-- A key just stored is alive. -/
theorem live_store (w : World) (i : Nat) (key value : Str) (ex : Int) (h : 0 < ex) :
    (w.store i key value ex).live key = some value := by
  have hlt : (w.now : Int) < w.now + 1000 * ex := by omega
  simp only [World.live, World.store, if_true]
  exact if_pos hlt

/-- A fetch that misses: the body PyPI answers with is stored. -/
theorem fetch_miss_alone (body : Json) (i : Nat) (p : Str) (w : World)
    (hp : isValidPackage p = true) (httl : 0 < dep.ttlSeconds)
    (hlive : w.live (cacheKey p) = none) :
    (PyPICacheClient.fetchPackageInfo dep p).solo
        (fun e => World.serve dep i e (goodFate body e)) w
      = some (.ok body, ((w.log (.looked i (cacheKey p) none w.now)).log
          (.upstream i (packageUrl p) (found body))).store i (cacheKey p) (dep.dumps body)
            dep.ttlSeconds) := by
  -- A lookup without a value, a request, and a write that Redis takes.
  have hget : (RedisTTLCache.get (cacheKey p)).solo
      (fun e => World.serve dep i e (goodFate body e)) w
      = some (.ok none, w.log (.looked i (cacheKey p) none w.now)) := by
    rw [← hlive]
    rfl
  have hclient : (PyPIClient.fetchPackageInfo p).solo
      (fun e => World.serve dep i e (goodFate body e)) (w.log (.looked i (cacheKey p) none w.now))
      = some (.ok body, (w.log (.looked i (cacheKey p) none w.now)).log
          (.upstream i (packageUrl p) (found body))) := by
    rw [PyPIClient.fetchPackageInfo_valid p hp]
    rfl
  have hset : ∀ w' : World, (RedisTTLCache.set (cacheKey p) (dep.dumps body) dep.ttlSeconds).solo
      (fun e => World.serve dep i e (goodFate body e)) w'
      = some (.ok (), w'.store i (cacheKey p) (dep.dumps body) dep.ttlSeconds) := by
    intro w'
    have hserve : World.serve dep i (.redisSet (cacheKey p) (dep.dumps body) dep.ttlSeconds) .ok w'
        = some (.ok (), w'.store i (cacheKey p) (dep.dumps body) dep.ttlSeconds) := by
      simp only [World.serve, if_pos httl]
    rw [RedisTTLCache.set, solo_tryCatch]
    have hcall : (Redis.set (cacheKey p) (dep.dumps body) dep.ttlSeconds).solo
        (fun e => World.serve dep i e (goodFate body e)) w'
        = some (.ok (), w'.store i (cacheKey p) (dep.dumps body) dep.ttlSeconds) :=
      (solo_call _ _ _).trans hserve
    rw [hcall]
  unfold PyPICacheClient.fetchPackageInfo
  rw [bind_eq, solo_bind, hget]
  simp only [bind_eq, solo_bind, hclient, hset]
  rfl

/-- A fetch that hits: what the cache holds is decoded, and nobody asks
    whether the name is valid. -/
theorem fetch_hit_alone (fate : Eff → Fate) (hfate : ∀ key, fate (.redisGet key) = .ok)
    (i : Nat) (p : Str) (w : World) (value : Str) (hlive : w.live (cacheKey p) = some value) :
    (PyPICacheClient.fetchPackageInfo dep p).solo (fun e => World.serve dep i e (fate e)) w
      = some (dep.jsonLoads value, w.log (.looked i (cacheKey p) (some value) w.now)) := by
  have hget : (RedisTTLCache.get (cacheKey p)).solo (fun e => World.serve dep i e (fate e)) w
      = some (.ok (some value), w.log (.looked i (cacheKey p) (some value) w.now)) := by
    have hcall : (Redis.get (cacheKey p)).solo (fun e => World.serve dep i e (fate e)) w
        = some (.ok (w.live (cacheKey p)),
            w.log (.looked i (cacheKey p) (w.live (cacheKey p)) w.now)) := by
      refine (solo_call _ _ _).trans ?_
      simp only [hfate]
      rfl
    rw [RedisTTLCache.get, solo_tryCatch, hcall, hlive]
  unfold PyPICacheClient.fetchPackageInfo
  rw [bind_eq, solo_bind, hget]
  exact solo_fromExcept _ _ _

theorem fetch_body_alone (serve : (e : Eff) → World → Option (Except Exc e.Reply × World))
    (p : Str) (w w' : World) (r : Except Exc Json)
    (h : (PyPICacheClient.fetchPackageInfo dep p).solo serve w = some (r, w')) :
    (Request.body dep (.fetch p)).solo serve w = some (r.map .data, w') := by
  rw [Request.body, solo_bind, h]
  cases r with
  | ok v => rfl
  | error x => rfl

/-- The trace of two fetches that share a cache entry. -/
def warmTrace (body : Json) (q p : Str) : List Obs :=
  [.started 0 (.fetch q), .looked 0 (cacheKey q) none 0,
    .upstream 0 (packageUrl q) (found body), .stored 0 (cacheKey q) (dep.dumps body) 0,
    .answered 0 (.fetch q) (.ok (.data body)), .started 1 (.fetch p),
    .looked 1 (cacheKey p) (some (dep.dumps body)) 0,
    .answered 1 (.fetch p) ((dep.jsonLoads (dep.dumps body)).map .data)]

/-- A fetch through a cache that another spelling has warmed. -/
theorem warm_run (body : Json) (q p : Str) (hq : isValidPackage q = true)
    (hkey : cacheKey p = cacheKey q) (httl : 0 < dep.ttlSeconds) :
    ∃ c, Reachable dep c ∧ c.shared.trace = warmTrace dep body q p ∧
      c.task 0 = some (.answered (.fetch q) (.ok (.data body))) ∧
      c.task 1 = some (.answered (.fetch p) ((dep.jsonLoads (dep.dumps body)).map .data)) ∧
      c.shared.redis (cacheKey q)
        = some { value := dep.dumps body, expireAt := 0 + 1000 * dep.ttlSeconds } := by
  have hmiss := fetch_miss_alone dep body 0 q (boot.log (.started 0 (.fetch q))) hq httl rfl
  rcases reaches_request (server dep) 0 (.fetch q) (goodFate body) (Config.init boot) _ _ rfl
    (fetch_body_alone dep _ q _ _ _ hmiss) with ⟨c, hc, hsh, htask, hother⟩
  have hlive : (c.shared.log (.started 1 (.fetch p))).live (cacheKey p)
      = some (dep.dumps body) := by
    rw [live_log, hsh, hkey]
    exact (live_log _ _ _).trans (live_store _ 0 (cacheKey q) (dep.dumps body) _ httl)
  have hhit := fetch_hit_alone dep (goodFate body) (fun _ => rfl) 1 p
    (c.shared.log (.started 1 (.fetch p))) (dep.dumps body) hlive
  have hfree : c.task 1 = none := hother 1 (by decide)
  rcases reaches_request (server dep) 1 (.fetch p) (goodFate body) c _ _ hfree
    (fetch_body_alone dep _ p _ _ _ hhit) with ⟨d, hd, hsh', htask', hother'⟩
  refine ⟨d, reaches_trans hc hd, ?_, ?_, htask', ?_⟩
  · rw [hsh', hsh]
    rfl
  · rw [hother' 0 (by decide), htask]
    rfl
  · rw [hsh', hsh]
    simp only [server, World.log, World.store, boot, if_true, Int.natCast_zero]

end Warm

end KingPi
