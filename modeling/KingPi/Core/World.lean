import KingPi.Core.Services
import KingPi.Async.Pool
import Mathlib.Algebra.Group.Nat.Defs

/-!
# The World the Services Share

Redis, PostgreSQL and the clock, as seen by any number of requests on any
number of workers. A worker keeps nothing of its own between two awaits, so
requests are all there is to tell apart.

Every call the services make ends in one of the fates below. Which one is
the outside world's choice: the call works, it raises, or it raises although
it took effect, which is what a connection lost at the wrong moment looks
like.

The upsert follows PostgreSQL's description of `INSERT ... ON CONFLICT DO
UPDATE`. A proposed row draws its identifier from the sequence before the
conflict is looked for. A statement that conflicts with a row another open
transaction has written waits, so it is not enabled here. Otherwise it
computes the new row from the committed one, and what it computed becomes
visible when its transaction commits. A transaction that does not commit
leaves nothing but the gap in the sequence.

`trace` is a history variable. No service reads it; it records what happened
in which order, so that a statement about a run is a statement about the
trace of the state it ends in.

## Main definitions

* `World`: The shared state.
* `Obs`: What the trace records.
* `Fate`: How a call can end.
* `Database.upsert`, `Database.commit`: The statement and its commit.
* `World.serve`: The effects of calls.
* `server`: The server as a system of interleaved requests.
* `boot`: The world of a fresh deployment.
-/

namespace KingPi

open Async

/-- The largest value of an `Integer` column, and of the sequence behind one. -/
def maxInteger : Nat := 2 ^ 31 - 1

/-- A key in Redis: its value, and the time in milliseconds it expires at. -/
structure Entry where
  value : Str
  expireAt : Int

/-- The row an open transaction has written. -/
structure Pending where
  owner : Nat
  stmt : Upsert
  row : PackageEvent

/-- PostgreSQL: the committed table, the number of identifiers drawn from
    the sequence, and the open transactions. -/
structure Database where
  table : List PackageEvent
  drawn : Nat
  pending : List Pending

/-- What the trace records. -/
inductive Obs where
  | started (i : Nat) (q : Request)
  | answered (i : Nat) (q : Request) (r : Except Exc Answer)
  | upstream (i : Nat) (url : Str) (reply : Except Exc HttpResponse)
  | stored (i : Nat) (key value : Str) (time : Nat)
  | looked (i : Nat) (key : Str) (hit : Option Str) (time : Nat)
  | executed (i : Nat) (stmt : Upsert) (id : Option Nat)
  | committed (i : Nat) (stmt : Upsert)
  | selected (i : Nat) (query : Query)

/-- The shared state. -/
structure World where
  now : Nat
  redis : Str → Option Entry
  db : Database
  trace : List Obs

/-- How a call can end. A failed call may have taken effect all the same. -/
inductive Fate where
  | ok
  | http (response : HttpResponse)
  | fail (exc : Exc) (tookEffect : Bool)

/-- What the environment does on its own: time passes, and Redis drops a key
    before its time. -/
inductive Env where
  | tick (ms : Nat)
  | evict (key : Str)

/-- Two rows, or a row and a statement, with the same unique key. -/
def PackageEvent.hasKey (row : PackageEvent) (package eventType : Str) : Bool :=
  row.package == package && row.eventType == eventType

/-- `GREATEST`, which ignores nulls. -/
def greatest : Option Instant → Instant → Option Instant
  | none, t => some t
  | some s, t => some (max s t)

/-- The timestamp as the insert binds it, with the column's type: the driver
    reads a naive one in the process's local zone. -/
def Deployment.columnInstant (dep : Deployment) (d : DateTime) : Instant :=
  d.instantIn dep.localZone

/-- The timestamp as `func.greatest` binds it, with a type taken from the
    value: PostgreSQL reads a naive one in the session's zone. -/
def Deployment.valueInstant (dep : Deployment) (d : DateTime) : Instant :=
  d.instantIn dep.sessionZone

namespace Database

/-- The row of a unique key. -/
def find (table : List PackageEvent) (package eventType : Str) : Option PackageEvent :=
  table.find? (fun row => row.hasKey package eventType)

/-- Write a row over the one with its key, or add it. -/
def put (table : List PackageEvent) (row : PackageEvent) : List PackageEvent :=
  if table.any (fun r => r.hasKey row.package row.eventType) then
    table.map (fun r => if r.hasKey row.package row.eventType then row else r)
  else table ++ [row]

/-- Does the statement have to wait for another transaction's row? -/
def locked (db : Database) (i : Nat) (stmt : Upsert) : Bool :=
  db.pending.any (fun p => p.owner != i && p.row.hasKey stmt.package stmt.eventType)

/-- The columns' length limits. -/
def fits (stmt : Upsert) : Bool :=
  decide (stmt.package.length ≤ 255) && decide (stmt.eventType.length ≤ 50)

/-- The row the statement computes, and the sequence after it. -/
def upsert (dep : Deployment) (db : Database) (stmt : Upsert) :
    Except DbFault PackageEvent × Database :=
  if db.drawn = maxInteger then (.error .sequenceExhausted, db)
  else
    let db' := { db with drawn := db.drawn + 1 }
    match find db.table stmt.package stmt.eventType with
    | none =>
      (.ok { id := db.drawn + 1, package := stmt.package, eventType := stmt.eventType,
             count := 1, lastTimestamp := some (dep.columnInstant stmt.timestamp) }, db')
    | some row =>
      if row.count + 1 ≤ maxInteger then
        (.ok { row with
          count := row.count + 1,
          lastTimestamp := greatest row.lastTimestamp (dep.valueInstant stmt.timestamp) }, db')
      else (.error .integerOutOfRange, db')

/-- End the transaction of a request without keeping what it wrote. -/
def rollback (db : Database) (i : Nat) : Database :=
  { db with pending := db.pending.filter (fun p => p.owner != i) }

/-- The identifier the sequence gives next, if it has one left. -/
def nextval (db : Database) : Option Nat :=
  if db.drawn = maxInteger then none else some (db.drawn + 1)

/-- An identifier is drawn and nothing comes of it. -/
def draw (db : Database) : Database :=
  if db.drawn = maxInteger then db else { db with drawn := db.drawn + 1 }

end Database

namespace World

/-- Record an observation. -/
def log (w : World) (o : Obs) : World := { w with trace := w.trace ++ [o] }

/-- The same world with another database. -/
def withDb (w : World) (db : Database) : World := { w with db := db }

/-- The value Redis has for a key that has not expired. -/
def live (w : World) (key : Str) : Option Str :=
  match w.redis key with
  | none => none
  | some entry => if (w.now : Int) < entry.expireAt then some entry.value else none

/-- A `SET` with an expiry that takes effect. -/
def store (w : World) (i : Nat) (key value : Str) (ex : Int) : World :=
  { w with
    redis := fun k =>
      if k = key then some { value := value, expireAt := w.now + 1000 * ex } else w.redis k,
    trace := w.trace ++ [.stored i key value w.now] }

/-- A commit that takes effect. -/
def commit (w : World) (i : Nat) : World :=
  match w.db.pending.find? (fun p => p.owner == i) with
  | none => w
  | some p =>
    { w with
      db := { w.db.rollback i with table := Database.put w.db.table p.row },
      trace := w.trace ++ [.committed i p.stmt] }

/-- A transaction that ends without its commit. -/
def rollback (w : World) (i : Nat) : World := { w with db := w.db.rollback i }

/-- The effects of calls. -/
def serve (dep : Deployment) (i : Nat) :
    (e : Eff) → Fate → World → Option (Except Exc e.Reply × World)
  | .redisGet key, .ok, w =>
    some (.ok (w.live key), w.log (.looked i key (w.live key) w.now))
  | .redisGet _, .fail exc _, w => if exc.isRedisFault then some (.error exc, w) else none
  | .redisSet key value ex, .ok, w =>
    -- Redis refuses an expiry that is not positive.
    if 0 < ex then some (.ok (), w.store i key value ex) else some (.error .redisError, w)
  | .redisSet key value ex, .fail exc tookEffect, w =>
    if exc.isRedisFault then
      some (.error exc, if tookEffect && decide (0 < ex) then w.store i key value ex else w)
    else none
  | .httpGet url, .http response, w =>
    some (.ok response, w.log (.upstream i url (.ok response)))
  | .httpGet url, .fail exc _, w =>
    if exc.isHttpFault then some (.error exc, w.log (.upstream i url (.error exc))) else none
  | .execute stmt, .ok, w =>
    if Database.fits stmt && !w.db.locked i stmt then
      match w.db.upsert dep stmt with
      | (.ok row, db) =>
        some (.ok (), (w.log (.executed i stmt w.db.nextval)).withDb
          { db with pending := ⟨i, stmt, row⟩ :: db.pending })
      | (.error fault, db) =>
        some (.error (.dbapiError fault), (w.log (.executed i stmt w.db.nextval)).withDb db)
    else none
  | .execute stmt, .fail exc tookEffect, w =>
    if exc.isDbFault then
      some (.error exc, if tookEffect then
        (w.log (.executed i stmt w.db.nextval)).withDb w.db.draw else w)
    else none
  | .commit, .ok, w => some (.ok (), w.commit i)
  | .commit, .fail exc tookEffect, w =>
    if exc.isDbFault then some (.error exc, if tookEffect then w.commit i else w.rollback i)
    else none
  | .select query, .ok, w =>
    some (.ok (w.db.table.filter query.selects), w.log (.selected i query))
  | .select _, .fail exc _, w => if exc.isDbFault then some (.error exc, w) else none
  | _, _, _ => none

/-- What the environment does on its own. -/
def env : Env → World → Option World
  | .tick ms, w => some { w with now := w.now + ms }
  | .evict key, w => some { w with redis := fun k => if k = key then none else w.redis k }

end World

/-- The server: any number of requests over one world. -/
def server (dep : Deployment) : System Eff Eff.Reply Exc Answer Request Fate Env World where
  body := Request.body dep
  onStart i q w := w.log (.started i q)
  serve := World.serve dep
  onAnswer i q r w := w.log (.answered i q r)
  onAbort i w := w.rollback i
  env := World.env

/-- The world of a fresh deployment: an empty table and an empty cache. -/
def boot : World :=
  { now := 0, redis := fun _ => none, db := { table := [], drawn := 0, pending := [] },
    trace := [] }

/-- The states of the server. -/
abbrev ServerState := Config Eff Eff.Reply Exc Answer Request World

/-- The states reachable from a fresh deployment. -/
def Reachable (dep : Deployment) (c : ServerState) : Prop :=
  Reaches (server dep) (Config.init boot) c

end KingPi
