import KingPi.Core.Name
import KingPi.Async.Prog

/-!
# Values, Requests and Effects

The data that passes between the layers of the server: event payloads,
decoded JSON, exceptions, responses, rows of the table, and the calls the
services await.

Exceptions are one type, because a handler in Python tells them apart by
class and not by where they came from. What matters for the routes is which
of them are a `ValueError`: the guard raises one, but so do a body that is
not JSON and a response model built from ill-typed fields.

A message is kept as the pieces its f-string is written from. Pieces that
print a value with `!r`, and the texts of library exceptions, are left as
holes; nothing in the server reads them.

A datetime may lack a zone, since `EventIn` does not ask for one. The two
places that turn it into an instant, the typed bind of the insert and the
untyped bind of the update, read a naive one in different zones, so both
zones are part of the deployment.

## Main definitions

* `DateTime`: Python's `datetime`, with or without a zone.
* `EventType`, `EventIn`: The event schema.
* `Json`: Decoded JSON.
* `Exc`: The exceptions of the server and its libraries.
* `PackageSummaryResponse`, `Response`: What the routes answer.
* `PackageEvent`: A row of the table.
* `Eff`: The calls the services await.
* `Deployment`: What the environment of a process fixes.
-/

namespace KingPi

open Async

/-- An instant, in microseconds. -/
abbrev Instant := Int

/-- `datetime`: the reading of a clock on the wall, in microseconds, and the
    offset of that clock from UTC when the value carries one. -/
structure DateTime where
  wall : Int
  utcoffset : Option Int
  deriving DecidableEq

/-- A zone-aware datetime. -/
def DateTime.isAware (d : DateTime) : Bool := d.utcoffset.isSome

/-- The instant of a datetime, with the zone used for a naive one. -/
def DateTime.instantIn (d : DateTime) (zone : Int → Instant) : Instant :=
  match d.utcoffset with
  | some offset => d.wall - offset
  | none => zone d.wall

theorem DateTime.instantIn_of_aware (d : DateTime) (h : d.isAware = true)
    (zone zone' : Int → Instant) : d.instantIn zone = d.instantIn zone' := by
  rcases d with ⟨wall, _ | offset⟩
  · exact absurd h (by simp only [isAware, Option.isSome_none, Bool.false_eq_true,
      not_false_eq_true])
  · rfl

/-- `EventType`, a `StrEnum`. -/
inductive EventType where
  | install
  | uninstall
  deriving DecidableEq

/-- The string a member of the enumeration is. -/
def EventType.value : EventType → Str
  | .install => "install".toList
  | .uninstall => "uninstall".toList

/-- The members, in the order `for event_type in EventType` visits them. -/
def EventType.members : List EventType := [.install, .uninstall]

theorem EventType.value_inj (t u : EventType) (h : t.value = u.value) : t = u := by
  cases t <;> cases u <;> first | rfl | exact absurd h (by decide)

/-- `EventIn`, as far as its validation goes: the body of a request that was
    let through. -/
structure EventIn where
  timestamp : DateTime
  package : Str
  type : EventType
  minLength : 1 ≤ package.length
  maxLength : package.length ≤ 200

/-- A decoded JSON value. A number is kept as it is written. -/
inductive Json where
  | null
  | bool (b : Bool)
  | number (literal : Str)
  | string (s : Str)
  | array (items : List Json)
  | object (items : List (Str × Json))

/-- A piece of a message: text, a value printed with `!r`, or what a library
    says. -/
inductive Piece where
  | text (s : Str)
  | repr (s : Str)
  | library
  deriving DecidableEq

/-- A message, in pieces. -/
abbrev Message := List Piece

/-- Why the database refuses a statement or a commit. -/
inductive DbFault where
  | sequenceExhausted
  | integerOutOfRange
  | other
  deriving DecidableEq

/-- The exceptions of the server and of the libraries it calls. -/
inductive Exc where
  | valueError (message : Message)
  | jsonDecodeError
  | validationError
  | attributeError
  | packageNotFoundError (package : Str)
  | pypiUpstreamError (package : Str) (statusCode : Nat)
  | timeoutException
  | transportError
  | redisError
  | osError
  | dbapiError (fault : DbFault)
  | multipleResultsFound
  | httpException (statusCode : Nat) (detail : Message)
  deriving DecidableEq

/-- `isinstance(exc, ValueError)` -/
def Exc.isValueError : Exc → Bool
  | .valueError _ => true
  | .jsonDecodeError => true
  | .validationError => true
  | _ => false

/-- `str(exc)` -/
def Exc.str : Exc → Message
  | .valueError message => message
  | .packageNotFoundError package =>
    [.text "Package '".toList, .text package, .text "' not found on PyPI".toList]
  | .pypiUpstreamError package statusCode =>
    [.text "PyPI returned ".toList, .text (Nat.toDigits 10 statusCode),
      .text " for package '".toList, .text package, .text "'".toList]
  | _ => [.library]

/-- `isinstance(exc, (RedisError, OSError))`: what the Redis client raises. -/
def Exc.isRedisFault : Exc → Bool
  | .redisError => true
  | .osError => true
  | _ => false

/-- What the HTTP client raises. -/
def Exc.isHttpFault : Exc → Bool
  | .timeoutException => true
  | .transportError => true
  | _ => false

/-- What the database driver raises of its own accord. The other two faults are
    PostgreSQL's, and it raises them only where they apply. -/
def Exc.isDbFault : Exc → Bool
  | .dbapiError .other => true
  | _ => false

/-- An upstream response: its status, and its body as `response.json()` reads
    it, with `none` for a body it cannot decode. -/
structure HttpResponse where
  statusCode : Nat
  body : Option Json

/-- `PackageEventStats` -/
structure PackageEventStats where
  count : Nat := 0
  last : Option Instant := none
  deriving DecidableEq

/-- `PackageSummaryResponse`. Dictionaries are the lists of their items. -/
structure PackageSummaryResponse where
  name : Str
  info : List (Str × Json)
  releases : List Str := []
  events : List (EventType × PackageEventStats)

/-- The body of a response. A plain text body is kept as the value it
    prints. -/
inductive Body where
  | accepted
  | summary (s : PackageSummaryResponse)
  | total (count : Nat)
  | last (timestamp : Option Instant)
  | detail (message : Message)
  | internalServerError

/-- What a route answers. -/
structure Response where
  statusCode : Nat
  body : Body

/-- `PackageEvent`, a row of the table. -/
structure PackageEvent where
  id : Nat
  package : Str
  eventType : Str
  count : Nat
  lastTimestamp : Option Instant
  deriving DecidableEq

/-- The upsert of `record_event`, with the values it binds. -/
structure Upsert where
  package : Str
  eventType : Str
  timestamp : DateTime
  deriving DecidableEq

/-- The three `SELECT`s of the store. -/
inductive Query where
  | counts (package : Str)
  | last (package eventType : Str)
  | total (package eventType : Str)
  deriving DecidableEq

/-- The `WHERE` clause of a query. -/
def Query.selects : Query → PackageEvent → Bool
  | .counts package, row => row.package == package
  | .last package eventType, row => row.package == package && row.eventType == eventType
  | .total package eventType, row => row.package == package && row.eventType == eventType

/-- The calls the services await. -/
inductive Eff where
  | redisGet (key : Str)
  | redisSet (key value : Str) (ex : Int)
  | httpGet (url : Str)
  | execute (stmt : Upsert)
  | commit
  | select (query : Query)

/-- What an awaited call returns. -/
def Eff.Reply : Eff → Type
  | .redisGet _ => Option Str
  | .redisSet _ _ _ => Unit
  | .httpGet _ => HttpResponse
  | .execute _ => Unit
  | .commit => Unit
  | .select _ => List PackageEvent

/-- A coroutine of the server. -/
abbrev Coroutine (α : Type) := Prog Eff Eff.Reply Exc α

/-- `await redis.get(key)` -/
abbrev Redis.get (key : Str) : Coroutine (Option Str) := Prog.call (Eff.redisGet key)

/-- `await redis.set(key, value, ex=ex)` -/
abbrev Redis.set (key value : Str) (ex : Int) : Coroutine Unit :=
  Prog.call (Eff.redisSet key value ex)

/-- `await client.get(url)` -/
abbrev Httpx.get (url : Str) : Coroutine HttpResponse := Prog.call (Eff.httpGet url)

/-- `await session.execute(stmt)`, for the upsert -/
abbrev Session.execute (stmt : Upsert) : Coroutine Unit := Prog.call (Eff.execute stmt)

/-- `await session.commit()` -/
abbrev Session.commit : Coroutine Unit := Prog.call Eff.commit

/-- `await session.execute(stmt)`, for a `SELECT` -/
abbrev Session.select (query : Query) : Coroutine (List PackageEvent) :=
  Prog.call (Eff.select query)

/-- What the environment of a process fixes: the cache's time to live, the
    `json` module, the process's local zone and the database session's. -/
structure Deployment where
  ttlSeconds : Int
  dumps : Json → Str
  loads : Str → Option Json
  localZone : Int → Instant
  sessionZone : Int → Instant

end KingPi
