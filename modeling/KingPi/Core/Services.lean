import KingPi.Core.Schema

/-!
# Services and Routes

The coroutines of the server, function by function as the source has them:
the Redis cache, the two PyPI clients, the event store, the package summary
and the routes.

Each `await` of the source is one awaited effect. An `async with` block over a
session needs no code of its own: leaving it without a commit rolls the
transaction back, which is what the server side of `execute` and `commit`
does when a transaction does not get that far.

## Main definitions

* `RedisTTLCache.get`, `RedisTTLCache.set`: The cache.
* `PyPIClient.fetchPackageInfo`: The upstream client.
* `PyPICacheClient.fetchPackageInfo`: The client behind the cache.
* `PostgresEventStore.recordEvent` and the three reads: The event store.
* `getPackageSummary`: The package summary.
* `postEvent`, `getPackage`, `getEventTotal`, `getEventLast`: The routes.
* `Request`, `Request.body`: The entry points.
-/

namespace KingPi

open Async Prog

namespace RedisTTLCache

/-- `RedisTTLCache.get`: a failing Redis is a miss. -/
def get (key : Str) : Coroutine (Option Str) :=
  (Redis.get key).tryCatch fun exc =>
    if exc.isRedisFault then ret none else raise exc

/-- `RedisTTLCache.set`: a failing Redis is no write. -/
def set (key value : Str) (ttlSeconds : Int) : Coroutine Unit :=
  (Redis.set key value ttlSeconds).tryCatch fun exc =>
    if exc.isRedisFault then ret () else raise exc

end RedisTTLCache

/-- `response.json()` -/
def HttpResponse.json (response : HttpResponse) : Except Exc Json :=
  match response.body with
  | some value => .ok value
  | none => .error .jsonDecodeError

/-- The exception of a name the guard rejects. -/
def invalidPackageName (package : Str) : Exc :=
  .valueError [.text "Invalid package name: ".toList, .repr package]

/-- `PyPIClient.fetch_package_info` -/
def PyPIClient.fetchPackageInfo (package : Str) : Coroutine Json := do
  if !isValidPackage package then
    raise (invalidPackageName package)
  else
    let response ← Httpx.get (packageUrl package)
    if response.statusCode = 200 then
      fromExcept response.json
    else if response.statusCode = 404 then
      raise (.packageNotFoundError package)
    else
      raise (.pypiUpstreamError package response.statusCode)

theorem PyPIClient.fetchPackageInfo_invalid (package : Str)
    (h : isValidPackage package = false) :
    PyPIClient.fetchPackageInfo package = raise (invalidPackageName package) := by
  unfold PyPIClient.fetchPackageInfo
  simp only [h, Bool.not_false, if_true]

theorem PyPIClient.fetchPackageInfo_valid (package : Str) (h : isValidPackage package = true) :
    PyPIClient.fetchPackageInfo package = (Httpx.get (packageUrl package)).bind fun response =>
      if response.statusCode = 200 then fromExcept response.json
      else if response.statusCode = 404 then raise (.packageNotFoundError package)
      else raise (.pypiUpstreamError package response.statusCode) := by
  unfold PyPIClient.fetchPackageInfo
  simp only [h, Bool.not_true, Bool.false_eq_true, if_false, bind_eq]

/-- `json.loads` -/
def Deployment.jsonLoads (dep : Deployment) (s : Str) : Except Exc Json :=
  match dep.loads s with
  | some value => .ok value
  | none => .error .jsonDecodeError

/-- `PyPICacheClient.fetch_package_info` -/
def PyPICacheClient.fetchPackageInfo (dep : Deployment) (package : Str) : Coroutine Json := do
  let cached ← RedisTTLCache.get (cacheKey package)
  match cached with
  | some cached => fromExcept (dep.jsonLoads cached)
  | none =>
    let data ← PyPIClient.fetchPackageInfo package
    RedisTTLCache.set (cacheKey package) (dep.dumps data) dep.ttlSeconds
    return data

/-- `Result.scalar_one_or_none` -/
def scalarOneOrNone {α : Type} : List α → Except Exc (Option α)
  | [] => .ok none
  | [value] => .ok (some value)
  | _ :: _ :: _ => .error .multipleResultsFound

/-- Assignment to a key of a dictionary. -/
def dictSet {α : Type} (d : List (Str × α)) (key : Str) (value : α) : List (Str × α) :=
  if d.any (fun item => item.1 == key) then
    d.map (fun item => if item.1 == key then (key, value) else item)
  else d ++ [(key, value)]

/-- A dictionary comprehension: a later item with the same key wins. -/
def dictOf {α : Type} (items : List (Str × α)) : List (Str × α) :=
  items.foldl (fun d item => dictSet d item.1 item.2) []

namespace PostgresEventStore

/-- `PostgresEventStore.record_event` -/
def recordEvent (package eventType : Str) (timestamp : DateTime) : Coroutine Unit := do
  Session.execute ⟨package, eventType, timestamp⟩
  Session.commit

/-- `PostgresEventStore.get_counts` -/
def getCounts (package : Str) : Coroutine (List (Str × Nat)) := do
  let result ← Session.select (.counts package)
  return dictOf (result.map (fun row => (row.eventType, row.count)))

/-- `PostgresEventStore.get_last` -/
def getLast (package eventType : Str) : Coroutine (Option Instant) := do
  let result ← Session.select (.last package eventType)
  let row ← fromExcept (scalarOneOrNone (result.map (fun row => row.lastTimestamp)))
  return row.join

/-- `PostgresEventStore.get_total` -/
def getTotal (package eventType : Str) : Coroutine Nat := do
  let result ← Session.select (.total package eventType)
  let count ← fromExcept (scalarOneOrNone (result.map (fun row => row.count)))
  return count.getD 0

end PostgresEventStore

/-- `data.get(key, {})`, on a value that need not be a dictionary. -/
def Json.getOrEmpty (data : Json) (key : Str) : Except Exc Json :=
  match data with
  | .object items => .ok ((items.lookup key).getD (.object []))
  | _ => .error .attributeError

/-- `list(value.keys())`, on a value that need not be a dictionary. -/
def Json.keys : Json → Except Exc (List Str)
  | .object items => .ok (items.map Prod.fst)
  | _ => .error .attributeError

/-- Building the response model: `info` has to be a dictionary. -/
def buildSummary (name : Str) (data : Json) (events : List (EventType × PackageEventStats)) :
    Except Exc PackageSummaryResponse := do
  let info ← data.getOrEmpty "info".toList
  let releases ← (← data.getOrEmpty "releases".toList).keys
  match info with
  | .object items => .ok { name := name, info := items, releases := releases, events := events }
  | _ => .error .validationError

/-- The loop of `get_package_summary` over the event types. -/
def collectStats (name : Str) (counts : List (Str × Nat)) :
    List EventType → Coroutine (List (EventType × PackageEventStats))
  | [] => ret []
  | eventType :: rest => do
    let last ← PostgresEventStore.getLast name eventType.value
    let events ← collectStats name counts rest
    return (eventType, { count := (counts.lookup eventType.value).getD 0, last := last }) :: events

/-- `get_package_summary` -/
def getPackageSummary (dep : Deployment) (name : Str) : Coroutine PackageSummaryResponse := do
  let data ← PyPICacheClient.fetchPackageInfo dep name
  let counts ← PostgresEventStore.getCounts name
  let events ← collectStats name counts EventType.members
  fromExcept (buildSummary name data events)

/-- The `except` clauses shared by the two routes that fetch metadata. They
    differ in the detail of a 404. -/
def translate (notFound : Message) : Exc → Exc
  | .packageNotFoundError _ => .httpException 404 notFound
  | .pypiUpstreamError package statusCode =>
    .httpException 502 (Exc.pypiUpstreamError package statusCode).str
  | .timeoutException => .httpException 504 [.text "PyPI request timed out".toList]
  | exc => if exc.isValueError then .httpException 400 exc.str else exc

/-- `post_event` -/
def postEvent (dep : Deployment) (event : EventIn) : Coroutine Response := do
  let _ ← (PyPICacheClient.fetchPackageInfo dep event.package).tryCatch fun exc =>
    raise (translate [.text "Package '".toList, .text event.package,
      .text "' not found on PyPI".toList] exc)
  PostgresEventStore.recordEvent event.package event.type.value event.timestamp
  return { statusCode := 201, body := .accepted }

/-- `get_package` -/
def getPackage (dep : Deployment) (name : Str) : Coroutine Response :=
  (do
    let summary ← getPackageSummary dep name
    return { statusCode := 200, body := .summary summary } : Coroutine Response).tryCatch fun exc =>
    raise (translate [.text "Package '".toList, .text name, .text "' not found".toList] exc)

/-- `get_event_total` -/
def getEventTotal (name : Str) (eventType : EventType) : Coroutine Response := do
  let total ← PostgresEventStore.getTotal name eventType.value
  return { statusCode := 200, body := .total total }

/-- `get_event_last` -/
def getEventLast (name : Str) (eventType : EventType) : Coroutine Response := do
  let last ← PostgresEventStore.getLast name eventType.value
  return { statusCode := 200, body := .last last }

/-- What the framework makes of an exception that leaves a route. -/
def errorResponse : Exc → Response
  | .httpException statusCode detail => { statusCode := statusCode, body := .detail detail }
  | _ => { statusCode := 500, body := .internalServerError }

/-- A route as the framework runs it. -/
def handle (route : Coroutine Response) : Coroutine Response :=
  route.tryCatch fun exc => ret (errorResponse exc)

/-- The entry points: the routes, and the cached client on its own. -/
inductive Request where
  | fetch (package : Str)
  | postEvent (event : EventIn)
  | getPackage (name : Str)
  | getEventTotal (name : Str) (eventType : EventType)
  | getEventLast (name : Str) (eventType : EventType)

/-- What an entry point returns. -/
inductive Answer where
  | data (value : Json)
  | http (response : Response)

/-- The coroutine serving a request. -/
def Request.body (dep : Deployment) : Request → Coroutine Answer
  | .fetch package => (PyPICacheClient.fetchPackageInfo dep package).bind fun v => ret (.data v)
  | .postEvent event => (handle (KingPi.postEvent dep event)).bind fun r => ret (.http r)
  | .getPackage name => (handle (KingPi.getPackage dep name)).bind fun r => ret (.http r)
  | .getEventTotal name t => (handle (KingPi.getEventTotal name t)).bind fun r => ret (.http r)
  | .getEventLast name t => (handle (KingPi.getEventLast name t)).bind fun r => ret (.http r)

end KingPi
