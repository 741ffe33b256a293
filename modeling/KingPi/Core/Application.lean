import KingPi.Core.World
import KingPi.Async.Monitor

/-!
# The Application and Its Lifespan

The services work on objects that somebody has to build: the event store on
an engine, the clients on an HTTP and a Redis client. `lifespan` builds them
when a worker starts and takes them down when it stops, and in between it
leaves them in the globals of `dependencies`, where the routes find them.

A worker is a process, and the globals are its own. An application is started
once, but `create_app` is there to make any number of them, and the tests do,
so several lifespans may run in one worker, one after the other or at the same
time. Nothing rules that out, so it is not ruled out here.

The getters are ordinary functions, which the framework runs on a thread of
their own. So what goes on in the event loop may come between any two accesses
to a global, even between the check of a getter and its `return`, and each of
these accesses is a step.

A call can raise whatever the library raises, and a coroutine can be cancelled
at each of its awaits. A close that raises counts as a close all the same: the
code has done what it can.

`log` is a history variable like the trace of the world.

## Main definitions

* `Slot`: The globals of `dependencies`.
* `Call`: The calls the application makes.
* `lifespan`: Startup, serving and shutdown.
* `healthReady`: The readiness probe.
* `Route.body`: A route, with its dependencies.
* `AppWorld.serve`, `application`: The application as a system.
-/

namespace KingPi

open Async Prog

/-- What a lifespan opens and closes. -/
inductive Resource where
  | engine
  | httpClient
  | redisClient
  deriving DecidableEq

/-- A resource, named after the lifespan that opened it. -/
structure Handle where
  kind : Resource
  lifespan : Nat
  deriving DecidableEq

/-- `async_sessionmaker`, bound to an engine. -/
structure SessionFactory where
  engine : Handle

/-- An object of class `PostgresEventStore`. -/
structure PostgresEventStore where
  sessionFactory : SessionFactory

/-- An object of class `RedisTTLCache`. -/
structure RedisTTLCache where
  redis : Handle

/-- An object of class `PyPIClient`. -/
structure PyPIClient where
  client : Handle

/-- An object of class `PyPICacheClient`. -/
structure PyPICacheClient where
  client : PyPIClient
  cache : RedisTTLCache
  ttlSeconds : Int

/-- The globals of `dependencies` that a lifespan sets. -/
inductive Slot where
  | eventStore
  | pypiCacheClient
  | sessionFactory
  | redisClient
  deriving DecidableEq

/-- What a global holds when it is set. -/
def Slot.Object : Slot → Type
  | .eventStore => PostgresEventStore
  | .pypiCacheClient => PyPICacheClient
  | .sessionFactory => SessionFactory
  | .redisClient => Handle

/-- The resources an object works on. -/
def Slot.uses : (s : Slot) → s.Object → List Handle
  | .eventStore, store => [store.sessionFactory.engine]
  | .pypiCacheClient, client => [client.client.client, client.cache.redis]
  | .sessionFactory, factory => [factory.engine]
  | .redisClient, redis => [redis]

/-- The exceptions that pass through the application. -/
inductive AppExc where
  | runtimeError (message : Str)
  | attributeError
  | typeError
  | timeoutError
  | cancelledError
  | libraryError
  | service (exc : Exc)
  deriving DecidableEq

/-- `isinstance(exc, Exception)`: everything but a cancellation. -/
def AppExc.isException : AppExc → Bool
  | .cancelledError => false
  | _ => true

/-- What an awaited call of a library raises. -/
def AppExc.isCallFault : AppExc → Bool
  | .timeoutError => true
  | .cancelledError => true
  | .libraryError => true
  | _ => false

/-- What opening a resource raises. The engine and the Redis client are made
    without an `await`, so that there a cancellation cannot come in. -/
def Resource.isAcquireFault : Resource → AppExc → Bool
  | .httpClient, exc => exc.isCallFault
  | _, exc => decide (exc = .libraryError)

/-- The calls the application makes. `serving` is the `yield` of the lifespan;
    `service` is a call of the services, on the objects they were given. -/
inductive Call where
  | acquire (kind : Resource)
  | release (h : Handle)
  | createAll (engine : Handle)
  | assign (worker : Nat) (s : Slot) (value : Option s.Object)
  | load (worker : Nat) (s : Slot)
  | serving
  | selectOne (factory : SessionFactory)
  | closeSession (factory : SessionFactory)
  | ping (redis : Handle)
  | service (store : Option PostgresEventStore) (pypi : Option PyPICacheClient) (e : Eff)

/-- What a call returns. The services handle their exceptions themselves. -/
def Call.Reply : Call → Type
  | .acquire _ => Handle
  | .load _ s => Option s.Object
  | .service _ _ e => Except Exc e.Reply
  | _ => Unit

/-- A coroutine of the application. -/
abbrev App (α : Type) := Prog Call Call.Reply AppExc α

/-- `create_async_engine` -/
def createAsyncEngine : App Handle := call (Call.acquire .engine)

/-- `await engine.dispose()` -/
def Engine.dispose (engine : Handle) : App Unit := call (Call.release engine)

/-- Entering `async with httpx.AsyncClient(...)`. -/
def AsyncClient.enter : App Handle := call (Call.acquire .httpClient)

/-- Leaving `async with httpx.AsyncClient(...)`. -/
def AsyncClient.exit (client : Handle) : App Unit := call (Call.release client)

/-- `aioredis.from_url` -/
def Redis.fromUrl : App Handle := call (Call.acquire .redisClient)

/-- `await redis_client.aclose()` -/
def Redis.aclose (redis : Handle) : App Unit := call (Call.release redis)

/-- `build_engine` -/
def buildEngine : App (Handle × SessionFactory) := do
  let engine ← createAsyncEngine
  return (engine, { engine := engine })

/-- `set_event_store` -/
def setEventStore (worker : Nat) (store : Option PostgresEventStore) : App Unit :=
  call (Call.assign worker .eventStore store)

/-- `set_pypi_cache_client` -/
def setPypiCacheClient (worker : Nat) (client : Option PyPICacheClient) : App Unit :=
  call (Call.assign worker .pypiCacheClient client)

/-- `set_session_factory` -/
def setSessionFactory (worker : Nat) (factory : Option SessionFactory) : App Unit :=
  call (Call.assign worker .sessionFactory factory)

/-- `set_redis_client` -/
def setRedisClient (worker : Nat) (client : Option Handle) : App Unit :=
  call (Call.assign worker .redisClient client)

/-- A getter of `dependencies`. It reads the global to check it and once more to
    return it. -/
def getDependency (worker : Nat) (s : Slot) (name : Str) : App (Option s.Object) :=
  (call (Call.load worker s) : App (Option s.Object)).bind fun value =>
    match value with
    | none => raise (.runtimeError (name ++ " not initialized — is lifespan wired?".toList))
    | some _ => call (Call.load worker s)

/-- `get_event_store` -/
def getEventStore (worker : Nat) : App (Option PostgresEventStore) :=
  getDependency worker .eventStore "EventStore".toList

/-- `get_pypi_cache_client` -/
def getPypiCacheClient (worker : Nat) : App (Option PyPICacheClient) :=
  getDependency worker .pypiCacheClient "PyPICacheClient".toList

/-- `get_session_factory` -/
def getSessionFactory (worker : Nat) : App (Option SessionFactory) :=
  getDependency worker .sessionFactory "Session factory".toList

/-- `get_redis_client` -/
def getRedisClient (worker : Nat) : App (Option Handle) :=
  getDependency worker .redisClient "Redis client".toList

/-- The body of the inner `try` of `lifespan`. -/
def serveRequests (dep : Deployment) (worker : Nat) (httpClient redisClient : Handle) :
    App Unit := do
  setRedisClient worker (some redisClient)
  let cache : RedisTTLCache := { redis := redisClient }
  let cachedClient : PyPICacheClient :=
    { client := { client := httpClient }, cache := cache, ttlSeconds := dep.ttlSeconds }
  setPypiCacheClient worker (some cachedClient)
  call Call.serving

/-- The body of the `async with httpx.AsyncClient(...)` of `lifespan`. -/
def withClient (dep : Deployment) (worker : Nat) (httpClient : Handle) : App Unit := do
  let redisClient ← Redis.fromUrl
  (serveRequests dep worker httpClient redisClient).tryFinally (do
    setPypiCacheClient worker none
    setRedisClient worker none
    Redis.aclose redisClient)

/-- The body of the outer `try` of `lifespan`. -/
def withEngine (dep : Deployment) (worker : Nat) (engine : Handle) (factory : SessionFactory) :
    App Unit := do
  call (Call.createAll engine)
  setEventStore worker (some { sessionFactory := factory })
  setSessionFactory worker (some factory)
  asyncWith AsyncClient.enter AsyncClient.exit (withClient dep worker)

/-- `lifespan` -/
def lifespan (dep : Deployment) (worker : Nat) : App Unit := do
  let (engine, sessionFactory) ← buildEngine
  (withEngine dep worker engine sessionFactory).tryFinally (do
    setEventStore worker none
    setSessionFactory worker none
    Engine.dispose engine)

/-- The status of a dependency in a readiness response. -/
inductive CheckStatus where
  | up
  | down
  deriving DecidableEq

/-- The overall status of a readiness response. -/
inductive Readiness where
  | healthy
  | degraded
  | unhealthy
  deriving DecidableEq

/-- What `/health/ready` answers, without the response times. -/
structure ReadyResponse where
  statusCode : Nat
  status : Readiness
  database : CheckStatus
  redis : CheckStatus
  deriving DecidableEq

/-- The `except` clause of the two checks. -/
def orDown (check : App Unit) : App CheckStatus :=
  (check.bind fun _ => ret .up).tryCatch fun exc =>
    if exc.isException then ret .down else raise exc

/-- `_check_db`. A factory that is `None` cannot be called. -/
def checkDb (sessionFactory : Option SessionFactory) : App CheckStatus :=
  orDown (match sessionFactory with
    | none => raise .typeError
    | some factory => (call (Call.selectOne factory)).tryFinally (call (Call.closeSession factory)))

/-- `_check_redis`. A client that is `None` has no method `ping`. -/
def checkRedis (redisClient : Option Handle) : App CheckStatus :=
  orDown (match redisClient with
    | none => raise .attributeError
    | some redis => call (Call.ping redis))

/-- The response of `health_ready` for the results of its checks. -/
def readyResponse (database redis : CheckStatus) : ReadyResponse :=
  let dbUp := decide (database = .up)
  let redisUp := decide (redis = .up)
  let status : Readiness :=
    if dbUp && redisUp then .healthy
    else if dbUp && !redisUp then .degraded
    else .unhealthy
  let statusCode := if status = .healthy ∨ status = .degraded then 200 else 503
  { statusCode := statusCode, status := status, database := database, redis := redis }

/-- `health_ready`, with its dependencies. -/
def healthReady (worker : Nat) : App ReadyResponse := do
  let sessionFactory ← getSessionFactory worker
  let redisClient ← getRedisClient worker
  let dbCheck ← checkDb sessionFactory
  let redisCheck ← checkRedis redisClient
  return readyResponse dbCheck redisCheck

/-- The routes that use the services. -/
inductive Route where
  | postEvent (event : EventIn)
  | getPackage (name : Str)
  | getEventTotal (name : Str) (eventType : EventType)
  | getEventLast (name : Str) (eventType : EventType)

/-- A route as a request of the server. -/
def Route.request : Route → Request
  | .postEvent event => .postEvent event
  | .getPackage name => .getPackage name
  | .getEventTotal name eventType => .getEventTotal name eventType
  | .getEventLast name eventType => .getEventLast name eventType

/-- A coroutine of the services, on the objects it was given. -/
def onObjects {α : Type} (store : Option PostgresEventStore) (pypi : Option PyPICacheClient) :
    Coroutine α → App α
  | .ret a => .ret a
  | .raise x => .raise (.service x)
  | .await e k => .await (Call.service store pypi e) fun r =>
    match r with
    | .ok reply => onObjects store pypi (k reply)
    | .error x => .raise x

/-- The time to live is that of the client the route was given. -/
def Deployment.given (dep : Deployment) (pypi : Option PyPICacheClient) : Deployment :=
  { dep with ttlSeconds := (pypi.map PyPICacheClient.ttlSeconds).getD dep.ttlSeconds }

/-- A route with the dependencies it declares, in the order it declares them. -/
def Route.body (dep : Deployment) (worker : Nat) : Route → App Answer
  | .postEvent event => do
    let store ← getEventStore worker
    let pypi ← getPypiCacheClient worker
    onObjects store pypi ((Request.postEvent event).body (dep.given pypi))
  | .getPackage name => do
    let pypi ← getPypiCacheClient worker
    let store ← getEventStore worker
    onObjects store pypi ((Request.getPackage name).body (dep.given pypi))
  | .getEventTotal name eventType => do
    let store ← getEventStore worker
    onObjects store none ((Request.getEventTotal name eventType).body (dep.given none))
  | .getEventLast name eventType => do
    let store ← getEventStore worker
    onObjects store none ((Request.getEventLast name eventType).body (dep.given none))

/-- What can happen in a worker: a lifespan of an application, or a request. -/
inductive AppRequest where
  | lifespan (worker : Nat)
  | health (worker : Nat)
  | healthReady (worker : Nat)
  | route (worker : Nat) (r : Route)

/-- What comes of it. -/
inductive AppAnswer where
  | stopped
  | alive
  | ready (response : ReadyResponse)
  | service (answer : Answer)
  | internalServerError

/-- An exception that leaves a route becomes a response, but a cancellation does
    not. -/
def respond (route : App AppAnswer) : App AppAnswer :=
  route.tryCatch fun exc => if exc.isException then ret .internalServerError else raise exc

/-- The coroutine of a request. -/
def AppRequest.body (dep : Deployment) : AppRequest → App AppAnswer
  | .lifespan worker => (KingPi.lifespan dep worker).bind fun _ => ret .stopped
  | .health _ => ret .alive
  | .healthReady worker => respond ((KingPi.healthReady worker).bind fun r => ret (.ready r))
  | .route worker r => respond ((r.body dep worker).bind fun a => ret (.service a))

/-- What the log records: arrivals, calls with their results, answers. -/
inductive Mark where
  | started (i : Nat) (q : AppRequest)
  | called (i : Nat) (c : Call) (r : Except AppExc c.Reply)
  | answered (i : Nat) (q : AppRequest) (r : Except AppExc AppAnswer)

/-- The world with the globals of the workers and what was opened and closed. -/
structure AppWorld where
  world : World
  globals : Nat → (s : Slot) → Option s.Object
  opened : List Handle
  closed : List Handle
  log : List Mark

/-- How a call can end. -/
inductive AppFate where
  | ok
  | fail (exc : AppExc)
  | service (fate : Fate)

namespace AppWorld

/-- A resource is opened. -/
def acquire (w : AppWorld) (h : Handle) : AppWorld := { w with opened := w.opened ++ [h] }

/-- A resource is closed. -/
def release (w : AppWorld) (h : Handle) : AppWorld := { w with closed := w.closed ++ [h] }

/-- A global of a worker is set. -/
def assign (w : AppWorld) (worker : Nat) (s : Slot) (value : Option s.Object) : AppWorld :=
  { w with
    globals := Function.update w.globals worker (Function.update (w.globals worker) s value) }

/-- The transaction of a request, if it has one, goes when the request leaves
    its session. -/
def leave (w : AppWorld) (i : Nat) : AppWorld := { w with world := w.world.rollback i }

/-- Why a call of the services cannot be made on the objects they were given:
    `None` has no methods, and a closed HTTP client refuses to send anything. -/
def refusal (w : AppWorld) (store : Option PostgresEventStore) (pypi : Option PyPICacheClient) :
    Eff → Option AppExc
  | .redisGet _ => if pypi.isNone then some .attributeError else none
  | .redisSet _ _ _ => if pypi.isNone then some .attributeError else none
  | .httpGet _ => match pypi with
    | none => some .attributeError
    | some client =>
      if client.client.client ∈ w.closed then
        some (.runtimeError "Cannot send a request, as the client has been closed.".toList)
      else none
  | .execute _ => if store.isNone then some .attributeError else none
  | .commit => if store.isNone then some .attributeError else none
  | .select _ => if store.isNone then some .attributeError else none

/-- The effects of calls on what the application shares. -/
def perform (dep : Deployment) (i : Nat) :
    (c : Call) → AppFate → AppWorld → Option (Except AppExc c.Reply × AppWorld)
  | .acquire kind, .ok, w => some (.ok ⟨kind, i⟩, w.acquire ⟨kind, i⟩)
  | .acquire kind, .fail exc, w => if kind.isAcquireFault exc then some (.error exc, w) else none
  | .release h, .ok, w => some (.ok (), w.release h)
  | .release h, .fail exc, w => if exc.isCallFault then some (.error exc, w.release h) else none
  | .assign worker s value, .ok, w => some (.ok (), w.assign worker s value)
  | .load worker s, .ok, w => some (.ok (w.globals worker s), w)
  | .createAll _, .ok, w => some (.ok (), w)
  | .createAll _, .fail exc, w => if exc.isCallFault then some (.error exc, w) else none
  | .serving, .ok, w => some (.ok (), w)
  | .serving, .fail exc, w => if exc.isCallFault then some (.error exc, w) else none
  | .selectOne _, .ok, w => some (.ok (), w)
  | .selectOne _, .fail exc, w => if exc.isCallFault then some (.error exc, w) else none
  | .closeSession _, .ok, w => some (.ok (), w)
  | .closeSession _, .fail exc, w => if exc.isCallFault then some (.error exc, w) else none
  | .ping _, .ok, w => some (.ok (), w)
  | .ping _, .fail exc, w => if exc.isCallFault then some (.error exc, w) else none
  | .service store pypi e, .service fate, w => match w.refusal store pypi e with
    | some exc => some (.error exc, w.leave i)
    | none => match w.world.serve dep i e fate with
      | some (r, world) => some (.ok r, { w with world := world })
      | none => none
  | _, _, _ => none

/-- The effects of calls, with their records. -/
def serve (dep : Deployment) (i : Nat) (c : Call) (fate : AppFate) (w : AppWorld) :
    Option (Except AppExc c.Reply × AppWorld) :=
  match w.perform dep i c fate with
  | some (r, w') => some (r, { w' with log := w'.log ++ [.called i c r] })
  | none => none

/-- Record an arrival or an answer. -/
def note (w : AppWorld) (m : Mark) : AppWorld := { w with log := w.log ++ [m] }

end AppWorld

/-- The application: any number of lifespans and requests, in any number of
    workers, over one world. -/
def application (dep : Deployment) :
    System Call Call.Reply AppExc AppAnswer AppRequest AppFate Env AppWorld where
  body := AppRequest.body dep
  onStart i q w := w.note (.started i q)
  serve := AppWorld.serve dep
  onAnswer i q r w := w.note (.answered i q r)
  onAbort i w := w.leave i
  env a w := (World.env a w.world).map fun world => { w with world := world }

/-- A fresh deployment, before any worker has started. -/
def idle : AppWorld :=
  { world := boot, globals := fun _ _ => none, opened := [], closed := [], log := [] }

/-- The states of the application. -/
abbrev AppState := Config Call Call.Reply AppExc AppAnswer AppRequest AppWorld

/-- The states reachable from a fresh deployment. -/
def AppReachable (dep : Deployment) (c : AppState) : Prop :=
  Reaches (application dep) (Config.init idle) c

end KingPi
