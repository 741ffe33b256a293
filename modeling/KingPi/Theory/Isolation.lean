import KingPi.Theory.Constraints
import KingPi.Theory.Lifecycle
import KingPi.Async.Isolation

/-!
# Packages Apart

What is stored about a package is keyed by its name, in the table by the name as
it is written and in the cache by its normal form. So requests about packages
with different normal forms should have nothing to do with each other, however
they are interleaved, and whatever happens to them.

They do share one thing. Every upsert draws an identifier, and an upsert that
finds the sequence exhausted fails. The identifiers of the rows are therefore not
what they would be without the other requests, and one of these can make another
fail. But no service looks at an identifier, and a statement may fail for other
reasons as well, which the route does not tell apart. What the requests about
some packages go through beside others they could have gone through alone: the
same answers, the same records of their calls in the same order, the same rows up
to their identifiers.

## Main definitions

* `Eff.About`: A call is about a package.
* `Eff.Alike`: Two answers that no service can tell apart.
* `SameFor`: Two worlds that are the same as far as some packages go.
* `StandsAlone`: Where a request stands without the others.

## Theorems

* `inStep_body`: A request is about its package, and cannot tell alike answers apart.
* `sees_serve`, `sees_other`: What a call does, for its package and for others.
* `isolated`: Packages are isolated from each other.
-/

namespace KingPi

open Async Prog

/-- The package a request is about. -/
def Request.package : Request → Str
  | .fetch package => package
  | .postEvent event => event.package
  | .getPackage name => name
  | .getEventTotal name _ => name
  | .getEventLast name _ => name

/-- The package a query is about. -/
def Query.package : Query → Str
  | .counts package => package
  | .last package _ => package
  | .total package _ => package

/-- A call is about a package. -/
def Eff.About (p : Str) : Eff → Prop
  | .redisGet key => key = cacheKey p
  | .redisSet key _ _ => key = cacheKey p
  | .httpGet _ => True
  | .execute stmt => stmt.package = p
  | .commit => True
  | .select query => query.package = p

/-- A row without its identifier. -/
def PackageEvent.plain (row : PackageEvent) : PackageEvent := { row with id := 0 }

/-- Two answers that no service can tell apart: rows that differ in their
    identifiers, or two refusals of the database. -/
def Eff.Alike : (e : Eff) → Except Exc e.Reply → Except Exc e.Reply → Prop
  | .select _, .ok (rows : List PackageEvent), .ok (rows' : List PackageEvent) =>
    rows.map PackageEvent.plain = rows'.map PackageEvent.plain
  | .execute _, .error (.dbapiError _), .error (.dbapiError _) => True
  | _, r, r' => r = r'

section Programs

variable (dep : Deployment) (p : Str)

theorem alike_refl (e : Eff) (r : Except Exc e.Reply) : e.Alike r r := by
  unfold Eff.Alike
  split
  · rfl
  · trivial
  · rfl

/-- Two programs that make the same calls about a package, for as long as these are
    answered alike. -/
abbrev InStep {α : Type} (Post : Except Exc α → Except Exc α → Prop) (c c' : Coroutine α) : Prop :=
  Lockstep Eff.Alike (Eff.About p) Post c c'

/-- A program about a package that cannot tell alike answers apart. -/
abbrev Blind {α : Type} (c : Coroutine α) : Prop := InStep p (fun r r' => r = r') c c

/-- The same outcome, or two refusals of the database. -/
def SameOutcome {α : Type} (r r' : Except Exc α) : Prop :=
  r = r' ∨ (∃ fault, r = .error (.dbapiError fault)) ∧ ∃ fault, r' = .error (.dbapiError fault)

theorem blind_fromExcept {α : Type} (r : Except Exc α) : Blind p (fromExcept r) :=
  lockstep_fromExcept r r rfl

theorem blind_bind {α β : Type} (c : Coroutine α) (f : α → Coroutine β) (hc : Blind p c)
    (hf : ∀ a, Blind p (f a)) : Blind p (c.bind f) :=
  lockstep_then c c f hc (fun _ => rfl) hf

theorem blind_tryCatch {α : Type} (c : Coroutine α) (g : Exc → Coroutine α) (hc : Blind p c)
    (hg : ∀ x, Blind p (g x)) : Blind p (c.tryCatch g) :=
  lockstep_handled c c g hc hg

theorem blind_cacheGet : Blind p (RedisTTLCache.get (cacheKey p)) := by
  refine blind_tryCatch p _ _ (lockstep_call rfl (fun _ _ h => h)) (fun x => ?_)
  split
  · exact blind_fromExcept p (.ok none)
  · exact blind_fromExcept p (.error x)

theorem blind_cacheSet (value : Str) (ex : Int) :
    Blind p (RedisTTLCache.set (cacheKey p) value ex) := by
  refine blind_tryCatch p _ _ (lockstep_call rfl (fun _ _ h => h)) (fun x => ?_)
  split
  · exact blind_fromExcept p (.ok ())
  · exact blind_fromExcept p (.error x)

theorem blind_clientFetch : Blind p (PyPIClient.fetchPackageInfo p) := by
  cases hp : isValidPackage p with
  | false =>
      rw [PyPIClient.fetchPackageInfo_invalid p hp]
      exact blind_fromExcept p (.error (invalidPackageName p))
  | true =>
      rw [PyPIClient.fetchPackageInfo_valid p hp]
      refine blind_bind p _ _ (lockstep_call trivial (fun _ _ h => h)) (fun response => ?_)
      split
      · exact blind_fromExcept p _
      · split
        · exact blind_fromExcept p (.error (.packageNotFoundError p))
        · exact blind_fromExcept p (.error (.pypiUpstreamError p response.statusCode))

theorem blind_fetch : Blind p (PyPICacheClient.fetchPackageInfo dep p) := by
  refine blind_bind p _ _ (blind_cacheGet p) (fun cached => ?_)
  cases cached with
  | some value => exact blind_fromExcept p _
  | none =>
      refine blind_bind p _ _ (blind_clientFetch p) (fun data => ?_)
      exact blind_bind p _ _ (blind_cacheSet p _ _) (fun _ => blind_fromExcept p (.ok data))

/-- A `SELECT`, and what is made of its rows without their identifiers. -/
theorem blind_select {α : Type} (query : Query) (f : List PackageEvent → Coroutine α)
    (hquery : query.package = p) (hplain : ∀ rows, f rows = f (rows.map PackageEvent.plain))
    (hf : ∀ rows, Blind p (f rows)) : Blind p ((Session.select query).bind f) := by
  refine lockstep_bind _ _ _ _ (lockstep_call hquery (fun r r' h => ?_))
  cases r with
  | ok rows =>
      cases r' with
      | ok rows' =>
          change InStep p _ (f rows) (f rows')
          have hrows : rows.map PackageEvent.plain = rows'.map PackageEvent.plain := h
          rw [hplain rows, hrows, ← hplain rows']
          exact hf rows'
      | error x => nomatch h
  | error x =>
      cases r' with
      | ok rows' => nomatch h
      | error x' =>
          cases h
          exact blind_fromExcept p (.error x)

theorem blind_getCounts : Blind p (PostgresEventStore.getCounts p) := by
  refine blind_select p _ _ rfl (fun rows => ?_) (fun _ => blind_fromExcept p (.ok _))
  rw [List.map_map]
  rfl

theorem blind_getLast (t : Str) : Blind p (PostgresEventStore.getLast p t) := by
  refine blind_select p _ _ rfl (fun rows => ?_) (fun rows => ?_)
  · rw [List.map_map]
    rfl
  · exact blind_bind p _ _ (blind_fromExcept p _) (fun row => blind_fromExcept p (.ok row.join))

theorem blind_getTotal (t : Str) : Blind p (PostgresEventStore.getTotal p t) := by
  refine blind_select p _ _ rfl (fun rows => ?_) (fun rows => ?_)
  · rw [List.map_map]
    rfl
  · exact blind_bind p _ _ (blind_fromExcept p _)
      (fun count => blind_fromExcept p (.ok (count.getD 0)))

theorem blind_collectStats (counts : List (Str × Nat)) (types : List EventType) :
    Blind p (collectStats p counts types) := by
  induction types with
  | nil => exact blind_fromExcept p (.ok [])
  | cons t rest ih =>
      refine blind_bind p _ _ (blind_getLast p t.value) (fun last => ?_)
      exact blind_bind p _ _ ih (fun events => blind_fromExcept p (.ok (_ :: events)))

theorem blind_getPackageSummary : Blind p (getPackageSummary dep p) := by
  refine blind_bind p _ _ (blind_fetch dep p) (fun data => ?_)
  refine blind_bind p _ _ (blind_getCounts p) (fun counts => ?_)
  exact blind_bind p _ _ (blind_collectStats p counts _) (fun _ => blind_fromExcept p _)

theorem sameOutcome_of_alike (stmt : Upsert) (r r' : Except Exc Unit)
    (h : (Eff.execute stmt).Alike r r') : SameOutcome r r' := by
  unfold Eff.Alike at h
  split at h
  · rename_i heq _ _
    cases heq
  · exact Or.inr ⟨⟨_, rfl⟩, _, rfl⟩
  · exact Or.inl h

/-- `PostgresEventStore.record_event`. Which refusal it was can be told from what it
    raises. -/
theorem inStep_recordEvent (eventType : Str) (timestamp : DateTime) :
    InStep p SameOutcome (PostgresEventStore.recordEvent p eventType timestamp)
      (PostgresEventStore.recordEvent p eventType timestamp) := by
  refine lockstep_bind _ _ _ _ (lockstep_call rfl (fun r r' h => ?_))
  rcases sameOutcome_of_alike _ r r' h with rfl | ⟨⟨fault, rfl⟩, fault', rfl⟩
  · cases r with
    | ok _ => exact lockstep_call trivial (fun _ _ h => Or.inl h)
    | error x => exact lockstep_fromExcept (.error x) (.error x) (Or.inl rfl)
  · exact lockstep_fromExcept (.error _) (.error _) (Or.inr ⟨⟨fault, rfl⟩, fault', rfl⟩)

/-- A route that ends in the same way but for a refusal answers in the same way. -/
theorem blind_handle (route : Coroutine Response) (h : InStep p SameOutcome route route) :
    Blind p (handle route) := by
  refine lockstep_tryCatch _ _ _ _ (lockstep_mono (fun r r' hr => ?_) _ _ h)
  rcases hr with rfl | ⟨⟨fault, rfl⟩, fault', rfl⟩
  · cases r with
    | ok response => exact blind_fromExcept p (.ok response)
    | error x => exact blind_fromExcept p (.ok (errorResponse x))
  · exact blind_fromExcept p (.ok internalServerError)

theorem sameOutcome_of_blind (route : Coroutine Response) (h : Blind p route) :
    InStep p SameOutcome route route :=
  lockstep_mono (fun _ _ heq => Or.inl heq) _ _ h

theorem inStep_postEvent (e : EventIn) :
    InStep e.package SameOutcome (postEvent dep e) (postEvent dep e) := by
  refine lockstep_then _ _ _ (blind_tryCatch _ _ _ (blind_fetch dep e.package)
    (fun x => blind_fromExcept _ (.error _))) (fun _ => Or.inl rfl) (fun _ => ?_)
  refine lockstep_bind _ _ _ _ (lockstep_mono (fun r r' h => ?_) _ _
    (inStep_recordEvent e.package e.type.value e.timestamp))
  -- The route goes on after its statement, or both have been refused.
  rcases h with rfl | ⟨⟨fault, rfl⟩, fault', rfl⟩
  · cases r with
    | ok _ => exact sameOutcome_of_blind _ _ (blind_fromExcept _ (.ok _))
    | error x => exact sameOutcome_of_blind _ _ (blind_fromExcept _ (.error x))
  · exact lockstep_fromExcept (.error _) (.error _) (Or.inr ⟨⟨fault, rfl⟩, fault', rfl⟩)

/-- A request is about its package, and cannot tell alike answers apart. -/
theorem inStep_body (q : Request) : Blind q.package (q.body dep) := by
  cases q with
  | fetch package =>
      exact blind_bind _ _ _ (blind_fetch dep package) (fun _ => blind_fromExcept _ (.ok _))
  | postEvent e =>
      exact blind_bind _ _ _ (blind_handle _ _ (inStep_postEvent dep e))
        (fun _ => blind_fromExcept _ (.ok _))
  | getPackage name =>
      refine blind_bind _ _ _ (blind_handle _ _ (sameOutcome_of_blind _ _
        (blind_tryCatch _ _ _ (blind_bind _ _ _ (blind_getPackageSummary dep name) (fun summary =>
          blind_fromExcept _ (.ok _))) (fun x => blind_fromExcept _ (.error _)))))
        (fun _ => blind_fromExcept _ (.ok _))
  | getEventTotal name t =>
      exact blind_bind _ _ _ (blind_handle _ _ (sameOutcome_of_blind _ _
        (blind_bind _ _ _ (blind_getTotal name t.value) (fun _ => blind_fromExcept _ (.ok _)))))
        (fun _ => blind_fromExcept _ (.ok _))
  | getEventLast name t =>
      exact blind_bind _ _ _ (blind_handle _ _ (sameOutcome_of_blind _ _
        (blind_bind _ _ _ (blind_getLast name t.value) (fun _ => blind_fromExcept _ (.ok _)))))
        (fun _ => blind_fromExcept _ (.ok _))

end Programs

theorem plain_fields (row row' : PackageEvent) (h : row'.plain = row.plain) :
    row'.package = row.package ∧ row'.eventType = row.eventType ∧ row'.count = row.count ∧
      row'.lastTimestamp = row.lastTimestamp :=
  (PackageEvent.mk.inj h).2

/-- An open transaction, and its row without its identifier. -/
def Pending.plain (x : Pending) : Pending := { x with row := x.row.plain }

/-- A record without the identifier a statement drew. -/
def Obs.plain : Obs → Obs
  | .executed i stmt _ => .executed i stmt none
  | o => o

section Views

variable (K : Str → Bool) (mine : Nat → Bool)

/-- The rows of some packages. -/
def rowsFor (table : List PackageEvent) : List PackageEvent :=
  (table.filter (fun row => K row.package)).map PackageEvent.plain

/-- The open transactions of some requests. -/
def openFor (l : List Pending) : List Pending :=
  (l.filter (fun x => mine x.owner)).map Pending.plain

/-- The records about some requests. -/
def recordsFor (tr : List Obs) : List Obs := (tr.filter (fun o => mine o.owner)).map Obs.plain

/-- Two worlds are the same as far as some packages, and the requests about them, go. -/
structure SameFor (w w' : World) : Prop where
  now : w'.now = w.now
  redis : ∀ p, K p = true → w'.redis (cacheKey p) = w.redis (cacheKey p)
  table : rowsFor K w'.db.table = rowsFor K w.db.table
  pending : openFor mine w'.db.pending = openFor mine w.db.pending
  trace : recordsFor mine w'.trace = recordsFor mine w.trace

/-- An open transaction is about the package of its request. -/
structure Sorted (w : World) : Prop where
  drawn : w.db.drawn ≤ maxInteger
  pending : ∀ x ∈ w.db.pending, mine x.owner = K x.row.package

/-- The world where some requests are alone, and the one where they are not. They have
    drawn at most as many identifiers. -/
structure Sees (w w' : World) : Prop where
  same : SameFor K mine w w'
  sorted : Sorted K mine w
  sorted' : Sorted K mine w'
  drawn : w'.db.drawn ≤ w.db.drawn

variable {K mine}

theorem rowsFor_find (table : List PackageEvent) (p t : Str) (hp : K p = true) :
    Database.find (rowsFor K table) p t = (Database.find table p t).map PackageEvent.plain := by
  have hkey : ∀ row : PackageEvent,
      decide (K row.package = true ∧ row.hasKey p t = true) = row.hasKey p t := by
    intro row
    by_cases hrow : row.hasKey p t = true
    · rw [hrow, (Prod.mk.inj ((hasKey_iff row p t).mp hrow)).1, hp]
      rfl
    · rw [Bool.not_eq_true] at hrow
      rw [hrow]
      simp only [Bool.false_eq_true, and_false, decide_false]
  rw [Database.find, rowsFor, List.find?_map, List.find?_filter]
  exact congrArg _ (congrArg (fun f => List.find? f table) (funext hkey))

theorem rowsFor_select (table : List PackageEvent) (query : Query)
    (hquery : K query.package = true) :
    (table.filter query.selects).map PackageEvent.plain
      = (rowsFor K table).filter query.selects := by
  have hselects : ∀ row : PackageEvent, (query.selects row.plain && K row.package)
      = query.selects row := by
    intro row
    have hrow : query.selects row = true → row.package = query.package := by
      cases query with
      | counts package => exact fun h => beq_iff_eq.mp h
      | last package t => exact fun h => beq_iff_eq.mp (Bool.and_eq_true_iff.mp h).1
      | total package t => exact fun h => beq_iff_eq.mp (Bool.and_eq_true_iff.mp h).1
    have hplain : query.selects row.plain = query.selects row := by cases query <;> rfl
    rw [hplain]
    cases hs : query.selects row with
    | true => rw [hrow hs, hquery, Bool.and_self]
    | false => rw [Bool.false_and]
  rw [rowsFor, List.filter_map, List.filter_filter]
  exact congrArg _ (congrArg (fun f => List.filter f table) (funext fun row => (hselects row).symm))

/-- Writing a row of one of the packages. -/
theorem rowsFor_put (table : List PackageEvent) (row : PackageEvent)
    (hrow : K row.package = true) :
    rowsFor K (Database.put table row) = Database.put (rowsFor K table) row.plain := by
  have hmem : row.plain.key ∈ (rowsFor K table).map PackageEvent.key ↔
      row.key ∈ table.map PackageEvent.key := by
    simp only [rowsFor, List.map_map, List.mem_map, List.mem_filter]
    constructor
    · rintro ⟨r, ⟨hr, _⟩, heq⟩
      exact ⟨r, hr, heq⟩
    · rintro ⟨r, hr, heq⟩
      refine ⟨r, ⟨hr, ?_⟩, heq⟩
      rw [(Prod.mk.inj heq).1]
      exact hrow
  -- The row takes the place of the one with its key among the rows of the packages too.
  rw [put_eq, put_eq]
  by_cases hk : row.key ∈ table.map PackageEvent.key
  · rw [if_pos hk, if_pos (hmem.mpr hk), rowsFor, rowsFor, List.filter_map, List.map_map,
      List.map_map]
    have hpackage : ∀ r : PackageEvent,
        K (if r.key = row.key then row else r).package = K r.package := by
      intro r
      by_cases hr : r.key = row.key
      · rw [if_pos hr, (Prod.mk.inj hr).1]
      · rw [if_neg hr]
    rw [show (fun r : PackageEvent => K r.package) ∘ (fun r => if r.key = row.key then row else r)
      = fun r => K r.package from funext hpackage]
    refine List.map_congr_left (fun r _ => ?_)
    rw [Function.comp_apply, Function.comp_apply, apply_ite PackageEvent.plain]
    rfl
  · rw [if_neg hk, if_neg (fun hc => hk (hmem.mp hc)), rowsFor, List.filter_append,
      List.map_append, List.filter_cons, if_pos hrow]
    rfl

/-- Writing a row of another package. -/
theorem rowsFor_put_other (table : List PackageEvent) (row : PackageEvent)
    (hrow : K row.package = false) : rowsFor K (Database.put table row) = rowsFor K table := by
  rw [put_eq]
  by_cases hk : row.key ∈ table.map PackageEvent.key
  · rw [if_pos hk, rowsFor, rowsFor]
    congr 1
    clear hk
    induction table with
    | nil => rfl
    | cons r table ih =>
        rw [List.map_cons]
        -- The row that is overwritten is of the other package as well.
        by_cases hr : r.key = row.key
        · have hr' : K r.package = false := by
            rw [(Prod.mk.inj hr).1]
            exact hrow
          rw [if_pos hr, List.filter_cons, if_neg (ne_true_of_eq_false hrow), ih,
            List.filter_cons, if_neg (ne_true_of_eq_false hr')]
        · rw [if_neg hr, List.filter_cons, List.filter_cons, ih]
  · rw [if_neg hk, rowsFor, List.filter_append, List.filter_cons,
      if_neg (ne_true_of_eq_false hrow), List.filter_nil, List.append_nil]
    rfl

/-- The transactions of one request among those of some. -/
theorem openFor_owner (l : List Pending) (i : Nat) (hi : mine i = true) :
    (openFor mine l).filter (fun x => x.owner == i)
      = (l.filter (fun x => x.owner == i)).map Pending.plain := by
  rw [openFor, List.filter_map, List.filter_filter]
  refine congrArg _ (List.filter_congr (fun x _ => ?_))
  change (x.owner == i && mine x.owner) = (x.owner == i)
  by_cases hx : x.owner = i
  · rw [hx, hi, Bool.and_true]
  · rw [beq_eq_false_iff_ne.mpr hx, Bool.false_and]

theorem openFor_rollback (l : List Pending) (i : Nat) :
    openFor mine (l.filter (fun x => x.owner != i))
      = (openFor mine l).filter (fun x => x.owner != i) := by
  rw [openFor, openFor, List.filter_map, List.filter_filter, List.filter_filter]
  refine congrArg _ (List.filter_congr (fun x _ => ?_))
  exact Bool.and_comm _ _

theorem openFor_rollback_other (l : List Pending) (i : Nat) (hi : mine i = false) :
    openFor mine (l.filter (fun x => x.owner != i)) = openFor mine l := by
  rw [openFor, openFor, List.filter_filter]
  refine congrArg _ (List.filter_congr (fun x _ => ?_))
  by_cases hx : x.owner = i
  · rw [hx, hi, Bool.false_and]
  · rw [bne_iff_ne.mpr hx, Bool.and_true]

theorem recordsFor_append (tr tr' : List Obs) :
    recordsFor mine (tr ++ tr') = recordsFor mine tr ++ recordsFor mine tr' := by
  rw [recordsFor, List.filter_append, List.map_append]
  rfl

theorem recordsFor_other (o : Obs) (ho : mine o.owner = false) : recordsFor mine [o] = [] := by
  rw [recordsFor, List.filter_cons, if_neg (ne_true_of_eq_false ho)]
  rfl

end Views

section Steps

variable (dep : Deployment) {K : Str → Bool} {mine : Nat → Bool} (w w' : World)

/-- Both record the same, but for an identifier. -/
theorem sees_log (o o' : Obs) (hplain : o'.plain = o.plain) (howner : o'.owner = o.owner)
    (h : Sees K mine w w') : Sees K mine (w.log o) (w'.log o') := by
  have hone : recordsFor mine [o'] = recordsFor mine [o] := by
    rw [recordsFor, recordsFor, List.filter_cons, List.filter_cons, howner]
    split
    · exact congrArg (fun x => [x]) hplain
    · rfl
  refine ⟨{ h.same with trace := ?_ }, ⟨h.sorted.drawn, h.sorted.pending⟩,
    ⟨h.sorted'.drawn, h.sorted'.pending⟩, h.drawn⟩
  rw [World.log, World.log, recordsFor_append, recordsFor_append, h.same.trace, hone]

/-- Another request records something. -/
theorem sees_log_other (o : Obs) (ho : mine o.owner = false) (h : Sees K mine w w') :
    Sees K mine (w.log o) w' := by
  refine ⟨{ h.same with trace := ?_ }, ⟨h.sorted.drawn, h.sorted.pending⟩, h.sorted', h.drawn⟩
  rw [World.log, recordsFor_append, recordsFor_other o ho, List.append_nil]
  exact h.same.trace

theorem sees_withDb (db db' : Database) (htable : rowsFor K db'.table = rowsFor K db.table)
    (hpending : openFor mine db'.pending = openFor mine db.pending)
    (hsorted : Sorted K mine (w.withDb db)) (hsorted' : Sorted K mine (w'.withDb db'))
    (hdrawn : db'.drawn ≤ db.drawn) (h : Sees K mine w w') :
    Sees K mine (w.withDb db) (w'.withDb db') :=
  ⟨⟨h.same.now, h.same.redis, htable, hpending, h.same.trace⟩, hsorted, hsorted', hdrawn⟩

theorem sees_store (i : Nat) (key value : Str) (ex : Int) (h : Sees K mine w w') :
    Sees K mine (w.store i key value ex) (w'.store i key value ex) := by
  have hlog := sees_log w w' (.stored i key value w.now) (.stored i key value w'.now)
    (by rw [h.same.now]) rfl h
  refine ⟨⟨h.same.now, fun p hp => ?_, h.same.table, h.same.pending, hlog.same.trace⟩,
    ⟨h.sorted.drawn, h.sorted.pending⟩, ⟨h.sorted'.drawn, h.sorted'.pending⟩, h.drawn⟩
  simp only [World.store]
  split
  · rw [h.same.now]
  · exact h.same.redis p hp

/-- A write under the key of another package. -/
theorem sees_store_other (i : Nat) (key value : Str) (ex : Int) (hi : mine i = false)
    (hkey : ∀ p, K p = true → cacheKey p ≠ key) (h : Sees K mine w w') :
    Sees K mine (w.store i key value ex) w' := by
  have hlog := sees_log_other w w' (.stored i key value w.now) hi h
  refine ⟨⟨h.same.now, fun p hp => ?_, h.same.table, h.same.pending, hlog.same.trace⟩,
    ⟨h.sorted.drawn, h.sorted.pending⟩, h.sorted', h.drawn⟩
  simp only [World.store]
  rw [if_neg (hkey p hp)]
  exact h.same.redis p hp

theorem sees_rollback (i : Nat) (h : Sees K mine w w') :
    Sees K mine (w.rollback i) (w'.rollback i) := by
  refine sees_withDb w w' _ _ h.same.table ?_ ⟨h.sorted.drawn, fun x hx => ?_⟩
    ⟨h.sorted'.drawn, fun x hx => ?_⟩ h.drawn h
  · rw [Database.rollback, Database.rollback, openFor_rollback, openFor_rollback, h.same.pending]
  · exact h.sorted.pending x (List.mem_filter.mp hx).1
  · exact h.sorted'.pending x (List.mem_filter.mp hx).1

theorem sees_rollback_other (i : Nat) (hi : mine i = false) (h : Sees K mine w w') :
    Sees K mine (w.rollback i) w' := by
  refine sees_withDb w w' _ w'.db h.same.table ?_ ⟨h.sorted.drawn, fun x hx => ?_⟩ h.sorted'
    h.drawn h
  · rw [Database.rollback, openFor_rollback_other _ i hi]
    exact h.same.pending
  · exact h.sorted.pending x (List.mem_filter.mp hx).1

/-- Both commit the same transaction. -/
theorem sees_commit (i : Nat) (hi : mine i = true) (h : Sees K mine w w') :
    Sees K mine (w.commit i) (w'.commit i) := by
  -- A transaction of the request is open on both sides, or on neither.
  have hopen : (w'.openBy i).map Pending.plain = (w.openBy i).map Pending.plain := by
    have := congrArg (List.filter (fun x : Pending => x.owner == i)) h.same.pending
    rwa [openFor_owner _ i hi, openFor_owner _ i hi] at this
  rcases commit_eq w i with ⟨hnone, heq⟩ | ⟨x, l, hcons, heq⟩
  · rcases commit_eq w' i with ⟨_, heq'⟩ | ⟨x', l', hcons', _⟩
    · rw [heq, heq']
      exact h
    · rw [hnone, hcons'] at hopen
      cases hopen
  · rcases commit_eq w' i with ⟨hnone', _⟩ | ⟨x', l', hcons', heq'⟩
    · rw [hnone', hcons] at hopen
      cases hopen
    · rw [hcons, hcons', List.map_cons, List.map_cons] at hopen
      -- It is the same transaction, but for the identifier of its row.
      rcases Pending.mk.inj (List.cons.inj hopen).1 with ⟨_, hstmt, hrow⟩
      have hmem : x ∈ w.db.pending ∧ x.owner = i := by
        rw [← mem_openBy, hcons]
        exact List.mem_cons_self
      have hK : K x.row.package = true := by
        rw [← h.sorted.pending x hmem.1, hmem.2]
        exact hi
      have hK' : K x'.row.package = true := by
        rw [(plain_fields x.row x'.row hrow).1]
        exact hK
      rw [heq, heq']
      have hroll := sees_rollback w w' i h
      refine sees_withDb (w.log _) (w'.log _) _ _ ?_ hroll.same.pending
        ⟨h.sorted.drawn, hroll.sorted.pending⟩ ⟨h.sorted'.drawn, hroll.sorted'.pending⟩ h.drawn
        (sees_log w w' (.committed i x.stmt) (.committed i x'.stmt) (by rw [hstmt]) rfl h)
      rw [rowsFor_put _ _ hK, rowsFor_put _ _ hK', hrow, h.same.table]

/-- Another request commits. -/
theorem sees_commit_other (i : Nat) (hi : mine i = false) (h : Sees K mine w w') :
    Sees K mine (w.commit i) w' := by
  rcases commit_eq w i with ⟨_, heq⟩ | ⟨x, l, hcons, heq⟩
  · rw [heq]
    exact h
  · have hmem : x ∈ w.db.pending ∧ x.owner = i := by
      rw [← mem_openBy, hcons]
      exact List.mem_cons_self
    have hK : K x.row.package = false := by
      rw [← h.sorted.pending x hmem.1, hmem.2]
      exact hi
    have hroll := sees_rollback_other w w' i hi h
    rw [heq]
    refine sees_withDb (w.log _) w' _ w'.db ?_ hroll.same.pending
      ⟨h.sorted.drawn, hroll.sorted.pending⟩ h.sorted' h.drawn
      (sees_log_other w w' (.committed i x.stmt) hi h)
    rw [rowsFor_put_other _ _ hK]
    exact h.same.table

/-- A statement has to wait for transactions about its package only. -/
theorem locked_openFor (i : Nat) (stmt : Upsert) (hstmt : K stmt.package = true)
    (h : Sorted K mine w) : w.db.locked i stmt = (openFor mine w.db.pending).any
      (fun x => x.owner != i && x.row.hasKey stmt.package stmt.eventType) := by
  rw [openFor, List.any_map, List.any_filter, Database.locked, Bool.eq_iff_iff, List.any_eq_true,
    List.any_eq_true]
  constructor
  · rintro ⟨x, hx, hlock⟩
    -- A lock on the statement's key is held for the same package.
    refine ⟨x, hx, Bool.and_eq_true_iff.mpr ⟨?_, hlock⟩⟩
    have hkey := (hasKey_iff x.row _ _).mp (Bool.and_eq_true_iff.mp hlock).2
    rw [h.pending x hx, (Prod.mk.inj hkey).1]
    exact hstmt
  · rintro ⟨x, hx, hlock⟩
    exact ⟨x, hx, (Bool.and_eq_true_iff.mp hlock).2⟩

/-- The upsert computes the same row, but for its identifier. -/
theorem upsert_plain (db db' db₁ : Database) (stmt : Upsert) (row : PackageEvent)
    (hstmt : K stmt.package = true) (htable : rowsFor K db'.table = rowsFor K db.table)
    (hdrawn' : db'.drawn ≠ maxInteger) (h : db.upsert dep stmt = (.ok row, db₁)) :
    ∃ row', db'.upsert dep stmt = (.ok row', { db' with drawn := db'.drawn + 1 }) ∧
      row'.plain = row.plain := by
  have hfind : (Database.find db'.table stmt.package stmt.eventType).map PackageEvent.plain
      = (Database.find db.table stmt.package stmt.eventType).map PackageEvent.plain := by
    rw [← rowsFor_find _ _ _ hstmt, ← rowsFor_find _ _ _ hstmt, htable]
  -- Both find no row, or rows that differ in their identifiers.
  rw [Database.upsert, if_neg (upsert_cases dep db db₁ stmt row h).1] at h
  rw [Database.upsert, if_neg hdrawn']
  cases hf : Database.find db.table stmt.package stmt.eventType with
  | none =>
      cases hf' : Database.find db'.table stmt.package stmt.eventType with
      | none =>
          rw [hf] at h
          cases h
          exact ⟨_, rfl, rfl⟩
      | some row' =>
          rw [hf, hf'] at hfind
          cases hfind
  | some old =>
      cases hf' : Database.find db'.table stmt.package stmt.eventType with
      | none =>
          rw [hf, hf'] at hfind
          cases hfind
      | some old' =>
          rw [hf, hf', Option.map_some, Option.map_some] at hfind
          rcases plain_fields old old' (Option.some.inj hfind) with ⟨hpackage, htype, hcount, hlast⟩
          rw [hf] at h
          simp only at h
          split at h
          · rename_i hmax
            cases h
            simp only [hcount, if_pos hmax]
            refine ⟨_, rfl, ?_⟩
            simp only [PackageEvent.plain, hlast, hpackage, htype]
          · cases h

theorem draw_drawn (db : Database) (h : db.drawn ≤ maxInteger) :
    db.draw.drawn = min (db.drawn + 1) maxInteger := by
  rw [Database.draw]
  split
  · omega
  · change db.drawn + 1 = _
    omega

theorem draw_eq (db : Database) : db.draw = { db with drawn := db.draw.drawn } := by
  rw [Database.draw]
  split
  · rfl
  · rfl

/-- Both draw an identifier, if they have one left. -/
theorem sees_draw (h : Sees K mine w w') :
    Sees K mine (w.withDb { w.db with drawn := w.db.draw.drawn })
      (w'.withDb { w'.db with drawn := w'.db.draw.drawn }) := by
  have hdraw := draw_drawn w.db h.sorted.drawn
  have hdraw' := draw_drawn w'.db h.sorted'.drawn
  have hdrawn := h.drawn
  refine sees_withDb w w' _ _ h.same.table h.same.pending ⟨?_, h.sorted.pending⟩
    ⟨?_, h.sorted'.pending⟩ ?_ h
  · change w.db.draw.drawn ≤ maxInteger
    omega
  · change w'.db.draw.drawn ≤ maxInteger
    omega
  · change w'.db.draw.drawn ≤ w.db.draw.drawn
    omega

/-- A statement that is executed. If it is refused, it is refused as well where its
    requests are alone, though not for the same reason. -/
theorem sees_execute (i : Nat) (stmt : Upsert) (o : Fate) (r : Except Exc Unit) (t : World)
    (hi : mine i = true) (hstmt : K stmt.package = true) (h : Sees K mine w w')
    (hserve : World.serve dep i (.execute stmt) o w = some (r, t)) :
    ∃ o' r' t', World.serve dep i (.execute stmt) o' w' = some (r', t') ∧
      (Eff.execute stmt).Alike r r' ∧ Sees K mine t t' := by
  have hlog := sees_log w w' (.executed i stmt w.db.nextval) (.executed i stmt w'.db.nextval) rfl
    rfl h
  rcases serve_execute dep i stmt o w t r hserve with
    ⟨rfl, hlocked, row, db, hupsert, rfl⟩ | ⟨⟨fault, rfl⟩, rfl | rfl⟩
  · rcases upsert_cases dep w.db db stmt row hupsert with ⟨hmax, rfl, hkey, _, _⟩
    have hle := h.sorted.drawn
    have hdrawn := h.drawn
    -- Where no more identifiers were drawn, there is one left as well.
    rcases upsert_plain dep w.db w'.db _ stmt row hstmt h.same.table (by omega) hupsert with
      ⟨row', hupsert', hplain⟩
    have hopen : (Database.fits stmt && !w'.db.locked i stmt) = true := by
      rw [serve_fits i stmt o w _ hserve, locked_openFor w' i stmt hstmt h.sorted',
        h.same.pending, ← locked_openFor w i stmt hstmt h.sorted, hlocked]
      rfl
    refine ⟨.ok, .ok (), (w'.log (.executed i stmt w'.db.nextval)).withDb
      { w'.db with
        drawn := w'.db.drawn + 1, pending := ⟨i, stmt, row'⟩ :: w'.db.pending }, ?_, rfl, ?_⟩
    · rw [World.serve, if_pos hopen, hupsert']
    · have hpackage : K row.package = true := by
        rw [(Prod.mk.inj hkey).1]
        exact hstmt
      have hcons : ∀ (v : World) (x : PackageEvent), K x.package = true → Sorted K mine v →
          ∀ y ∈ (⟨i, stmt, x⟩ : Pending) :: v.db.pending, mine y.owner = K y.row.package := by
        intro v x hx hv y hy
        rcases List.mem_cons.mp hy with rfl | hy
        · exact hi.trans hx.symm
        · exact hv.pending y hy
      refine sees_withDb (w.log _) (w'.log _) _ _ h.same.table ?_
        ⟨Nat.lt_of_le_of_ne hle hmax, hcons w row hpackage h.sorted⟩
        ⟨?_, hcons w' row' ?_ h.sorted'⟩ (Nat.succ_le_succ hdrawn) hlog
      · have hone : ∀ (x : PackageEvent) (l : List Pending),
            openFor mine (⟨i, stmt, x⟩ :: l) = ⟨i, stmt, x.plain⟩ :: openFor mine l := by
          intro x l
          rw [openFor, List.filter_cons, if_pos hi]
          rfl
        rw [hone, hone, hplain, h.same.pending]
      · exact Nat.le_trans (Nat.succ_le_succ hdrawn) (Nat.lt_of_le_of_ne hle hmax)
      · rw [(plain_fields row row' hplain).1]
        exact hpackage
  -- Whatever it was refused for, the database may refuse it there too.
  · exact ⟨.fail (.dbapiError .other) false, .error (.dbapiError .other), w', rfl, trivial, h⟩
  · refine ⟨.fail (.dbapiError .other) true, .error (.dbapiError .other), _, rfl, trivial, ?_⟩
    change Sees K mine _ ((w'.log (.executed i stmt w'.db.nextval)).withDb w'.db.draw)
    rw [draw_eq w'.db]
    exact sees_draw (w.log _) (w'.log _) hlog

/-- A lookup under the key of one of the packages finds the same entry. -/
theorem sees_redisGet (i : Nat) (p : Str) (o : Fate) (r : Except Exc (Option Str)) (t : World)
    (hp : K p = true) (h : Sees K mine w w')
    (hserve : World.serve dep i (.redisGet (cacheKey p)) o w = some (r, t)) :
    ∃ o' r' t', World.serve dep i (.redisGet (cacheKey p)) o' w' = some (r', t') ∧
      (Eff.redisGet (cacheKey p)).Alike r r' ∧ Sees K mine t t' := by
  have hlive : w'.live (cacheKey p) = w.live (cacheKey p) := by
    rw [World.live, World.live, h.same.redis p hp, h.same.now]
  rcases serve_redisGet dep i _ o w t r hserve with ⟨rfl, rfl⟩ | ⟨⟨exc, rfl, hexc⟩, rfl⟩
  · refine ⟨.ok, .ok (w'.live (cacheKey p)), _, rfl, congrArg _ hlive.symm, ?_⟩
    exact sees_log w w' _ _ (by rw [hlive, h.same.now]) rfl h
  · refine ⟨.fail exc false, .error exc, w', ?_, rfl, h⟩
    rw [World.serve, if_pos hexc]

/-- A write has the same fate, and it is the same entry. -/
theorem sees_redisSet (i : Nat) (key value : Str) (ex : Int) (o : Fate) (r : Except Exc Unit)
    (t : World) (h : Sees K mine w w')
    (hserve : World.serve dep i (.redisSet key value ex) o w = some (r, t)) :
    ∃ o' r' t', World.serve dep i (.redisSet key value ex) o' w' = some (r', t') ∧
      (Eff.redisSet key value ex).Alike r r' ∧ Sees K mine t t' := by
  have hstore := sees_store w w' i key value ex h
  cases o with
  | http response => cases hserve
  | ok =>
      rw [World.serve] at hserve
      by_cases hex : 0 < ex
      · rw [if_pos hex] at hserve
        cases hserve
        refine ⟨.ok, .ok (), _, ?_, rfl, hstore⟩
        rw [World.serve, if_pos hex]
      · rw [if_neg hex] at hserve
        cases hserve
        refine ⟨.ok, .error .redisError, w', ?_, rfl, h⟩
        rw [World.serve, if_neg hex]
  | fail exc took =>
      rw [World.serve] at hserve
      rcases of_ite_some hserve with ⟨hexc, heq⟩
      cases heq
      -- The reply is lost on both sides, before the write or after it.
      refine ⟨.fail exc took, .error exc,
        if took && decide (0 < ex) then w'.store i key value ex else w', ?_, rfl, ?_⟩
      · rw [World.serve, if_pos hexc]
      · split
        · exact hstore
        · exact h

/-- PyPI answers the same. -/
theorem sees_httpGet (i : Nat) (url : Str) (o : Fate) (r : Except Exc HttpResponse) (t : World)
    (h : Sees K mine w w') (hserve : World.serve dep i (.httpGet url) o w = some (r, t)) :
    ∃ o' r' t', World.serve dep i (.httpGet url) o' w' = some (r', t') ∧
      (Eff.httpGet url).Alike r r' ∧ Sees K mine t t' := by
  have hlog : ∀ reply, Sees K mine (w.log (.upstream i url reply))
      (w'.log (.upstream i url reply)) := fun reply => sees_log w w' _ _ rfl rfl h
  cases o with
  | ok => cases hserve
  | http response =>
      cases hserve
      exact ⟨.http response, .ok response, _, rfl, rfl, hlog _⟩
  | fail exc took =>
      rw [World.serve] at hserve
      rcases of_ite_some hserve with ⟨hexc, heq⟩
      cases heq
      refine ⟨.fail exc took, .error exc, w'.log (.upstream i url (.error exc)), ?_, rfl, hlog _⟩
      rw [World.serve, if_pos hexc]

/-- A commit that is called for has the same fate, and commits the same. -/
theorem sees_commitCall (i : Nat) (o : Fate) (r : Except Exc Unit) (t : World)
    (hi : mine i = true) (h : Sees K mine w w')
    (hserve : World.serve dep i .commit o w = some (r, t)) :
    ∃ o' r' t', World.serve dep i .commit o' w' = some (r', t') ∧
      Eff.commit.Alike r r' ∧ Sees K mine t t' := by
  have hcommit := sees_commit w w' i hi h
  cases o with
  | http response => cases hserve
  | ok =>
      cases hserve
      exact ⟨.ok, .ok (), _, rfl, rfl, hcommit⟩
  | fail exc took =>
      rw [World.serve] at hserve
      rcases of_ite_some hserve with ⟨hexc, heq⟩
      cases heq
      refine ⟨.fail exc took, .error exc, if took then w'.commit i else w'.rollback i, ?_, rfl, ?_⟩
      · rw [World.serve, if_pos hexc]
      · split
        · exact hcommit
        · exact sees_rollback w w' i h

/-- A `SELECT` about one of the packages finds the same rows, but for their
    identifiers. -/
theorem sees_select (i : Nat) (query : Query) (o : Fate) (r : Except Exc (List PackageEvent))
    (t : World) (hquery : K query.package = true) (h : Sees K mine w w')
    (hserve : World.serve dep i (.select query) o w = some (r, t)) :
    ∃ o' r' t', World.serve dep i (.select query) o' w' = some (r', t') ∧
      (Eff.select query).Alike r r' ∧ Sees K mine t t' := by
  cases o with
  | http response => cases hserve
  | ok =>
      cases hserve
      refine ⟨.ok, .ok (w'.db.table.filter query.selects), _, rfl, ?_,
        sees_log w w' _ _ rfl rfl h⟩
      change List.map _ _ = List.map _ _
      rw [rowsFor_select _ query hquery, rowsFor_select _ query hquery, h.same.table]
  | fail exc took =>
      rw [World.serve] at hserve
      rcases of_ite_some hserve with ⟨hexc, heq⟩
      cases heq
      refine ⟨.fail exc took, .error exc, w', ?_, alike_refl _ _, h⟩
      rw [World.serve, if_pos hexc]

/-- What a call does for the package it is about. -/
theorem sees_serve (i : Nat) (p : Str) (e : Eff) (o : Fate) (r : Except Exc e.Reply) (t : World)
    (hi : mine i = true) (hp : K p = true) (habout : e.About p) (h : Sees K mine w w')
    (hserve : World.serve dep i e o w = some (r, t)) :
    ∃ o' r' t', World.serve dep i e o' w' = some (r', t') ∧ e.Alike r r' ∧ Sees K mine t t' := by
  cases e with
  | redisGet key =>
      obtain rfl : key = cacheKey p := habout
      exact sees_redisGet dep w w' i p o r t hp h hserve
  | redisSet key value ex => exact sees_redisSet dep w w' i key value ex o r t h hserve
  | httpGet url => exact sees_httpGet dep w w' i url o r t h hserve
  | execute stmt =>
      obtain rfl : stmt.package = p := habout
      exact sees_execute dep w w' i stmt o r t hi hp h hserve
  | commit => exact sees_commitCall dep w w' i o r t hi h hserve
  | select query =>
      obtain rfl : query.package = p := habout
      exact sees_select dep w w' i query o r t hp h hserve

/-- What a call does to the packages it is not about. -/
theorem sees_other (i : Nat) (p : Str) (e : Eff) (o : Fate) (r : Except Exc e.Reply) (t : World)
    (hK : ∀ q q', normalizePackageName q = normalizePackageName q' → K q = K q')
    (hi : mine i = false) (hp : K p = false) (habout : e.About p) (h : Sees K mine w w')
    (hserve : World.serve dep i e o w = some (r, t)) : Sees K mine t w' := by
  cases e with
  | redisGet key =>
      rcases serve_redisGet dep i key o w t r hserve with ⟨_, rfl⟩ | ⟨_, rfl⟩
      · exact sees_log_other w w' _ hi h
      · exact h
  | redisSet key value ex =>
      obtain rfl : key = cacheKey p := habout
      rcases serve_redisSet dep i _ value ex o w t r hserve with ⟨_, rfl | ⟨_, rfl⟩⟩
      · exact h
      · -- Two names have one key only if they are spellings of one package.
        refine sees_store_other w w' i _ value ex hi (fun q hq hkey => ?_) h
        rw [hK q p ((cacheKey_inj q p).mp hkey), hp] at hq
        cases hq
  | httpGet url =>
      rw [(serve_httpGet dep i url o w t r hserve).1]
      exact sees_log_other w w' _ hi h
  | execute stmt =>
      obtain rfl : stmt.package = p := habout
      have hlog := sees_log_other w w' (.executed i stmt w.db.nextval) hi h
      have hle := h.sorted.drawn
      have hdrawn := h.drawn
      rcases serve_execute dep i stmt o w t r hserve with
        ⟨_, _, row, db, hupsert, rfl⟩ | ⟨_, rfl | rfl⟩
      · rcases upsert_cases dep w.db db stmt row hupsert with ⟨hmax, rfl, hkey, _, _⟩
        have hpackage : K row.package = false := by
          rw [(Prod.mk.inj hkey).1]
          exact hp
        refine sees_withDb (w.log _) w' _ w'.db h.same.table ?_
          ⟨Nat.lt_of_le_of_ne hle hmax, fun x hx => ?_⟩ h.sorted' (Nat.le_succ_of_le hdrawn) hlog
        · rw [openFor, openFor, List.filter_cons, if_neg (ne_true_of_eq_false hi)]
          exact h.same.pending
        · rcases List.mem_cons.mp hx with rfl | hx
          · exact hi.trans hpackage.symm
          · exact h.sorted.pending x hx
      · exact h
      · have hdraw := draw_drawn w.db hle
        refine sees_withDb (w.log _) w' _ w'.db h.same.table h.same.pending
          ⟨?_, h.sorted.pending⟩ h.sorted' ?_ hlog
        · change w.db.draw.drawn ≤ maxInteger
          omega
        · change w'.db.drawn ≤ w.db.draw.drawn
          omega
  | commit =>
      rcases serve_commit dep i o w t r hserve with ⟨_, rfl⟩ | ⟨_, rfl | rfl⟩
      · exact sees_commit_other w w' i hi h
      · exact sees_commit_other w w' i hi h
      · exact sees_rollback_other w w' i hi h
  | select query =>
      rcases serve_select dep i query o w t r hserve with ⟨_, rfl⟩ | ⟨_, rfl⟩
      · exact sees_log_other w w' _ hi h
      · exact h

end Steps

section Isolated

variable (dep : Deployment) (K : Str → Bool) (mine : Nat → Bool)

/-- The requests about some packages, and those about the others. -/
def packagesApart (hK : ∀ p q, normalizePackageName p = normalizePackageName q → K p = K q) :
    Apart (server dep) (fun i => mine i = true) where
  Part q := K q.package = true
  Sees := Sees K mine
  Alike := Eff.Alike
  Own q := Eff.About q.package
  alike_refl := alike_refl
  body := inStep_body dep
  start_mine _ _ w w' _ h := sees_log w w' _ _ rfl rfl h
  start_other _ _ w w' hi h := sees_log_other w w' _ (Bool.eq_false_iff.mpr hi) h
  serve_mine i q e o w w' r t hi hq habout h hserve :=
    sees_serve dep w w' i q.package e o r t hi hq habout h hserve
  serve_other i q e o w w' r t hi hq habout h hserve :=
    sees_other dep w w' i q.package e o r t hK (Bool.eq_false_iff.mpr hi)
      (Bool.eq_false_iff.mpr hq) habout h hserve
  answer_mine _ _ _ w w' _ h := sees_log w w' _ _ rfl rfl h
  answer_other _ _ _ w w' hi h := sees_log_other w w' _ (Bool.eq_false_iff.mpr hi) h
  abort_mine i w w' _ h := sees_rollback w w' i h
  abort_other i w w' hi h := sees_rollback_other w w' i (Bool.eq_false_iff.mpr hi) h
  env a w w' t h henv := by
    have hdb := And.intro h.same.table h.same.pending
    cases a with
    | tick ms =>
        cases henv
        refine ⟨_, rfl, ⟨?_, h.same.redis, hdb.1, hdb.2, h.same.trace⟩,
          ⟨h.sorted.drawn, h.sorted.pending⟩, ⟨h.sorted'.drawn, h.sorted'.pending⟩, h.drawn⟩
        exact congrArg (· + ms) h.same.now
    | evict key =>
        cases henv
        refine ⟨_, rfl, ⟨h.same.now, fun p hp => ?_, hdb.1, hdb.2, h.same.trace⟩,
          ⟨h.sorted.drawn, h.sorted.pending⟩, ⟨h.sorted'.drawn, h.sorted'.pending⟩, h.drawn⟩
        simp only
        rw [h.same.redis p hp]

/-- The requests of a state that are about some packages. -/
def aboutSome (c : ServerState) (i : Nat) : Bool :=
  match c.task i with
  | some t => K t.request.package
  | none => false

/-- Where a request stands without those about other packages: not there if it is one of
    them, and where it stood if not, at the same call if it is under way. -/
def StandsAlone : Option (Task Eff Eff.Reply Exc Answer Request) →
    Option (Task Eff Eff.Reply Exc Answer Request) → Prop
  | none, t' => t' = none
  | some (.running q p), t' => if K q.package = true then
      ∃ p', t' = some (.running q p') ∧ p'.next = p.next else t' = none
  | some t, t' => t' = if K t.request.package = true then some t else none

/-- Packages are isolated. Take any packages, with every other spelling of theirs. What
    happened to them in a reachable state, whatever was going on beside, could have happened
    with no other requests at all: theirs stand where they stood, with the same answers and
    the same records in the same order, and their entries in the cache, their rows and their
    open transactions are the same, but for the identifiers drawn. -/
theorem isolated (hK : ∀ p q, normalizePackageName p = normalizePackageName q → K p = K q)
    (c : ServerState) (hc : Reachable dep c) :
    ∃ d, Reachable dep d ∧ SameFor K (aboutSome K c) c.shared d.shared ∧
      ∀ i, StandsAlone K (c.task i) (d.task i) := by
  have hboot : Sorted K (aboutSome K c) boot :=
    ⟨Nat.zero_le _, fun x hx => absurd hx List.not_mem_nil⟩
  -- Both begin with an empty table and an empty cache.
  have hstart : Sees K (aboutSome K c) boot boot :=
    ⟨⟨rfl, fun _ _ => rfl, rfl, rfl, rfl⟩, hboot, hboot, Nat.le_refl _⟩
  rcases (packagesApart dep K (aboutSome K c) hK).isolates boot boot hstart c hc
    (fun i t ht => by
      rw [aboutSome, ht]
      exact Iff.rfl) with ⟨d, hd, hsees, hbeside⟩
  refine ⟨d, hd, hsees.same, fun i => ?_⟩
  -- Programs in step are at the same call, which is all that is said of them here.
  have hi := hbeside i
  generalize c.task i = t at hi
  generalize d.task i = t' at hi
  cases hi with
  | absent => rfl
  | running q p p' hq hlock =>
      exact (if_pos hq).mpr ⟨p', rfl, lockstep_next p p' hlock⟩
  | answered q r hq => exact (if_pos hq).symm
  | aborted q hq => exact (if_pos hq).symm
  | outside q p hq _ => exact (if_neg hq).mpr rfl
  | ended t hq hnot =>
      cases t with
      | running q p => exact absurd rfl (hnot q p)
      | answered q r => exact (if_neg hq).symm
      | aborted q => exact (if_neg hq).symm

/-- Scipy was counted without numpy. -/
theorem isolated_scipy : ∃ c d, Reachable utcDeployment c ∧ Reachable utcDeployment d ∧
    c.shared.db.table.map PackageEvent.id = [1, 3] ∧ d.task 0 = none ∧ d.task 1 = none ∧
    d.task 2 = c.task 2 ∧ d.task 2 ≠ none := by
  let accepted : Except Exc Answer := .ok (.http { statusCode := 201, body := .accepted })
  let scipy := installOf "scipy".toList (by decide) (by decide)
  rcases reaches_of_run_map (numpyThenScipy ++ [.answer 0, .answer 1, .answer 2]) (Config.init boot)
    (fun c : ServerState =>
      (c.shared.db.table.map PackageEvent.id, c.task 0, c.task 1, c.task 2))
    ([1, 3], some (.answered (.postEvent (numpyInstall 3)) accepted),
      some (.answered (.postEvent (numpyInstall 5)) accepted),
      some (.answered (.postEvent scipy) accepted))
    (show (run (server utcDeployment) _ _).map _ = _ from rfl) with ⟨c, hc, heq⟩
  rcases Prod.mk.inj heq with ⟨hids, heq⟩
  rcases Prod.mk.inj heq with ⟨h0, heq⟩
  rcases Prod.mk.inj heq with ⟨h1, h2⟩
  rcases isolated utcDeployment (fun p => normalizePackageName p == "scipy".toList)
    (fun p q h => by rw [h]) c hc with ⟨d, hd, _, hstands⟩
  have hd0 := hstands 0
  have hd1 := hstands 1
  have hd2 := hstands 2
  rw [h0] at hd0
  rw [h1] at hd1
  rw [h2] at hd2
  have hscipy : d.task 2 = some (.answered (.postEvent scipy) accepted) := hd2
  refine ⟨c, d, hc, hd, hids, hd0, hd1, hscipy.trans h2.symm, ?_⟩
  rw [hscipy]
  exact Option.some_ne_none _

end Isolated

end KingPi
