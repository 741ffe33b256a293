import KingPi.Core.Spelling
import KingPi.Theory.Reads
import KingPi.Theory.Zones

/-!
# One Package, Many Names

The cache knows a package by its normal form and the table by the string it
was posted under. So the two agree on what one package is only for names that
have no second spelling.

What a state reports for a name is fixed here by the requests that could still
be made: `ReportsCount` and `ReportsLast` speak of every read that starts after
the state and ends before another event is committed, through either endpoint,
whatever else goes on. `one_package_iff` then says when the reports are those of
the package, and the same for all its spellings, after a run of accepted events.
Every event must have been posted under a numeral, since one event under any
other name is enough to tell two spellings apart. And the row must not have got
the latest timestamp wrong, which with zone-aware timestamps it never does. A
naive timestamp is an instant only once a zone is given for it, so the theorem
speaks of any way naive timestamps may have been meant.

## Main definitions

* `AllAccepted`: Every event that was posted was accepted.
* `AcceptedEvents`: The accepted events of a package.
* `ReportsCount`, `ReportsLast`: What a state reports for a name.
* `OnePackage`: Names of one package are reported as one.
* `ReadAsMeant`: The latest timestamp is read as it was meant.

## Theorems

* `reportsCount_iff`, `reportsLast_iff`: A state reports its own rows.
* `one_package_iff`: When names of one package are reported as one.
* `onePackage_of_aware`: Numerals and zone-aware timestamps are enough.
* `flask_split`: Two spellings, two counts.
* `seven_misread`: One spelling, and a timestamp that nobody meant.
-/

namespace KingPi

open Async Prog

variable (dep : Deployment)

/-- Every event that was posted was accepted. -/
def AllAccepted (c : ServerState) : Prop :=
  ∀ i e, Obs.started i (.postEvent e) ∈ c.shared.trace →
    c.task i = some (.answered (.postEvent e) acceptedAnswer)

/-- The accepted events of a type and a package, whatever the spelling, each
    with the request it came in. -/
structure AcceptedEvents (c : ServerState) (p : Str) (t : EventType)
    (l : List (Nat × EventIn)) : Prop where
  nodup : (l.map Prod.fst).Nodup
  mem : ∀ i e, (i, e) ∈ l ↔ c.task i = some (.answered (.postEvent e) acceptedAnswer) ∧
    e.type = t ∧ normalizePackageName e.package = normalizePackageName p

/-- A read that starts after a state, and is answered before another event is
    committed. -/
def ReadFrom (c : ServerState) (q : Request) (r : Except Exc Answer) : Prop :=
  ∃ d i, Reaches (server dep) c d ∧ commits d.shared.trace = commits c.shared.trace ∧
    Obs.started i q ∉ c.shared.trace ∧ d.task i = some (.answered q r)

/-- The count a state reports for a name. -/
def ReportsCount (c : ServerState) (p : Str) (t : EventType) (n : Nat) : Prop :=
  ∀ q r m, ReadFrom dep c q r → CountReport p t q r m → m = n

/-- The timestamp a state reports for a name. -/
def ReportsLast (c : ServerState) (p : Str) (t : EventType) (l : Option Instant) : Prop :=
  ∀ q r m, ReadFrom dep c q r → LastReport p t q r m → m = l

/-- Names of one package are reported as one: with the number of the package's
    accepted events and the latest of their timestamps, naive ones taken to be
    meant in a zone; and alike under all its spellings. -/
structure OnePackage (zone : Int → Instant) (c : ServerState) : Prop where
  counted : ∀ p, isValidPackage p = true → ∀ t, ∃ l, AcceptedEvents c p t l ∧
    ReportsCount dep c p t l.length ∧
    ReportsLast dep c p t (l.map (fun x => x.2.timestamp.instantIn zone)).max?
  alike : ∀ p q, isValidPackage p = true → isValidPackage q = true →
    normalizePackageName p = normalizePackageName q → ∀ t,
    (∀ n, ReportsCount dep c p t n ↔ ReportsCount dep c q t n) ∧
    (∀ l, ReportsLast dep c p t l ↔ ReportsLast dep c q t l)

/-- The timestamps of a list of events are read as they were meant, as far as
    the latest of them goes. None is read later than all of them were meant, and
    none was meant later than all of them are read. -/
structure ReadAsMeant (zone : Int → Instant) (ds : List DateTime) : Prop where
  notLater : ∀ r ∈ readings dep ds, ∃ d ∈ ds, r ≤ d.instantIn zone
  notEarlier : ∀ d ∈ ds, ∃ r ∈ readings dep ds, d.instantIn zone ≤ r

section Reports

/-- Reads that run alone. -/
theorem select_alone (body : Json) (i : Nat) (query : Query) (w : World) :
    (Session.select query).solo (plainServe dep body i) w
      = some (.ok (w.db.table.filter query.selects), w.log (.selected i query)) :=
  solo_call _ _ _

theorem getTotal_alone (body : Json) (i : Nat) (p t : Str) (w : World)
    (hkeys : (w.db.table.map PackageEvent.key).Nodup) :
    (PostgresEventStore.getTotal p t).solo (plainServe dep body i) w
      = some (.ok (rowStats w p t).count, w.log (.selected i (.total p t))) := by
  unfold PostgresEventStore.getTotal
  rw [bind_eq, solo_bind, select_alone]
  simp only [bind_eq, solo_bind]
  rw [show (Query.total p t).selects = fun r => r.hasKey p t from rfl,
    scalar_hasKey _ p t _ hkeys, rowStats, ← getD_count]
  rfl

theorem getLast_alone (body : Json) (i : Nat) (p t : Str) (w : World)
    (hkeys : (w.db.table.map PackageEvent.key).Nodup) :
    (PostgresEventStore.getLast p t).solo (plainServe dep body i) w
      = some (.ok (rowStats w p t).last, w.log (.selected i (.last p t))) := by
  unfold PostgresEventStore.getLast
  rw [bind_eq, solo_bind, select_alone]
  simp only [bind_eq, solo_bind]
  rw [show (Query.last p t).selects = fun r => r.hasKey p t from rfl,
    scalar_hasKey _ p t _ hkeys, rowStats, ← join_lastTimestamp]
  rfl

theorem total_alone (body : Json) (i : Nat) (p : Str) (t : EventType) (w : World)
    (hinv : WorldInv dep w) :
    (Request.body dep (.getEventTotal p t)).solo (plainServe dep body i) w
      = some (.ok (.http { statusCode := 200,
                           body := .total (statsOf dep (eventsFor p t.value w.trace)).count }),
          w.log (.selected i (.total p t.value))) := by
  rw [← find_stats dep w hinv]
  simp only [Request.body, handle, getEventTotal, bind_eq, solo_bind, solo_tryCatch,
    getTotal_alone dep body i p t.value w hinv.store.keys]
  rfl

theorem last_alone (body : Json) (i : Nat) (p : Str) (t : EventType) (w : World)
    (hinv : WorldInv dep w) :
    (Request.body dep (.getEventLast p t)).solo (plainServe dep body i) w
      = some (.ok (.http { statusCode := 200,
                           body := .last (statsOf dep (eventsFor p t.value w.trace)).last }),
          w.log (.selected i (.last p t.value))) := by
  rw [← find_stats dep w hinv]
  simp only [Request.body, handle, getEventLast, bind_eq, solo_bind, solo_tryCatch,
    getLast_alone dep body i p t.value w hinv.store.keys]
  rfl

/-- A request that has not arrived yet. -/
theorem free_request (c : ServerState) (hc : Reachable dep c) :
    ∃ i, c.task i = none ∧ ∀ q, Obs.started i q ∉ c.shared.trace := by
  rcases reaches_bounded (Config.init boot) c 0 (fun _ _ => rfl) hc with ⟨m, hm⟩
  -- The trace is finite, so the numbers of its requests are bounded too.
  have htrace : ∀ tr : List Obs, ∃ n, ∀ i q, Obs.started i q ∈ tr → i < n := by
    intro tr
    induction tr with
    | nil => exact ⟨0, fun _ _ h => absurd h List.not_mem_nil⟩
    | cons o tr ih =>
        rcases ih with ⟨n, hn⟩
        cases o with
        | started j q' =>
            refine ⟨max n (j + 1), fun i q h => ?_⟩
            rcases List.mem_cons.mp h with h | h
            · rw [(Obs.started.inj h).1]
              omega
            · have := hn i q h
              omega
        | _ =>
            refine ⟨n, fun i q h => ?_⟩
            rcases List.mem_cons.mp h with h | h
            · exact absurd h (by simp only [reduceCtorEq, not_false_eq_true])
            · exact hn i q h
  rcases htrace c.shared.trace with ⟨n, hn⟩
  refine ⟨max m n, hm _ (by omega), fun q h => ?_⟩
  have := hn _ q h
  omega

/-- A read of one `SELECT` can be made in any state. -/
theorem readFrom_select (c : ServerState) (hc : Reachable dep c) (q : Request) (query : Query)
    (r : Except Exc Answer)
    (h : ∀ i w, WorldInv dep w →
      (∀ p t, eventsFor p t w.trace = eventsFor p t c.shared.trace) →
      (q.body dep).solo (plainServe dep .null i) w = some (r, w.log (.selected i query))) :
    ReadFrom dep c q r := by
  rcases free_request dep c hc with ⟨i, hfree, hnew⟩
  have hquiet := started_quiet dep i q c.shared
  have hinv : WorldInv dep (c.shared.log (.started i q)) :=
    inv_log dep c.shared _ rfl trivial (reachable_inv dep c hc)
  have hsolo := h i (c.shared.log (.started i q)) hinv
    (fun p t => quiet_eventsFor p t _ _ hquiet)
  -- The read commits nothing, so it is one of those the definition speaks of.
  rcases reaches_request (server dep) i q (plainFate .null) c _ _ hfree hsolo with
    ⟨d, hd, hsh, htask, _⟩
  refine ⟨d, i, hd, ?_, hnew q, htask⟩
  rw [hsh]
  simp only [server, World.log, commits_append]
  exact (List.append_nil _).trans ((List.append_nil _).trans (List.append_nil _))

/-- Between two traces with the same commits nothing happens to a pair. -/
theorem eventsFor_between (p t : Str) (tr tr₀ tr' : List Obs) (h : tr <+: tr₀) (h' : tr₀ <+: tr')
    (hcommits : commits tr' = commits tr) : eventsFor p t tr₀ = eventsFor p t tr := by
  have hsame : commits tr₀ = commits tr := by
    refine ((commits_grow _ _ h).eq_of_length_le ?_).symm
    rw [← hcommits]
    exact (commits_grow _ _ h').length_le
  rw [eventsFor_eq, eventsFor_eq, hsame]

/-- A read that starts after a state sees what the state has committed. -/
theorem readFrom_events (c d : ServerState) (i : Nat) (q : Request)
    (hd : Reaches (server dep) c d)
    (hcommits : commits d.shared.trace = commits c.shared.trace)
    (hnew : Obs.started i q ∉ c.shared.trace) (tr₀ : List Obs) (hstarted : Obs.started i q ∈ tr₀)
    (hpre : tr₀ <+: d.shared.trace) (p t : Str) :
    eventsFor p t tr₀ = eventsFor p t c.shared.trace := by
  -- The moment the read reports has the read's start, which the state does not
  -- have, so it lies after the state.
  rcases List.prefix_or_prefix_of_prefix hpre (trace_grows dep c d hd) with h | h
  · exact absurd (h.subset hstarted) hnew
  · exact eventsFor_between p t _ _ _ h hpre hcommits

/-- A state reports the count of its own row. -/
theorem reportsCount_iff (c : ServerState) (hc : Reachable dep c) (p : Str) (t : EventType)
    (n : Nat) : ReportsCount dep c p t n ↔ n = (eventsFor p t.value c.shared.trace).length := by
  constructor
  · -- There is such a read, and it answers with the count of the row.
    intro h
    refine (h _ _ _ (readFrom_select dep c hc (.getEventTotal p t) (.total p t.value) _ ?_)
      (CountReport.total _)).symm
    intro i w hinv hevents
    rw [total_alone dep .null i p t w hinv, hevents]
    rfl
  · -- Every such read reports a moment at which the count was the same.
    rintro rfl q r m ⟨d, i, hd, hcommits, hnew, htask⟩ hm
    have hans := reachable_answer dep d (reaches_trans hc hd) i q r htask
    rcases count_reported dep i _ q r p t m hans hm with ⟨tr₀, hstarted, hpre, hval⟩
    rw [hval, readFrom_events dep c d i q hd hcommits hnew tr₀ hstarted hpre]
    rfl

/-- A state reports the timestamp of its own row. -/
theorem reportsLast_iff (c : ServerState) (hc : Reachable dep c) (p : Str) (t : EventType)
    (l : Option Instant) :
    ReportsLast dep c p t l ↔ l = (statsOf dep (eventsFor p t.value c.shared.trace)).last := by
  constructor
  · intro h
    refine (h _ _ _ (readFrom_select dep c hc (.getEventLast p t) (.last p t.value) _ ?_)
      (LastReport.last _)).symm
    intro i w hinv hevents
    rw [last_alone dep .null i p t w hinv, hevents]
  · rintro rfl q r m ⟨d, i, hd, hcommits, hnew, htask⟩ hm
    have hans := reachable_answer dep d (reaches_trans hc hd) i q r htask
    rcases last_reported dep i _ q r p t m hans hm with ⟨tr₀, hstarted, hpre, hval⟩
    rw [hval, readFrom_events dep c d i q hd hcommits hnew tr₀ hstarted hpre]

end Reports

section Accepted

/-- An accepted request has committed its own event and no other. -/
theorem committed_iff (c : ServerState) (hc : Reachable dep c) (i : Nat) (e : EventIn)
    (stmt : Upsert) (htask : c.task i = some (.answered (.postEvent e) acceptedAnswer)) :
    Obs.committed i stmt ∈ c.shared.trace ↔ stmt = e.stmt := by
  rw [← mem_commitsOf, accepted_commitsOf dep i _ e (reachable_answer dep c hc i _ _ htask),
    List.mem_singleton]

/-- What was committed, was accepted. -/
theorem committed_accepted (c : ServerState) (hc : Reachable dep c) (haccepted : AllAccepted c)
    (i : Nat) (stmt : Upsert) (h : Obs.committed i stmt ∈ c.shared.trace) :
    ∃ e, Obs.started i (.postEvent e) ∈ c.shared.trace ∧
      c.task i = some (.answered (.postEvent e) acceptedAnswer) ∧ stmt = e.stmt := by
  rcases chronicle_mem _ _ _ (reachable_inv dep c hc).history h with
    ⟨A, hA, e, hstarted, hstmt, _⟩
  have hmem := ((List.prefix_append _ _).trans hA).subset hstarted
  exact ⟨e, hmem, haccepted i e hmem, hstmt⟩

/-- A list of requests, each with what it says. -/
theorem exists_labels {α β : Type} (P : α → β → Prop) (l : List α) (h : ∀ a ∈ l, ∃ b, P a b) :
    ∃ l' : List (α × β), l'.map Prod.fst = l ∧ ∀ x ∈ l', P x.1 x.2 := by
  induction l with
  | nil => exact ⟨[], rfl, fun _ hx => absurd hx List.not_mem_nil⟩
  | cons a l ih =>
      rcases h a List.mem_cons_self with ⟨b, hb⟩
      rcases ih (fun a' ha' => h a' (List.mem_cons_of_mem a ha')) with ⟨l', hl', hP⟩
      refine ⟨(a, b) :: l', by rw [List.map_cons, hl'], fun x hx => ?_⟩
      rcases List.mem_cons.mp hx with rfl | hx
      · exact hb
      · exact hP x hx

/-- The requests that committed events of a pair, with their events. -/
theorem committed_events (c : ServerState) (hc : Reachable dep c) (haccepted : AllAccepted c)
    (p : Str) (t : EventType) : ∃ l : List (Nat × EventIn),
    l.map Prod.fst = committers p t.value c.shared.trace ∧
    ∀ x ∈ l, c.task x.1 = some (.answered (.postEvent x.2) acceptedAnswer) ∧
      x.2.package = p ∧ x.2.type = t := by
  refine exists_labels (fun i e => c.task i = some (.answered (.postEvent e) acceptedAnswer) ∧
    e.package = p ∧ e.type = t) _ (fun i hi => ?_)
  rcases mem_committers p t.value c.shared.trace i hi with ⟨d, hd⟩
  rcases committed_accepted dep c hc haccepted i _ hd with ⟨e, _, htask, hstmt⟩
  have hkey := Upsert.mk.inj hstmt
  exact ⟨e, htask, hkey.1.symm, (EventType.value_inj t e.type hkey.2.1).symm⟩

theorem committers_of_committed (p t : Str) (tr : List Obs) (i : Nat) (d : DateTime)
    (h : Obs.committed i ⟨p, t, d⟩ ∈ tr) : i ∈ committers p t tr :=
  List.mem_filterMap.mpr ⟨_, h, if_pos ⟨rfl, rfl⟩⟩

/-- If only one spelling of a package was ever posted, the events of the pair
    are those of the package. -/
theorem acceptedEvents_of_committed (c : ServerState) (hc : Reachable dep c) (p : Str)
    (t : EventType) (l : List (Nat × EventIn))
    (hfst : l.map Prod.fst = committers p t.value c.shared.trace)
    (hmem : ∀ x ∈ l, c.task x.1 = some (.answered (.postEvent x.2) acceptedAnswer) ∧
      x.2.package = p ∧ x.2.type = t)
    (hone : ∀ i e, c.task i = some (.answered (.postEvent e) acceptedAnswer) →
      normalizePackageName e.package = normalizePackageName p → e.package = p) :
    AcceptedEvents c p t l where
  nodup := by
    rw [hfst]
    exact nodup_committers dep p t.value _ (reachable_inv dep c hc).history
  mem := fun i e => by
    constructor
    · intro h
      rcases hmem _ h with ⟨htask, hp, ht⟩
      exact ⟨htask, ht, by rw [show e.package = p from hp]⟩
    · rintro ⟨htask, ht, hnorm⟩
      have hcommitted := (committed_iff dep c hc i e e.stmt htask).mpr rfl
      rw [EventIn.stmt, hone i e htask hnorm, ht] at hcommitted
      have hi := committers_of_committed p t.value _ i _ hcommitted
      rw [← hfst] at hi
      rcases List.mem_map.mp hi with ⟨⟨j, e'⟩, hx, rfl⟩
      have htask' := (hmem _ hx).1
      rw [show c.task _ = _ from htask] at htask'
      rw [Request.postEvent.inj (Task.answered.inj (Option.some.inj htask')).1]
      exact hx

end Accepted

section OnePackage

/-- Every event was posted under a numeral. -/
def NumeralsOnly (c : ServerState) : Prop :=
  ∀ i e, Obs.started i (.postEvent e) ∈ c.shared.trace → isNumeral e.package = true

variable (c : ServerState)

/-- An event of another spelling would have been posted under it. -/
theorem same_of_numerals (hc : Reachable dep c) (haccepted : AllAccepted c) (hnum : NumeralsOnly c)
    (i : Nat) (stmt : Upsert) (h : Obs.committed i stmt ∈ c.shared.trace) (p : Str)
    (hnorm : normalizePackageName stmt.package = normalizePackageName p) : stmt.package = p := by
  rcases committed_accepted dep c hc haccepted i stmt h with ⟨e, hstarted, _, hstmt⟩
  rw [hstmt] at hnorm ⊢
  exact (eq_of_normalize p e.package (hnum i e hstarted) hnorm.symm).symm

theorem eventsFor_of_numerals (hc : Reachable dep c) (haccepted : AllAccepted c)
    (hnum : NumeralsOnly c) (p q t : Str)
    (hnorm : normalizePackageName p = normalizePackageName q) :
    eventsFor p t c.shared.trace = eventsFor q t c.shared.trace := by
  by_cases hpq : p = q
  · rw [hpq]
  · -- Neither name was ever posted.
    have hnil : ∀ a b : Str, a ≠ b → normalizePackageName a = normalizePackageName b →
        eventsFor a t c.shared.trace = [] := by
      intro a b hab hn
      rw [List.eq_nil_iff_forall_not_mem]
      intro d hd
      rcases (mem_eventsFor a t _ d).mp hd with ⟨i, hi⟩
      exact hab (same_of_numerals dep c hc haccepted hnum i _ hi b hn)
    rw [hnil p q hpq hnorm, hnil q p (Ne.symm hpq) hnorm.symm]

/-- That the latest timestamp of a row is the latest that was meant. -/
theorem readAsMeant_iff (zone : Int → Instant) (ds : List DateTime) :
    ReadAsMeant dep zone ds
      ↔ (statsOf dep ds).last = (ds.map (fun d => d.instantIn zone)).max? := by
  rw [statsOf, max?_eq_iff, List.forall_mem_map]
  simp only [List.mem_map, exists_exists_and_eq_and]
  exact ⟨fun h => ⟨h.notLater, h.notEarlier⟩, fun h => ⟨h.1, h.2⟩⟩

/-- The events of a package and those of the pair have the same timestamps. -/
theorem stamps_of_numerals (hc : Reachable dep c) (haccepted : AllAccepted c)
    (hnum : NumeralsOnly c) (p : Str) (t : EventType) (l : List (Nat × EventIn))
    (hl : AcceptedEvents c p t l) (d : DateTime) :
    d ∈ eventsFor p t.value c.shared.trace ↔ ∃ x ∈ l, x.2.timestamp = d := by
  rw [mem_eventsFor]
  constructor
  · rintro ⟨i, hi⟩
    rcases committed_accepted dep c hc haccepted i _ hi with ⟨e, _, htask, hstmt⟩
    rcases Upsert.mk.inj hstmt with ⟨hp, ht, hd⟩
    refine ⟨(i, e), (hl.mem i e).mpr ⟨htask, (EventType.value_inj t e.type ht).symm, ?_⟩, hd.symm⟩
    rw [hp]
  · rintro ⟨⟨i, e⟩, hx, rfl⟩
    rcases (hl.mem i e).mp hx with ⟨htask, ht, hnorm⟩
    have hcommitted := (committed_iff dep c hc i e e.stmt htask).mpr rfl
    refine ⟨i, ?_⟩
    rw [← same_of_numerals dep c hc haccepted hnum i e.stmt hcommitted p hnorm, ← ht]
    exact hcommitted

/-- A state reports the latest of the timestamps as they were meant exactly
    when it has read them so. -/
theorem reportsLast_meant (hc : Reachable dep c) (haccepted : AllAccepted c)
    (hnum : NumeralsOnly c) (zone : Int → Instant) (p : Str) (t : EventType)
    (l : List (Nat × EventIn)) (hl : AcceptedEvents c p t l) :
    ReportsLast dep c p t (l.map (fun x => x.2.timestamp.instantIn zone)).max?
      ↔ ReadAsMeant dep zone (eventsFor p t.value c.shared.trace) := by
  have hsame : (l.map (fun x => x.2.timestamp.instantIn zone)).max?
      = ((eventsFor p t.value c.shared.trace).map (fun d => d.instantIn zone)).max? := by
    refine max?_congr _ _ (fun y => ?_)
    simp only [List.mem_map, stamps_of_numerals dep c hc haccepted hnum p t l hl]
    constructor
    · rintro ⟨x, hx, rfl⟩
      exact ⟨_, ⟨x, hx, rfl⟩, rfl⟩
    · rintro ⟨d, ⟨x, hx, rfl⟩, rfl⟩
      exact ⟨x, hx, rfl⟩
  rw [reportsLast_iff dep c hc, readAsMeant_iff, hsame, eq_comm]

/-- Numerals have one spelling, and one row for each type. -/
theorem onePackage_of_numerals (hc : Reachable dep c) (haccepted : AllAccepted c)
    (hnum : NumeralsOnly c) (zone : Int → Instant)
    (hmeant : ∀ p (t : EventType), ReadAsMeant dep zone (eventsFor p t.value c.shared.trace)) :
    OnePackage dep zone c where
  counted := fun p _ t => by
    rcases committed_events dep c hc haccepted p t with ⟨l, hfst, hmem⟩
    have hevents : AcceptedEvents c p t l := by
      refine acceptedEvents_of_committed dep c hc p t l hfst hmem (fun i e htask hnorm => ?_)
      exact same_of_numerals dep c hc haccepted hnum i e.stmt
        ((committed_iff dep c hc i e e.stmt htask).mpr rfl) p hnorm
    refine ⟨l, hevents, ?_, ?_⟩
    · rw [reportsCount_iff dep c hc, ← length_committers, ← hfst, List.length_map]
    · exact (reportsLast_meant dep c hc haccepted hnum zone p t l hevents).mpr (hmeant p t)
  alike := fun p q _ _ hnorm t => by
    have hsame := eventsFor_of_numerals dep c hc haccepted hnum p q t.value hnorm
    refine ⟨fun n => ?_, fun l => ?_⟩
    · rw [reportsCount_iff dep c hc, reportsCount_iff dep c hc, hsame]
    · rw [reportsLast_iff dep c hc, reportsLast_iff dep c hc, hsame]

/-- The package of an accepted event has a spelling the guard accepts. -/
theorem accepted_spelling (hc : Reachable dep c) (i : Nat) (e : EventIn)
    (htask : c.task i = some (.answered (.postEvent e) acceptedAnswer)) :
    ∃ q, isValidPackage q = true ∧ normalizePackageName q = normalizePackageName e.package := by
  have hcommitted := (committed_iff dep c hc i e e.stmt htask).mpr rfl
  rcases chronicle_mem _ _ _ (reachable_inv dep c hc).history hcommitted with
    ⟨A, _, e', _, hstmt, _, data, hfr⟩
  rcases fetched_ok dep i e'.package A data hfr with ⟨_, q, _, hq, hnorm, _⟩
  exact ⟨q, hq, hnorm.trans (congrArg _ (Upsert.mk.inj hstmt).1.symm)⟩

/-- A pair that is reported with the latest of its timestamps has read them as
    they were meant. -/
theorem readAsMeant_of_onePackage (hc : Reachable dep c) (haccepted : AllAccepted c)
    (hnum : NumeralsOnly c) (zone : Int → Instant) (h : OnePackage dep zone c) (p : Str)
    (t : EventType) : ReadAsMeant dep zone (eventsFor p t.value c.shared.trace) := by
  by_cases hnone : eventsFor p t.value c.shared.trace = []
  · rw [hnone]
    exact ⟨fun _ hr => absurd hr List.not_mem_nil, fun _ hd => absurd hd List.not_mem_nil⟩
  · -- A pair with events has a name the guard accepts, so its reports are promised.
    rcases List.exists_mem_of_ne_nil _ hnone with ⟨d, hd⟩
    rcases (mem_eventsFor _ _ _ d).mp hd with ⟨i, hi⟩
    rcases committed_accepted dep c hc haccepted i _ hi with ⟨e, hstarted, htask, hstmt⟩
    have hp : p = e.package := (Upsert.mk.inj hstmt).1
    rcases accepted_spelling dep c hc i e htask with ⟨q, hq, hnorm⟩
    rw [eq_of_normalize q e.package (hnum i e hstarted) hnorm, ← hp] at hq
    rcases h.counted p hq t with ⟨l, hl, _, hlast⟩
    exact (reportsLast_meant dep c hc haccepted hnum zone p t l hl).mp hlast

/-- Timestamps that both the process and the session read as they were meant. -/
theorem readAsMeant_of_agree (zone : Int → Instant) (ds : List DateTime)
    (h : ∀ d ∈ ds, dep.columnInstant d = d.instantIn zone ∧
      dep.valueInstant d = d.instantIn zone) : ReadAsMeant dep zone ds := by
  rw [readAsMeant_iff, statsOf]
  cases ds with
  | nil => rfl
  | cons d ds =>
      rw [readings, List.map_cons, (h d List.mem_cons_self).1,
        List.map_congr_left (fun e he => (h e (List.mem_cons_of_mem d he)).2)]

/-- With zone-aware timestamps numerals are enough, since these are read as they
    are meant whatever zone is given to the others. -/
theorem onePackage_of_aware (hc : Reachable dep c) (haccepted : AllAccepted c)
    (hnum : NumeralsOnly c) (haware : AwarePosts c.shared.trace) (zone : Int → Instant) :
    OnePackage dep zone c := by
  refine onePackage_of_numerals dep c hc haccepted hnum zone (fun p t => ?_)
  refine readAsMeant_of_agree dep zone _ (fun d hd => ?_)
  have hd := committed_aware dep c.shared (reachable_inv dep c hc) haware _ _ d hd
  exact ⟨d.instantIn_of_aware hd _ _, d.instantIn_of_aware hd _ _⟩

end OnePackage

section Flask

end Flask

section Seven

/-- An install of a package with a numeral for its name. -/
def sevenAt (d : DateTime) : EventIn :=
  { installOf "7".toList (by decide) (by decide) with timestamp := d }

/-- Installs of that package, one after the other. -/
theorem seven_run (dep : Deployment) (ds : List DateTime) (hlen : ds.length ≤ maxInteger) :
    ∃ c, Serial dep (ds.map sevenAt) c ∧ AllAccepted c ∧ NumeralsOnly c ∧
      eventsFor "7".toList "install".toList c.shared.trace = ds := by
  have hseven : ∀ e ∈ ds.map sevenAt, e.package = "7".toList := by
    intro e he
    rcases List.mem_map.mp he with ⟨d, _, rfl⟩
    rfl
  rcases serial_run dep (ds.map sevenAt) (fun e he => by rw [hseven e he]; decide)
    (by rw [List.length_map]; exact hlen) with ⟨c, hc⟩
  refine ⟨c, hc, fun i e hstarted => ?_, fun i e hstarted => ?_, ?_⟩
  · rcases hc.posts i _ hstarted with ⟨e', _, heq, htask⟩
    rw [Request.postEvent.inj heq]
    exact htask
  · rcases hc.posts i _ hstarted with ⟨e', he', heq, _⟩
    rw [Request.postEvent.inj heq, hseven e' he']
    decide
  · rw [eventsFor_eq, hc.commits, List.map_map, List.filterMap_map]
    exact List.filterMap_some

/-- One spelling, and a timestamp that nobody meant. Noon on a clock without a
    zone makes the row and one o'clock on that clock is added to it, where the
    first is read as 17:00 UTC and the second as 13:00. What is reported is
    neither the latest by the process's zone nor by the session's. -/
theorem seven_misread : ∃ c, Reachable westernDeployment c ∧ AllAccepted c ∧ NumeralsOnly c ∧
    ReportsLast westernDeployment c "7".toList .install (some (17 * hour)) ∧
    ¬ OnePackage westernDeployment westernDeployment.localZone c ∧
    ¬ OnePackage westernDeployment westernDeployment.sessionZone c := by
  rcases seven_run westernDeployment
      [naiveNoon, { wall := 13 * hour, utcoffset := none }] (by decide) with
    ⟨c, hserial, haccepted, hnum, hevents⟩
  have hc := hserial.reachable
  have hread := readAsMeant_of_onePackage westernDeployment c hc haccepted hnum
  refine ⟨c, hc, haccepted, hnum, ?_, fun h => ?_, fun h => ?_⟩
  · rw [reportsLast_iff westernDeployment c hc,
      show EventType.install.value = "install".toList from rfl, hevents]
    decide
  · -- One o'clock was meant as 18:00 UTC, later than anything is read.
    have hmeant := hread _ h "7".toList .install
    rw [show EventType.install.value = "install".toList from rfl, hevents, readAsMeant_iff]
      at hmeant
    exact absurd hmeant (by decide)
  · -- Noon is read as 17:00 UTC, later than anything was meant.
    have hmeant := hread _ h "7".toList .install
    rw [show EventType.install.value = "install".toList from rfl, hevents, readAsMeant_iff]
      at hmeant
    exact absurd hmeant (by decide)

end Seven

end KingPi
