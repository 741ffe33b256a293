import KingPi.Theory.Counting
import KingPi.Theory.Runs

/-!
# Timestamps Without a Zone

A timestamp enters the upsert twice. As a value of the insert it is bound with
the column's type, and the driver reads a naive one in the process's local
zone. As an argument of `GREATEST` it is bound with a type taken from the
value, and PostgreSQL reads a naive one in the session's zone. The first event
of a pair goes through the first bind and the others through the second, so
the same datetime can stand for two instants, depending on when it arrives.

`one_reading_iff` says when it does not. Over any class of datetimes that has
the zone-aware ones in it, the latest timestamps are the maxima of one instant
for each datetime exactly when the two zones agree on the naive datetimes of
the class; and so it is exactly then that the order of the events does not
matter. A pair of runs with the events the other way round shows the
difference otherwise.

## Main definitions

* `World.lastOf`: The timestamp in the row of a pair.
* `LatestBy`: Every row has the latest instant of its events.
* `OrderFree`: The order of the events does not matter.
* `ZonesAgree`: The two zones agree on a class of datetimes.

## Theorems

* `lastOf_eq`: A row's timestamp is the latest of the readings.
* `timestamps_run`: Any list of timestamps can be recorded for a pair.
* `one_reading_iff`: When a datetime is read in one way.
* `naive_first_or_last`: One list of events, two orders, two timestamps.
-/

namespace KingPi

open Async

/-- The timestamp in the row of a pair, if there is a row. -/
def World.lastOf (w : World) (p t : Str) : Option Instant :=
  (Database.find w.db.table p t).bind PackageEvent.lastTimestamp

/-- All events committed for a pair have their timestamps in a class. -/
def CommittedIn (D : DateTime → Prop) (p t : Str) (tr : List Obs) : Prop :=
  ∀ d ∈ eventsFor p t tr, D d

variable (dep : Deployment)

/-- In every reachable state, a row of events of the class has the latest of
    the instants `inst` assigns to them. -/
def LatestBy (D : DateTime → Prop) (inst : DateTime → Instant) : Prop :=
  ∀ c, Reachable dep c → ∀ p t, CommittedIn D p t c.shared.trace →
    c.shared.lastOf p t = ((eventsFor p t c.shared.trace).map inst).max?

/-- Two reachable states that have committed the same events of the class for
    a pair, in whatever order, have the same timestamp for it. -/
def OrderFree (D : DateTime → Prop) : Prop :=
  ∀ c c', Reachable dep c → Reachable dep c' → ∀ p t, CommittedIn D p t c.shared.trace →
    (eventsFor p t c.shared.trace).Perm (eventsFor p t c'.shared.trace) →
    c.shared.lastOf p t = c'.shared.lastOf p t

/-- The process and the session read the naive datetimes of a class alike. -/
def ZonesAgree (D : DateTime → Prop) : Prop :=
  ∀ wall, D { wall := wall, utcoffset := none } → dep.localZone wall = dep.sessionZone wall

/-- A row's timestamp is the latest of the readings of its events. -/
theorem lastOf_eq (w : World) (hinv : WorldInv dep w) (p t : Str) :
    w.lastOf p t = (readings dep (eventsFor p t w.trace)).max? := by
  have hlast := congrArg PackageEventStats.last (find_stats dep w hinv p t)
  rw [World.lastOf]
  -- No row, no timestamp; and an empty list has no maximum.
  cases hfind : Database.find w.db.table p t with
  | none =>
      rw [hfind] at hlast
      exact hlast
  | some row =>
      rw [hfind] at hlast
      exact hlast

/-- Zones that agree on a class read its datetimes as the same instants. -/
theorem instants_agree (D : DateTime → Prop) (h : ZonesAgree dep D) (d : DateTime) (hd : D d) :
    dep.valueInstant d = dep.columnInstant d := by
  rcases d with ⟨wall, _ | offset⟩
  · exact (h wall hd).symm
  · rfl

theorem readings_agree (D : DateTime → Prop) (h : ZonesAgree dep D) (ds : List DateTime)
    (hds : ∀ d ∈ ds, D d) : readings dep ds = ds.map dep.columnInstant := by
  cases ds with
  | nil => rfl
  | cons d ds =>
      rw [readings, List.map_cons, List.map_congr_left (fun e he =>
        instants_agree dep D h e (hds e (List.mem_cons_of_mem d he)))]

section Runs

/-- An install of numpy with a timestamp. -/
def numpyAt (d : DateTime) : EventIn := { numpyInstall 0 with timestamp := d }

/-- Any list of timestamps can be recorded for a pair, in its order. -/
theorem timestamps_run (ds : List DateTime) (hlen : ds.length ≤ maxInteger) :
    ∃ c, Reachable dep c ∧
      eventsFor "numpy".toList "install".toList c.shared.trace = ds := by
  have hvalid : ∀ e ∈ ds.map numpyAt, isValidPackage e.package = true := by
    intro e he
    rcases List.mem_map.mp he with ⟨d, _, rfl⟩
    exact (by decide : isValidPackage "numpy".toList = true)
  rcases serial_run dep (ds.map numpyAt) hvalid (by rw [List.length_map]; exact hlen) with
    ⟨c, hc⟩
  refine ⟨c, hc.reachable, ?_⟩
  rw [eventsFor_eq, hc.commits, List.map_map, List.filterMap_map]
  exact List.filterMap_some

/-- Two timestamps recorded one after the other: the later of the first one's
    column reading and the second one's value reading. -/
theorem two_timestamps_run (a d : DateTime) : ∃ c, Reachable dep c ∧
    eventsFor "numpy".toList "install".toList c.shared.trace = [a, d] ∧
    c.shared.lastOf "numpy".toList "install".toList
      = some (max (dep.columnInstant a) (dep.valueInstant d)) := by
  rcases timestamps_run dep [a, d] (show 2 ≤ maxInteger by decide) with ⟨c, hc, hevents⟩
  refine ⟨c, hc, hevents, ?_⟩
  rw [lastOf_eq dep c.shared (reachable_inv dep c hc), hevents]
  rfl

end Runs

section OneReading

/-- A zone-aware datetime at an instant. -/
def DateTime.atUtc (t : Instant) : DateTime := { wall := t, utcoffset := some 0 }

theorem atUtc_column (t : Instant) : dep.columnInstant (.atUtc t) = t := Int.sub_zero t

theorem atUtc_value (t : Instant) : dep.valueInstant (.atUtc t) = t := Int.sub_zero t

/-- Next to an early enough timestamp the two readings of another one show. -/
theorem max_early (x y : Instant) (h : max (min x y) x = max (min x y) y) : x = y := by
  rw [Int.max_eq_right (Int.min_le_left x y), Int.max_eq_right (Int.min_le_right x y)] at h
  exact h

variable (D : DateTime → Prop)

theorem agree_of_latestBy (haware : ∀ d, d.isAware = true → D d) (inst : DateTime → Instant)
    (h : LatestBy dep D inst) : ZonesAgree dep D := by
  intro wall hd
  -- Alone, a datetime is read by the insert, so that is what `inst` must be.
  have hinst : ∀ d, D d → inst d = dep.columnInstant d := by
    intro d hd
    rcases timestamps_run dep [d] (show 1 ≤ maxInteger by decide) with ⟨c, hc, hevents⟩
    have hlast := h c hc "numpy".toList "install".toList
      (by rw [CommittedIn, hevents]; exact fun x hx => List.mem_singleton.mp hx ▸ hd)
    rw [lastOf_eq dep c.shared (reachable_inv dep c hc), hevents] at hlast
    exact (Option.some.inj hlast).symm
  -- After an early event, the update's reading of it counts.
  let naive : DateTime := { wall := wall, utcoffset := none }
  let early : DateTime := .atUtc (min (dep.columnInstant naive) (dep.valueInstant naive))
  have hearly : D early := haware early rfl
  rcases two_timestamps_run dep early naive with ⟨c, hc, hevents, hlast⟩
  have hmax := h c hc "numpy".toList "install".toList (by
    rw [CommittedIn, hevents]
    intro x hx
    rcases List.mem_pair.mp hx with rfl | rfl
    · exact hearly
    · exact hd)
  rw [hlast, hevents, List.map_cons, List.map_cons, List.map_nil, hinst early hearly,
    hinst naive hd, atUtc_column] at hmax
  exact max_early _ _ (Option.some.inj hmax).symm

theorem agree_of_orderFree (haware : ∀ d, d.isAware = true → D d) (h : OrderFree dep D) :
    ZonesAgree dep D := by
  intro wall hd
  let naive : DateTime := { wall := wall, utcoffset := none }
  let early : DateTime := .atUtc (min (dep.columnInstant naive) (dep.valueInstant naive))
  -- The same two events, the naive one last and the naive one first.
  rcases two_timestamps_run dep early naive with ⟨c, hc, hevents, hlast⟩
  rcases two_timestamps_run dep naive early with ⟨c', hc', hevents', hlast'⟩
  have hsame := h c c' hc hc' "numpy".toList "install".toList
    (by
      rw [CommittedIn, hevents]
      intro x hx
      rcases List.mem_pair.mp hx with rfl | rfl
      · exact haware early rfl
      · exact hd)
    (by rw [hevents, hevents']; exact List.Perm.swap _ _ _)
  rw [hlast, hlast', atUtc_column, atUtc_value, Int.max_comm (dep.columnInstant naive)] at hsame
  exact max_early _ _ (Option.some.inj hsame).symm

theorem latestBy_of_agree (h : ZonesAgree dep D) : LatestBy dep D dep.columnInstant := by
  intro c hc p t hD
  rw [lastOf_eq dep c.shared (reachable_inv dep c hc), readings_agree dep D h _ hD]

theorem orderFree_of_agree (h : ZonesAgree dep D) : OrderFree dep D := by
  intro c c' hc hc' p t hD hperm
  have hD' : CommittedIn D p t c'.shared.trace := fun d hd => hD d (hperm.mem_iff.mpr hd)
  rw [latestBy_of_agree dep D h c hc p t hD, latestBy_of_agree dep D h c' hc' p t hD']
  exact max?_perm _ _ (hperm.map _)

/-- When a datetime is read in one way. Over a class of datetimes with the
    zone-aware ones in it, the timestamps in the table are the latest of one
    instant for each event, and the order of the events does not matter,
    exactly when the process's zone and the session's agree on the naive
    datetimes of the class. Either half alone is enough for that. -/
theorem one_reading_iff (haware : ∀ d, d.isAware = true → D d) :
    ((∃ inst, LatestBy dep D inst) ↔ ZonesAgree dep D) ∧
      (OrderFree dep D ↔ ZonesAgree dep D) := by
  refine ⟨⟨?_, fun h => ⟨dep.columnInstant, latestBy_of_agree dep D h⟩⟩,
    ⟨agree_of_orderFree dep D haware, orderFree_of_agree dep D⟩⟩
  rintro ⟨inst, h⟩
  exact agree_of_latestBy dep D haware inst h

/-- With both zones in UTC every datetime is read in one way. -/
theorem one_reading_iff_utc :
    (∃ inst, LatestBy utcDeployment (fun _ => True) inst) ∧
      OrderFree utcDeployment (fun _ => True) := by
  have hboth := one_reading_iff utcDeployment (fun _ => True) (fun _ _ => trivial)
  exact ⟨hboth.1.mpr (fun _ _ => rfl), hboth.2.mpr (fun _ _ => rfl)⟩

end OneReading

section Disagreement

/-- An hour, in microseconds. -/
def hour : Int := 3600000000

/-- A process five hours behind UTC, with a database session in UTC. -/
def westernDeployment : Deployment :=
  { utcDeployment with localZone := fun wall => wall + 5 * hour }

/-- Noon, on a clock without a zone. -/
def naiveNoon : DateTime := { wall := 12 * hour, utcoffset := none }

/-- One list of events, two orders, two timestamps. Noon on a clock without a
    zone arrives first and makes the row, and is read as 17:00 UTC; it arrives
    after 13:00 UTC, and is read as noon. -/
theorem naive_first_or_last : ∃ c c', Reachable westernDeployment c ∧
    Reachable westernDeployment c' ∧
    eventsFor "numpy".toList "install".toList c.shared.trace
      = [naiveNoon, .atUtc (13 * hour)] ∧
    eventsFor "numpy".toList "install".toList c'.shared.trace
      = [.atUtc (13 * hour), naiveNoon] ∧
    c.shared.lastOf "numpy".toList "install".toList = some (17 * hour) ∧
    c'.shared.lastOf "numpy".toList "install".toList = some (13 * hour) ∧
    ¬ OrderFree westernDeployment (fun _ => True) := by
  rcases two_timestamps_run westernDeployment naiveNoon (.atUtc (13 * hour)) with
    ⟨c, hc, hevents, hlast⟩
  rcases two_timestamps_run westernDeployment (.atUtc (13 * hour)) naiveNoon with
    ⟨c', hc', hevents', hlast'⟩
  refine ⟨c, c', hc, hc', hevents, hevents', hlast, hlast', fun hfree => ?_⟩
  have hsame := hfree c c' hc hc' _ _ (fun _ _ => trivial)
    (by rw [hevents, hevents']; exact List.Perm.swap _ _ _)
  rw [hlast, hlast'] at hsame
  exact absurd hsame (by decide)

end Disagreement

end KingPi
