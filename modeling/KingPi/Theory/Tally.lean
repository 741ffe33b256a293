import KingPi.Core.World
import Mathlib.Data.List.Basic

/-!
# Counting Events

What a row of the table stands for. The table keeps no events, only a count
and the latest timestamp, so its meaning is a function of the list of events
committed for a pair: `tally`. This module says that one more event changes
the tally the way the upsert changes the row.

The upsert reads a timestamp in two ways, one for the row it inserts and one
for the row it updates, so the first event of a pair is read differently
from the others. `readings` is the list of instants that results, and the
tally's timestamp is its maximum. For zone-aware timestamps the two readings
agree and the distinction goes away, which is `readings_of_aware`.

## Main definitions

* `readings`: The instants a list of events is read as.
* `statsOf`, `tally`: The count and latest timestamp of a list of events.
* `eventsFor`: The events a trace has committed for a pair.
* `commitsOf`: The statements a trace has committed for a request.
* `commits`: All the statements a trace has committed.
* `attempts`: The pairs of the statements that reached the database.

## Theorems

* `tally_concat`: One more event, seen by the tally.
* `readings_of_aware`: Zone-aware events are read as their own instants.
* `max?_eq_iff`: When two lists have one latest instant.
* `statsOf_mono`: A tally only grows.
-/

namespace KingPi

section Tally

variable (dep : Deployment)

/-- The instants a list of events is read as: the first by the insert, the
    others by the update. -/
def readings : List DateTime → List Instant
  | [] => []
  | d :: ds => dep.columnInstant d :: ds.map dep.valueInstant

/-- The count and latest timestamp of a list of events. -/
def statsOf (ds : List DateTime) : PackageEventStats :=
  { count := ds.length, last := (readings dep ds).max? }

/-- The count and latest timestamp of a list of events, or `none` when there
    are no events and so no row. -/
def tally (ds : List DateTime) : Option PackageEventStats :=
  if ds = [] then none else some (statsOf dep ds)

theorem tally_nil : tally dep [] = none := rfl

theorem tally_of_ne_nil (ds : List DateTime) (h : ds ≠ []) :
    tally dep ds = some (statsOf dep ds) := by
  rw [tally, if_neg h]

/-- What a pair without a row is reported with fits the empty list. -/
theorem tally_getD (ds : List DateTime) : (tally dep ds).getD {} = statsOf dep ds := by
  by_cases h : ds = []
  · rw [h]
    rfl
  · rw [tally_of_ne_nil dep ds h, Option.getD_some]

theorem max?_concat (l : List Instant) (t : Instant) :
    (l ++ [t]).max? = greatest l.max? t := by
  cases l with
  | nil => rfl
  | cons s l => rw [List.cons_append, List.max?_cons', List.max?_cons', List.foldl_append,
      List.foldl_cons, List.foldl_nil, greatest]

theorem readings_concat (ds : List DateTime) (d : DateTime) (h : ds ≠ []) :
    readings dep (ds ++ [d]) = readings dep ds ++ [dep.valueInstant d] := by
  cases ds with
  | nil => exact absurd rfl h
  | cons e ds => simp only [List.cons_append, readings, List.map_append, List.map_cons,
      List.map_nil]

/-- One more event, seen by the tally: the first makes the row, each later
    one raises the count and can only move the timestamp forward. -/
theorem tally_concat (ds : List DateTime) (d : DateTime) :
    tally dep (ds ++ [d]) = match tally dep ds with
      | none => some { count := 1, last := some (dep.columnInstant d) }
      | some s =>
        some { count := s.count + 1, last := greatest s.last (dep.valueInstant d) } := by
  have hne : ds ++ [d] ≠ [] := by simp only [ne_eq, List.append_eq_nil_iff, reduceCtorEq,
    and_false, not_false_eq_true]
  rw [tally_of_ne_nil dep _ hne]
  -- The first event is read by the insert, every later one by the update.
  by_cases hds : ds = []
  · rw [hds]
    rfl
  · rw [tally_of_ne_nil dep ds hds, statsOf, readings_concat dep ds d hds, max?_concat,
      List.length_append, List.length_singleton]
    rfl

/-- A zone-aware timestamp is one instant, whichever way it is read. -/
theorem valueInstant_of_aware (d : DateTime) (h : d.isAware = true) :
    dep.valueInstant d = dep.columnInstant d :=
  d.instantIn_of_aware h _ _

/-- Zone-aware events are read as their own instants. -/
theorem readings_of_aware (ds : List DateTime) (h : ∀ d ∈ ds, d.isAware = true) :
    readings dep ds = ds.map dep.columnInstant := by
  cases ds with
  | nil => rfl
  | cons d ds =>
      rw [readings, List.map_cons, List.map_congr_left (fun e he =>
        valueInstant_of_aware dep e (h e (List.mem_cons_of_mem d he)))]

theorem length_readings (ds : List DateTime) : (readings dep ds).length = ds.length := by
  cases ds with
  | nil => rfl
  | cons d ds => rw [readings, List.length_cons, List.length_map, List.length_cons]

theorem readings_max?_isSome (ds : List DateTime) (h : ds ≠ []) :
    ∃ t, (readings dep ds).max? = some t := by
  rw [← Option.isSome_iff_exists, List.isSome_max?_iff, ne_eq, ← List.length_eq_zero_iff,
    length_readings, List.length_eq_zero_iff]
  exact h

/-- Later events do not change how earlier ones were read. -/
theorem readings_grow (ds ds' : List DateTime) (h : ds <+: ds') :
    readings dep ds <+: readings dep ds' := by
  rcases h with ⟨l, rfl⟩
  cases ds with
  | nil => exact List.nil_prefix
  | cons d ds =>
      rw [List.cons_append, readings, readings, List.map_append, ← List.cons_append]
      exact List.prefix_append _ _

/-- One timestamp is no later than another; no timestamp is the earliest. -/
def NoLater (a b : Option Instant) : Prop := ∀ x, a = some x → ∃ y, b = some y ∧ x ≤ y

theorem noLater_antisymm (a b : Option Instant) (h : NoLater a b) (h' : NoLater b a) : a = b := by
  cases a with
  | none =>
      cases b with
      | none => rfl
      | some y =>
          rcases h' y rfl with ⟨x, hx, _⟩
          exact absurd hx (by simp only [reduceCtorEq, not_false_eq_true])
  | some x =>
      rcases h x rfl with ⟨y, rfl, hxy⟩
      rcases h' y rfl with ⟨x', hx', hyx⟩
      rw [← Option.some.inj hx'] at hyx
      rw [Int.le_antisymm hxy hyx]

/-- One list's latest instant is no later than another's when everything in the
    first is no later than something in the second. -/
theorem noLater_max?_iff (l l' : List Instant) :
    NoLater l.max? l'.max? ↔ ∀ x ∈ l, ∃ y ∈ l', x ≤ y := by
  constructor
  · intro h x hx
    cases hm : l.max? with
    | none =>
        rw [List.max?_eq_none_iff] at hm
        rw [hm] at hx
        exact absurd hx List.not_mem_nil
    | some m =>
        rcases h m hm with ⟨y, hy, hmy⟩
        exact ⟨y, List.max?_mem hy, Int.le_trans ((List.max?_eq_some_iff.mp hm).2 x hx) hmy⟩
  · intro h m hm
    rcases h m (List.max?_mem hm) with ⟨y, hy, hmy⟩
    -- The second list has a maximum because it has an element.
    cases hm' : l'.max? with
    | none =>
        rw [List.max?_eq_none_iff] at hm'
        rw [hm'] at hy
        exact absurd hy List.not_mem_nil
    | some m' => exact ⟨m', rfl, Int.le_trans hmy ((List.max?_eq_some_iff.mp hm').2 y hy)⟩

/-- Two lists have one latest instant when neither goes beyond the other. -/
theorem max?_eq_iff (l l' : List Instant) :
    l.max? = l'.max? ↔ (∀ x ∈ l, ∃ y ∈ l', x ≤ y) ∧ ∀ y ∈ l', ∃ x ∈ l, y ≤ x := by
  rw [← noLater_max?_iff, ← noLater_max?_iff]
  constructor
  · intro h
    rw [h]
    exact ⟨fun x hx => ⟨x, hx, Int.le_refl x⟩, fun x hx => ⟨x, hx, Int.le_refl x⟩⟩
  · exact fun h => noLater_antisymm _ _ h.1 h.2

theorem max?_mono (l l' : List Instant) (h : l ⊆ l') : NoLater l.max? l'.max? :=
  (noLater_max?_iff l l').mpr (fun x hx => ⟨x, h hx, Int.le_refl x⟩)

/-- More events: a count at least as large, and a timestamp at least as late. -/
theorem statsOf_mono (ds ds' : List DateTime) (h : ds <+: ds') :
    (statsOf dep ds).count ≤ (statsOf dep ds').count ∧
      NoLater (statsOf dep ds).last (statsOf dep ds').last :=
  ⟨h.length_le, max?_mono _ _ (readings_grow dep ds ds' h).subset⟩

end Tally

section Trace

/-- The statement an event is recorded with. -/
def EventIn.stmt (e : EventIn) : Upsert :=
  { package := e.package, eventType := e.type.value, timestamp := e.timestamp }

/-- The timestamp an observation commits for a pair, if it does. -/
def Obs.eventFor (package eventType : Str) : Obs → Option DateTime
  | .committed _ stmt =>
    if stmt.package = package ∧ stmt.eventType = eventType then some stmt.timestamp else none
  | _ => none

/-- The events a trace has committed for a pair, in order of commit. -/
def eventsFor (package eventType : Str) (tr : List Obs) : List DateTime :=
  tr.filterMap (Obs.eventFor package eventType)

/-- The statement an observation commits for a request, if it does. -/
def Obs.commitOf (i : Nat) : Obs → Option Upsert
  | .committed j stmt => if j = i then some stmt else none
  | _ => none

/-- The statements a trace has committed for a request. -/
def commitsOf (i : Nat) (tr : List Obs) : List Upsert := tr.filterMap (Obs.commitOf i)

/-- The statement an observation commits, if it does. -/
def Obs.commit : Obs → Option Upsert
  | .committed _ stmt => some stmt
  | _ => none

/-- The statements a trace has committed, in order of commit. -/
def commits (tr : List Obs) : List Upsert := tr.filterMap Obs.commit

/-- The pair of a statement. -/
def Upsert.key (stmt : Upsert) : Str × Str := (stmt.package, stmt.eventType)

/-- The pair an observation says was proposed to the database, if it does. -/
def Obs.attempt : Obs → Option (Str × Str)
  | .executed _ stmt _ => some stmt.key
  | _ => none

/-- The pairs of the statements that reached the database, in order. -/
def attempts (tr : List Obs) : List (Str × Str) := tr.filterMap Obs.attempt

theorem eventsFor_append (p t : Str) (tr tr' : List Obs) :
    eventsFor p t (tr ++ tr') = eventsFor p t tr ++ eventsFor p t tr' :=
  List.filterMap_append

theorem commitsOf_append (i : Nat) (tr tr' : List Obs) :
    commitsOf i (tr ++ tr') = commitsOf i tr ++ commitsOf i tr' :=
  List.filterMap_append

theorem eventsFor_grow (p t : Str) (tr tr' : List Obs) (h : tr <+: tr') :
    eventsFor p t tr <+: eventsFor p t tr' := by
  rcases h with ⟨l, rfl⟩
  rw [eventsFor_append]
  exact List.prefix_append _ _

theorem mem_eventsFor (p t : Str) (tr : List Obs) (d : DateTime) :
    d ∈ eventsFor p t tr ↔ ∃ i, Obs.committed i ⟨p, t, d⟩ ∈ tr := by
  rw [eventsFor, List.mem_filterMap]
  constructor
  · rintro ⟨o, ho, hd⟩
    cases o with
    | committed i stmt =>
        rcases stmt with ⟨p', t', d'⟩
        simp only [Obs.eventFor, Option.ite_none_right_eq_some, Option.some.injEq] at hd
        rcases hd with ⟨⟨rfl, rfl⟩, rfl⟩
        exact ⟨i, ho⟩
    | _ => exact absurd hd (by simp only [Obs.eventFor, reduceCtorEq, not_false_eq_true])
  · rintro ⟨i, hi⟩
    exact ⟨_, hi, by simp only [Obs.eventFor, and_self, if_true]⟩

theorem mem_commitsOf (i : Nat) (tr : List Obs) (stmt : Upsert) :
    stmt ∈ commitsOf i tr ↔ Obs.committed i stmt ∈ tr := by
  rw [commitsOf, List.mem_filterMap]
  constructor
  · rintro ⟨o, ho, hs⟩
    cases o with
    | committed j stmt' =>
        simp only [Obs.commitOf, Option.ite_none_right_eq_some, Option.some.injEq] at hs
        rcases hs with ⟨rfl, rfl⟩
        exact ho
    | _ => exact absurd hs (by simp only [Obs.commitOf, reduceCtorEq, not_false_eq_true])
  · intro h
    exact ⟨_, h, by simp only [Obs.commitOf, if_true]⟩

theorem commits_append (tr tr' : List Obs) : commits (tr ++ tr') = commits tr ++ commits tr' :=
  List.filterMap_append

theorem attempts_append (tr tr' : List Obs) :
    attempts (tr ++ tr') = attempts tr ++ attempts tr' :=
  List.filterMap_append

theorem commits_grow (tr tr' : List Obs) (h : tr <+: tr') : commits tr <+: commits tr' := by
  rcases h with ⟨l, rfl⟩
  rw [commits_append]
  exact List.prefix_append _ _

theorem mem_commits (tr : List Obs) (stmt : Upsert) :
    stmt ∈ commits tr ↔ ∃ i, Obs.committed i stmt ∈ tr := by
  rw [commits, List.mem_filterMap]
  constructor
  · rintro ⟨o, ho, hs⟩
    cases o with
    | committed i stmt' =>
        rw [Obs.commit, Option.some.injEq] at hs
        rw [hs] at ho
        exact ⟨i, ho⟩
    | _ => exact absurd hs (by simp only [Obs.commit, reduceCtorEq, not_false_eq_true])
  · rintro ⟨i, hi⟩
    exact ⟨_, hi, rfl⟩

/-- The events of a pair, picked from the log of commits. -/
theorem eventsFor_eq (p t : Str) (tr : List Obs) :
    eventsFor p t tr = (commits tr).filterMap (fun stmt =>
      if stmt.package = p ∧ stmt.eventType = t then some stmt.timestamp else none) := by
  rw [commits, List.filterMap_filterMap, eventsFor]
  refine List.filterMap_congr (fun o _ => ?_)
  cases o with
  | committed i stmt => rfl
  | _ => rfl

theorem length_eventsFor_le (p t : Str) (tr : List Obs) :
    (eventsFor p t tr).length ≤ (commits tr).length := by
  rw [eventsFor_eq]
  exact List.length_filterMap_le _ _

end Trace

end KingPi
