import KingPi.Theory.Tally
import Mathlib.Data.List.Nodup

/-!
# The Table

What the proofs need of the table and of the statements on it.

A write shows up under its own key and nowhere else, and it never makes a
second row for a key. With unique keys, a `SELECT` on a key returns the row
the search finds or nothing, so the reads of the store cannot meet two rows,
and the dictionary of `get_counts` agrees with the search key by key.

`upsert_spec` is the one fact about the upsert: the row it computes is the
next tally of its pair, whichever of its two branches computed it.

## Theorems

* `find_put`: What a write changes.
* `nodup_put`: A write keeps the key unique.
* `filter_hasKey`: A `SELECT` on a key returns at most one row.
* `scalar_hasKey`: So `scalar_one_or_none` never meets two.
* `lookup_counts`: The dictionary of `get_counts`, key by key.
* `upsert_spec`: The upsert computes the next tally.
-/

namespace KingPi

section Table

/-- The unique key of a row. -/
def PackageEvent.key (row : PackageEvent) : Str × Str := (row.package, row.eventType)

/-- What a row reports. -/
def PackageEvent.stats (row : PackageEvent) : PackageEventStats :=
  { count := row.count, last := row.lastTimestamp }

theorem hasKey_iff (row : PackageEvent) (p t : Str) :
    row.hasKey p t = true ↔ row.key = (p, t) := by
  rw [PackageEvent.hasKey, PackageEvent.key, Bool.and_eq_true, beq_iff_eq, beq_iff_eq,
    Prod.mk.injEq]

theorem find_cons_pos (r : PackageEvent) (table : List PackageEvent) (p t : Str)
    (h : r.hasKey p t = true) : Database.find (r :: table) p t = some r := by
  rw [Database.find, List.find?_cons, h]

theorem find_cons_neg (r : PackageEvent) (table : List PackageEvent) (p t : Str)
    (h : ¬ r.hasKey p t = true) :
    Database.find (r :: table) p t = Database.find table p t := by
  rw [Database.find, List.find?_cons, Bool.eq_false_iff.mpr h]
  rfl

theorem find_some (table : List PackageEvent) (p t : Str) (row : PackageEvent)
    (h : Database.find table p t = some row) : row ∈ table ∧ row.key = (p, t) := by
  unfold Database.find at h
  have hkey := List.find?_some h
  exact ⟨List.mem_of_find?_eq_some h, (hasKey_iff row p t).mp hkey⟩

theorem find_none (table : List PackageEvent) (p t : Str)
    (h : Database.find table p t = none) : ∀ row ∈ table, row.key ≠ (p, t) := by
  intro row hrow hkey
  have := List.find?_eq_none.mp h row hrow
  exact this ((hasKey_iff row p t).mpr hkey)

/-- With unique keys, the row of a key is the one the search finds. -/
theorem find_of_mem (table : List PackageEvent) (hnd : (table.map PackageEvent.key).Nodup)
    (row : PackageEvent) (h : row ∈ table) :
    Database.find table row.package row.eventType = some row := by
  cases hf : Database.find table row.package row.eventType with
  | none => exact absurd rfl (find_none table _ _ hf row h)
  | some row' =>
      rcases find_some table _ _ row' hf with ⟨hmem, hkey⟩
      rw [List.inj_on_of_nodup_map hnd hmem h hkey]

/-- The position of a write: over the row with its key if there is one, at
    the end if not. -/
theorem put_eq (table : List PackageEvent) (row : PackageEvent) :
    Database.put table row = if row.key ∈ table.map PackageEvent.key then
      table.map (fun r => if r.key = row.key then row else r) else table ++ [row] := by
  have hany : table.any (fun r => r.hasKey row.package row.eventType) = true ↔
      row.key ∈ table.map PackageEvent.key := by
    rw [List.any_eq_true, List.mem_map]
    simp only [hasKey_iff]
    rfl
  rw [Database.put]
  simp only [hany, hasKey_iff]
  rfl

theorem keys_put (table : List PackageEvent) (row : PackageEvent) :
    (Database.put table row).map PackageEvent.key =
      if row.key ∈ table.map PackageEvent.key then table.map PackageEvent.key
      else table.map PackageEvent.key ++ [row.key] := by
  rw [put_eq]
  by_cases h : row.key ∈ table.map PackageEvent.key
  · rw [if_pos h, if_pos h, List.map_map]
    refine List.map_congr_left (fun r _ => ?_)
    rw [Function.comp_apply]
    by_cases hr : r.key = row.key
    · rw [if_pos hr, hr]
    · rw [if_neg hr]
  · rw [if_neg h, if_neg h, List.map_append, List.map_singleton]

/-- A write keeps the key unique. -/
theorem nodup_put (table : List PackageEvent) (row : PackageEvent)
    (h : (table.map PackageEvent.key).Nodup) :
    ((Database.put table row).map PackageEvent.key).Nodup := by
  rw [keys_put]
  -- Overwriting keeps the list of keys, appending adds a key that was not there.
  by_cases hk : row.key ∈ table.map PackageEvent.key
  · rw [if_pos hk]
    exact h
  · rw [if_neg hk, List.nodup_append]
    refine ⟨h, List.nodup_singleton _, fun a ha b hb => ?_⟩
    rw [List.mem_singleton] at hb
    rw [hb]
    rintro rfl
    exact hk ha

theorem mem_put (table : List PackageEvent) (row r : PackageEvent)
    (h : r ∈ Database.put table row) : r = row ∨ r ∈ table ∧ r.key ≠ row.key := by
  rw [put_eq] at h
  by_cases hk : row.key ∈ table.map PackageEvent.key
  · rw [if_pos hk] at h
    rcases List.mem_map.mp h with ⟨r', hr', rfl⟩
    by_cases hrk : r'.key = row.key
    · rw [if_pos hrk]
      exact Or.inl rfl
    · rw [if_neg hrk]
      exact Or.inr ⟨hr', hrk⟩
  · rw [if_neg hk] at h
    rcases List.mem_append.mp h with h | h
    · refine Or.inr ⟨h, fun hc => hk ?_⟩
      rw [← hc]
      exact List.mem_map_of_mem h
    · exact Or.inl (List.mem_singleton.mp h)

theorem put_mem_self (table : List PackageEvent) (row : PackageEvent) :
    row ∈ Database.put table row := by
  rw [put_eq]
  by_cases hk : row.key ∈ table.map PackageEvent.key
  · rw [if_pos hk]
    rcases List.mem_map.mp hk with ⟨r, hr, hrk⟩
    exact List.mem_map.mpr ⟨r, hr, by rw [if_pos hrk]⟩
  · rw [if_neg hk]
    exact List.mem_append_right _ (List.mem_singleton.mpr rfl)

theorem put_mem_other (table : List PackageEvent) (row r : PackageEvent) (h : r ∈ table)
    (hk : r.key ≠ row.key) : r ∈ Database.put table row := by
  rw [put_eq]
  by_cases hmem : row.key ∈ table.map PackageEvent.key
  · rw [if_pos hmem]
    exact List.mem_map.mpr ⟨r, h, by rw [if_neg hk]⟩
  · rw [if_neg hmem]
    exact List.mem_append_left _ h

/-- What a write changes: it shows up under its own key, and every other key
    has the row it had. -/
theorem find_put (table : List PackageEvent) (row : PackageEvent)
    (hnd : (table.map PackageEvent.key).Nodup) (p t : Str) :
    Database.find (Database.put table row) p t =
      if row.key = (p, t) then some row else Database.find table p t := by
  have hnd' := nodup_put table row hnd
  by_cases hk : row.key = (p, t)
  · rw [if_pos hk]
    have hfind := find_of_mem _ hnd' row (put_mem_self table row)
    rcases Prod.mk.inj hk with ⟨hp, ht⟩
    rw [← hp, ← ht]
    exact hfind
  · rw [if_neg hk]
    -- Under another key the write can neither make a row nor hide one.
    cases hf : Database.find table p t with
    | none =>
        cases hf' : Database.find (Database.put table row) p t with
        | none => rfl
        | some r =>
            rcases find_some _ p t r hf' with ⟨hr, hrk⟩
            rcases mem_put table row r hr with rfl | ⟨hr, _⟩
            · exact absurd hrk hk
            · exact absurd hrk (find_none table p t hf r hr)
    | some r =>
        rcases find_some table p t r hf with ⟨hr, hrk⟩
        have hne : r.key ≠ row.key := fun hc => hk (hc.symm.trans hrk)
        have hfind := find_of_mem _ hnd' r (put_mem_other table row r hr hne)
        rcases Prod.mk.inj hrk with ⟨hp, ht⟩
        rw [← hp, ← ht]
        exact hfind

end Table

section Reads

/-- With unique keys, a `SELECT` on a key returns the row the search finds. -/
theorem filter_hasKey (table : List PackageEvent) (p t : Str)
    (hnd : (table.map PackageEvent.key).Nodup) :
    table.filter (fun r => r.hasKey p t) = (Database.find table p t).toList := by
  induction table with
  | nil => rfl
  | cons r table ih =>
      rw [List.map_cons, List.nodup_cons] at hnd
      by_cases hr : r.hasKey p t = true
      · -- The rest of the table cannot have the key again.
        have hrest : table.filter (fun r => r.hasKey p t) = [] := by
          rw [List.filter_eq_nil_iff]
          intro r' hr' hkey
          refine hnd.1 ?_
          rw [(hasKey_iff r p t).mp hr, ← (hasKey_iff r' p t).mp hkey]
          exact List.mem_map_of_mem hr'
        rw [List.filter_cons, if_pos hr, hrest, find_cons_pos r table p t hr,
          Option.toList_some]
      · rw [List.filter_cons, if_neg hr, ih hnd.2, find_cons_neg r table p t hr]

theorem scalarOneOrNone_toList {α β : Type} (o : Option α) (f : α → β) :
    scalarOneOrNone (o.toList.map f) = .ok (o.map f) := by
  cases o with
  | none => rfl
  | some a => rfl

/-- With unique keys, `scalar_one_or_none` finds a column of the row, or
    nothing. -/
theorem scalar_hasKey {α : Type} (table : List PackageEvent) (p t : Str) (f : PackageEvent → α)
    (hnd : (table.map PackageEvent.key).Nodup) :
    scalarOneOrNone ((table.filter (fun r => r.hasKey p t)).map f)
      = .ok ((Database.find table p t).map f) := by
  rw [filter_hasKey table p t hnd, scalarOneOrNone_toList]

/-- A missing row is reported with a count of zero. -/
theorem getD_count (o : Option PackageEvent) :
    (o.map PackageEvent.count).getD 0 = ((o.map PackageEvent.stats).getD {}).count := by
  cases o with
  | none => rfl
  | some row => rfl

/-- A missing row and a row without a timestamp are reported alike. -/
theorem join_lastTimestamp (o : Option PackageEvent) :
    (o.map PackageEvent.lastTimestamp).join = ((o.map PackageEvent.stats).getD {}).last := by
  cases o with
  | none => rfl
  | some row => rfl

theorem foldl_dictSet {α : Type} (items d : List (Str × α))
    (h : ((d ++ items).map Prod.fst).Nodup) :
    items.foldl (fun d item => dictSet d item.1 item.2) d = d ++ items := by
  induction items generalizing d with
  | nil => rw [List.foldl_nil, List.append_nil]
  | cons item items ih =>
      -- The key of the item is new to the dictionary, so setting it appends.
      have hnew : d.any (fun x => x.1 == item.1) = false := by
        rw [List.any_eq_false]
        intro x hx hc
        rw [List.map_append, List.nodup_append] at h
        exact h.2.2 _ (List.mem_map_of_mem hx) _ (List.mem_map_of_mem (List.mem_cons_self ..))
          (beq_iff_eq.mp hc)
      have hstep : dictSet d item.1 item.2 = d ++ [item] := by
        rw [dictSet, if_neg (by rw [hnew]; decide)]
      rw [List.foldl_cons, hstep, ih]
      · rw [List.append_assoc, List.singleton_append]
      · rw [List.append_assoc, List.singleton_append]
        exact h

/-- A comprehension over distinct keys keeps its items. -/
theorem dictOf_of_nodup {α : Type} (items : List (Str × α)) (h : (items.map Prod.fst).Nodup) :
    dictOf items = items := by
  rw [dictOf, foldl_dictSet items [] h, List.nil_append]

theorem nodup_eventTypes (table : List PackageEvent) (p : Str)
    (hnd : (table.map PackageEvent.key).Nodup) :
    ((table.filter (Query.counts p).selects).map PackageEvent.eventType).Nodup := by
  have hsub : ((table.filter (Query.counts p).selects).map PackageEvent.key).Nodup :=
    hnd.sublist (List.filter_sublist.map _)
  refine List.Nodup.map_on ?_ hsub.of_map
  intro r hr r' hr' heq
  have hp := beq_iff_eq.mp (List.mem_filter.mp hr).2
  have hp' := beq_iff_eq.mp (List.mem_filter.mp hr').2
  refine List.inj_on_of_nodup_map hsub hr hr' ?_
  rw [PackageEvent.key, PackageEvent.key, hp, hp', heq]

theorem lookup_filter (table : List PackageEvent) (p t : Str) :
    ((table.filter (Query.counts p).selects).map (fun row => (row.eventType, row.count))).lookup t
      = (Database.find table p t).map PackageEvent.count := by
  induction table with
  | nil => rfl
  | cons r table ih =>
      -- A row of another package is filtered away, and a row of another type is
      -- passed over by the lookup.
      by_cases hp : r.package = p
      · have hsel : (Query.counts p).selects r = true := beq_iff_eq.mpr hp
        rw [List.filter_cons_of_pos hsel, List.map_cons]
        by_cases ht : r.eventType = t
        · have hkey : r.hasKey p t = true := (hasKey_iff r p t).mpr (Prod.ext hp ht)
          rw [find_cons_pos r table p t hkey, Option.map_some, ht, List.lookup_cons_self]
        · have hkey : ¬ r.hasKey p t = true := fun hc =>
            ht (Prod.ext_iff.mp ((hasKey_iff r p t).mp hc)).2
          rw [find_cons_neg r table p t hkey, ← ih, List.lookup_cons,
            beq_eq_false_iff_ne.mpr (Ne.symm ht)]
      · have hsel : ¬ (Query.counts p).selects r = true := fun hc => hp (beq_iff_eq.mp hc)
        have hkey : ¬ r.hasKey p t = true := fun hc =>
          hp (Prod.ext_iff.mp ((hasKey_iff r p t).mp hc)).1
        rw [List.filter_cons_of_neg hsel, find_cons_neg r table p t hkey, ih]

/-- The dictionary of `get_counts`, key by key. -/
theorem lookup_counts (table : List PackageEvent) (p t : Str)
    (hnd : (table.map PackageEvent.key).Nodup) :
    (dictOf ((table.filter (Query.counts p).selects).map
      (fun row => (row.eventType, row.count)))).lookup t
      = (Database.find table p t).map PackageEvent.count := by
  rw [dictOf_of_nodup, lookup_filter]
  rw [List.map_map]
  exact nodup_eventTypes table p hnd

end Reads

section Upsert

variable (dep : Deployment)

/-- The upsert computes the next tally of its pair, under the statement's
    own key, and changes nothing of the database but the sequence. -/
theorem upsert_spec (db db' : Database) (stmt : Upsert) (row : PackageEvent)
    (ds : List DateTime)
    (hrow : (Database.find db.table stmt.package stmt.eventType).map PackageEvent.stats
      = tally dep ds)
    (h : db.upsert dep stmt = (.ok row, db')) :
    row.key = (stmt.package, stmt.eventType) ∧
      some row.stats = tally dep (ds ++ [stmt.timestamp]) ∧
      db' = { db with drawn := db.drawn + 1 } := by
  rw [tally_concat, ← hrow]
  unfold Database.upsert at h
  -- The sequence comes first: `INSERT` draws the identifier before the conflict
  -- is looked at.
  by_cases hmax : db.drawn = maxInteger
  · rw [if_pos hmax, Prod.mk.injEq] at h
    exact absurd h.1 (by simp only [reduceCtorEq, not_false_eq_true])
  · rw [if_neg hmax] at h
    cases hf : Database.find db.table stmt.package stmt.eventType with
    -- No conflict: the row is inserted with a count of one.
    | none =>
        rw [hf] at h
        simp only [Prod.mk.injEq, Except.ok.injEq] at h
        rcases h with ⟨rfl, rfl⟩
        exact ⟨rfl, rfl, rfl⟩
    -- A conflict: the row is updated, if its count does not overflow.
    | some r =>
        rw [hf] at h
        simp only at h
        rcases find_some _ _ _ r hf with ⟨_, hkey⟩
        by_cases hcount : r.count + 1 ≤ maxInteger
        · rw [if_pos hcount] at h
          simp only [Prod.mk.injEq, Except.ok.injEq] at h
          rcases h with ⟨rfl, rfl⟩
          exact ⟨hkey, rfl, rfl⟩
        · rw [if_neg hcount, Prod.mk.injEq] at h
          exact absurd h.1 (by simp only [reduceCtorEq, not_false_eq_true])

/-- Whatever comes of the upsert, it has drawn an identifier, if there was
    one, and changed nothing else. -/
theorem upsert_frame (db db' : Database) (stmt : Upsert) (r : Except DbFault PackageEvent)
    (h : db.upsert dep stmt = (r, db')) : db' = { db with drawn := db.draw.drawn } := by
  have hsnd : db' = (db.upsert dep stmt).2 := by rw [h]
  rw [hsnd]
  unfold Database.upsert Database.draw
  by_cases hmax : db.drawn = maxInteger
  · rw [if_pos hmax, if_pos hmax]
  · rw [if_neg hmax, if_neg hmax]
    cases Database.find db.table stmt.package stmt.eventType with
    | none => rfl
    | some row =>
        simp only
        split
        · rfl
        · rfl

end Upsert

end KingPi
