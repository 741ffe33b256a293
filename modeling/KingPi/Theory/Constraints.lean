import KingPi.Theory.Reads
import KingPi.Theory.Agreement

/-!
# The Constraints of the Table

`package_events` declares a primary key, a unique pair, column types with a
length and a range, and columns that may not be null. The model of the upsert
asks for none of this when it writes a row, since no statement the server sends
is refused for it. Here is why.

The pair is what `ON CONFLICT` looks at, so that it takes care of itself. The
identifier is not looked at: it is drawn before the conflict is, and thrown away
if there is one. What has to be shown is that two rows have the same identifier
just when they have the same pair, and it has to be shown for the rows that
open transactions are about to write as well, because they were computed from a
table that may have changed in the meantime.

A row that has been committed stays, under its identifier.

## Main definitions

* `Database.rows`: The rows that are there, and those on their way.
* `Declared`: A row is as the columns are declared.
* `Upheld`: The constraints hold.

## Theorems

* `upsert_cases`: The row of an upsert is new, or it is an old one counted on.
* `upheld_step`: Every step keeps the constraints.
* `constraints_upheld`: They hold in every reachable state.
-/

namespace KingPi

open Async

/-- The rows that are there, and those that open transactions have written. -/
def Database.rows (db : Database) : List PackageEvent := db.table ++ db.pending.map Pending.row

/-- A row is as the columns are declared: its identifier was drawn from the
    sequence, its strings and its count fit, and it has a timestamp. -/
structure Declared (drawn : Nat) (row : PackageEvent) : Prop where
  id_pos : 1 ≤ row.id
  id_le : row.id ≤ drawn
  package : row.package.length ≤ 255
  eventType : row.eventType.length ≤ 50
  count_pos : 1 ≤ row.count
  count_le : row.count ≤ maxInteger
  last : row.lastTimestamp ≠ none

/-- The constraints hold: every row is as declared, and two rows have one
    identifier just when they have one pair. -/
structure Upheld (db : Database) : Prop where
  drawn : db.drawn ≤ maxInteger
  rows : ∀ row ∈ db.rows, Declared db.drawn row
  ids : ∀ row ∈ db.rows, ∀ row' ∈ db.rows, row.id = row'.id ↔ row.key = row'.key

variable (dep : Deployment)

theorem Declared.mono (row : PackageEvent) (n m : Nat) (hnm : n ≤ m) (h : Declared n row) :
    Declared m row :=
  { h with id_le := Nat.le_trans h.id_le hnm }

/-- Fewer rows, and more identifiers drawn. -/
theorem Upheld.mono (db db' : Database) (hdrawn : db.drawn ≤ db'.drawn)
    (hmax : db'.drawn ≤ maxInteger) (hrows : ∀ row ∈ db'.rows, row ∈ db.rows) (h : Upheld db) :
    Upheld db' where
  drawn := hmax
  rows row hrow := (h.rows row (hrows row hrow)).mono _ _ _ hdrawn
  ids row hrow row' hrow' := h.ids row (hrows row hrow) row' (hrows row' hrow')

/-- One more row. -/
theorem Upheld.insert (db db' : Database) (new : PackageEvent) (hdrawn : db.drawn ≤ db'.drawn)
    (hmax : db'.drawn ≤ maxInteger) (hrows : ∀ row ∈ db'.rows, row = new ∨ row ∈ db.rows)
    (hnew : Declared db'.drawn new)
    (hids : ∀ row ∈ db.rows, row.id = new.id ↔ row.key = new.key) (h : Upheld db) :
    Upheld db' where
  drawn := hmax
  rows row hrow := by
    rcases hrows row hrow with rfl | hrow
    · exact hnew
    · exact (h.rows row hrow).mono _ _ _ hdrawn
  ids row hrow row' hrow' := by
    rcases hrows row hrow with rfl | hrow
    · rcases hrows row' hrow' with rfl | hrow'
      · exact ⟨fun _ => rfl, fun _ => rfl⟩
      · rw [eq_comm, hids row' hrow', eq_comm]
    · rcases hrows row' hrow' with rfl | hrow'
      · exact hids row hrow
      · exact h.ids row hrow row' hrow'

/-- The row of an upsert is new, or it is an old one counted on. -/
theorem upsert_cases (db db' : Database) (stmt : Upsert) (row : PackageEvent)
    (h : db.upsert dep stmt = (.ok row, db')) :
    db.drawn ≠ maxInteger ∧ db' = { db with drawn := db.drawn + 1 } ∧
      row.key = (stmt.package, stmt.eventType) ∧ row.count ≤ maxInteger ∧
      ((row.id = db.drawn + 1 ∧ ∀ old ∈ db.table, old.key ≠ row.key) ∨
        ∃ old ∈ db.table, old.id = row.id ∧ old.key = row.key) := by
  unfold Database.upsert at h
  split at h
  · cases h
  · rename_i hmax
    refine ⟨hmax, ?_⟩
    cases hf : Database.find db.table stmt.package stmt.eventType with
    | none =>
        rw [hf] at h
        cases h
        exact ⟨rfl, rfl, (by decide : 1 ≤ maxInteger), Or.inl ⟨rfl, find_none _ _ _ hf⟩⟩
    | some old =>
        rw [hf] at h
        rcases find_some _ _ _ old hf with ⟨hold, hkey⟩
        simp only at h
        split at h
        · rename_i hcount
          cases h
          exact ⟨rfl, hkey, hcount, Or.inr ⟨old, hold, rfl, rfl⟩⟩
        · cases h

/-- What a step can do to the database. -/
inductive DbMove (db : Database) : Database → Prop where
  | same : DbMove db db
  | drawn : DbMove db { db with drawn := db.draw.drawn }
  | opened (i : Nat) (stmt : Upsert) (row : PackageEvent) (db' : Database) :
      Database.fits stmt = true → db.upsert dep stmt = (.ok row, db') →
      DbMove db { db' with pending := ⟨i, stmt, row⟩ :: db'.pending }
  | committed (i : Nat) (x : Pending) : x ∈ db.pending →
      DbMove db { db.rollback i with table := Database.put db.table x.row }
  | rolledBack (i : Nat) : DbMove db (db.rollback i)

variable {dep}

theorem dbMove_commit (w : World) (i : Nat) : DbMove dep w.db (w.commit i).db := by
  rcases commit_eq w i with ⟨_, heq⟩ | ⟨x, l, hopen, heq⟩
  · rw [heq]
    exact .same
  · have hx : x ∈ w.openBy i := by
      rw [hopen]
      exact List.mem_cons_self
    rw [heq]
    exact .committed i x ((mem_openBy w i x).mp hx).1

/-- A statement is only served if its strings fit the columns. -/
theorem serve_fits (i : Nat) (stmt : Upsert) (o : Fate) (w w' : World)
    (h : World.serve dep i (.execute stmt) o w = some (.ok (), w')) :
    Database.fits stmt = true := by
  cases o with
  | ok =>
      rw [World.serve] at h
      split at h
      · rename_i hopen
        exact (Bool.and_eq_true_iff.mp hopen).1
      · cases h
  | http response => cases h
  | fail exc effect => cases (of_ite_some h).2

theorem dbMove_serve (i : Nat) (e : Eff) (o : Fate) (w w' : World) (r : Except Exc e.Reply)
    (h : World.serve dep i e o w = some (r, w')) : DbMove dep w.db w'.db := by
  cases e with
  | redisGet key =>
      rcases serve_redisGet dep i key o w w' r h with ⟨_, rfl⟩ | ⟨_, rfl⟩
      · exact .same
      · exact .same
  | redisSet key value ex =>
      rcases serve_redisSet dep i key value ex o w w' r h with ⟨_, rfl | ⟨_, rfl⟩⟩
      · exact .same
      · exact .same
  | httpGet url =>
      rw [(serve_httpGet dep i url o w w' r h).1]
      exact .same
  | execute stmt =>
      rcases serve_execute dep i stmt o w w' r h with
        ⟨rfl, _, row, db, hupsert, rfl⟩ | ⟨_, rfl | rfl⟩
      · exact .opened i stmt row db (serve_fits i stmt o w _ h) hupsert
      · exact .same
      · exact .drawn
  | commit =>
      rcases serve_commit dep i o w w' r h with ⟨_, rfl⟩ | ⟨_, rfl | rfl⟩
      · exact dbMove_commit w i
      · exact dbMove_commit w i
      · exact .rolledBack i
  | select query =>
      rcases serve_select dep i query o w w' r h with ⟨_, rfl⟩ | ⟨_, rfl⟩
      · exact .same
      · exact .same

theorem moves_dbMove : Moves (server dep) (fun w w' => DbMove dep w.db w'.db) where
  start _ _ _ := .same
  serve i e o w r w' h := dbMove_serve i e o w w' r h
  answer _ _ _ _ := .same
  abort i w := .rolledBack i
  env a w w' h := by
    cases a with
    | tick ms =>
        cases h
        exact .same
    | evict key =>
        cases h
        exact .same

theorem mem_rows (db : Database) (row : PackageEvent) :
    row ∈ db.rows ↔ row ∈ db.table ∨ ∃ x ∈ db.pending, x.row = row := by
  rw [Database.rows, List.mem_append, List.mem_map]

/-- A new row is one that nobody has, under an identifier that nobody has. The
    pair is free among the open transactions because they lock theirs. -/
theorem upheld_opened (db db' : Database) (i : Nat) (stmt : Upsert) (row : PackageEvent)
    (hfits : Database.fits stmt = true) (hupsert : db.upsert dep stmt = (.ok row, db'))
    (hlocks : row.key ∉ db.pending.map (fun x => x.row.key)) (h : Upheld db) :
    Upheld { db' with pending := ⟨i, stmt, row⟩ :: db'.pending } := by
  rcases upsert_cases dep db db' stmt row hupsert with ⟨hmax, rfl, hkey, hcount, hid⟩
  have hdrawn : db.drawn + 1 ≤ maxInteger := Nat.lt_of_le_of_ne h.drawn hmax
  rcases upsert_recorded dep db _ stmt row hupsert with ⟨hpos, hlast⟩
  have hlengths := Bool.and_eq_true_iff.mp hfits
  rw [decide_eq_true_eq, decide_eq_true_eq, ← (Prod.mk.inj hkey).1, ← (Prod.mk.inj hkey).2]
    at hlengths
  have hids : 1 ≤ row.id ∧ row.id ≤ db.drawn + 1 ∧
      ∀ old ∈ db.rows, old.id = row.id ↔ old.key = row.key := by
    -- A row that is new in the table, or one that has its identifier already.
    rcases hid with ⟨hid, hfree⟩ | ⟨old, hold, hid, holdkey⟩
    · refine ⟨by omega, by omega, fun old hold => ⟨fun heq => ?_, fun heq => ?_⟩⟩
      -- The identifier has just been drawn, so nobody has it.
      · have := (h.rows old hold).id_le
        omega
      · rcases (mem_rows db old).mp hold with hold | ⟨x, hx, rfl⟩
        · exact absurd heq (hfree old hold)
        · exact absurd (List.mem_map.mpr ⟨x, hx, heq⟩) hlocks
    · have hmem := (mem_rows db old).mpr (Or.inl hold)
      have hrow := h.rows old hmem
      rw [← hid, ← holdkey]
      exact ⟨hrow.id_pos, Nat.le_succ_of_le hrow.id_le, fun old' hold' => h.ids old' hold' old hmem⟩
  refine h.insert db _ row (Nat.le_succ _) hdrawn (fun r hr => ?_)
    ⟨hids.1, hids.2.1, hlengths.1, hlengths.2, hpos, hcount, hlast⟩ hids.2.2
  rcases (mem_rows _ r).mp hr with hr | ⟨x, hx, rfl⟩
  · exact Or.inr ((mem_rows db r).mpr (Or.inl hr))
  · rcases List.mem_cons.mp hx with rfl | hx
    · exact Or.inl rfl
    · exact Or.inr ((mem_rows db _).mpr (Or.inr ⟨x, hx, rfl⟩))

/-- Every step keeps the constraints. -/
theorem upheld_step (db db' : Database) (hmove : DbMove dep db db')
    (hlocks : (db'.pending.map (fun x => x.row.key)).Nodup) (h : Upheld db) : Upheld db' := by
  cases hmove with
  | same => exact h
  | drawn =>
      have hdraw : db.drawn ≤ db.draw.drawn ∧ db.draw.drawn ≤ maxInteger := by
        rw [Database.draw]
        split
        · exact ⟨Nat.le_refl _, h.drawn⟩
        · rename_i hmax
          exact ⟨Nat.le_succ _, Nat.lt_of_le_of_ne h.drawn hmax⟩
      exact h.mono db _ hdraw.1 hdraw.2 (fun row hrow => hrow)
  | opened i stmt row db' hfits hupsert =>
      refine upheld_opened db db' i stmt row hfits hupsert ?_ h
      rw [(upsert_cases dep db db' stmt row hupsert).2.1] at hlocks
      exact (List.nodup_cons.mp hlocks).1
  | committed i x hx =>
      refine h.mono db _ (Nat.le_refl _) h.drawn (fun row hrow => ?_)
      -- A commit moves a row from its transaction into the table.
      rcases (mem_rows _ row).mp hrow with hrow | ⟨y, hy, rfl⟩
      · rcases mem_put _ _ row hrow with rfl | ⟨hrow, _⟩
        · exact (mem_rows db _).mpr (Or.inr ⟨x, hx, rfl⟩)
        · exact (mem_rows db row).mpr (Or.inl hrow)
      · exact (mem_rows db _).mpr (Or.inr ⟨y, (List.mem_filter.mp hy).1, rfl⟩)
  | rolledBack i =>
      refine h.mono db _ (Nat.le_refl _) h.drawn (fun row hrow => ?_)
      rcases (mem_rows _ row).mp hrow with hrow | ⟨y, hy, rfl⟩
      · exact (mem_rows db row).mpr (Or.inl hrow)
      · exact (mem_rows db _).mpr (Or.inr ⟨y, (List.mem_filter.mp hy).1, rfl⟩)

/-- A committed row keeps its identifier. -/
theorem row_step (db db' : Database) (hmove : DbMove dep db db') (h : Upheld db)
    (row : PackageEvent) (hrow : row ∈ db.table) :
    ∃ row' ∈ db'.table, row'.id = row.id ∧ row'.key = row.key := by
  cases hmove with
  | same => exact ⟨row, hrow, rfl, rfl⟩
  | drawn => exact ⟨row, hrow, rfl, rfl⟩
  | opened i stmt new db' _ hupsert =>
      rw [(upsert_cases dep db db' stmt new hupsert).2.1]
      exact ⟨row, hrow, rfl, rfl⟩
  | committed i x hx =>
      -- The row that replaces it was opened on it, so it has its identifier.
      by_cases hkey : row.key = x.row.key
      · have hid := (h.ids row ((mem_rows db row).mpr (Or.inl hrow)) x.row
          ((mem_rows db _).mpr (Or.inr ⟨x, hx, rfl⟩))).mpr hkey
        exact ⟨x.row, put_mem_self _ _, hid.symm, hkey.symm⟩
      · exact ⟨row, put_mem_other _ _ row hrow hkey, rfl, rfl⟩
  | rolledBack i => exact ⟨row, hrow, rfl, rfl⟩

variable (dep)

theorem upheld_of (c : ServerState) (hc : Reachable dep c) : Upheld c.shared.db := by
  induction hc with
  | refl =>
      exact ⟨Nat.zero_le _, fun row hrow => absurd hrow List.not_mem_nil,
        fun row hrow => absurd hrow List.not_mem_nil⟩
  | step c d l hc hl ih =>
      have hinv := reachable_inv dep d (Reaches.step c d l hc hl)
      exact upheld_step _ _ (moves_dbMove.step c d l hl) hinv.store.locks ih

theorem row_stays (c d : ServerState) (hc : Reachable dep c) (hd : Reaches (server dep) c d)
    (row : PackageEvent) (hrow : row ∈ c.shared.db.table) :
    ∃ row' ∈ d.shared.db.table, row'.id = row.id ∧ row'.key = row.key := by
  induction hd with
  | refl => exact ⟨row, hrow, rfl, rfl⟩
  | step d e l hd hl ih =>
      rcases ih with ⟨row', hrow', hid, hkey⟩
      rcases row_step _ _ (moves_dbMove.step d e l hl) (upheld_of dep d (reaches_trans hc hd)) row'
        hrow' with ⟨row'', hrow'', hid', hkey'⟩
      exact ⟨row'', hrow'', hid'.trans hid, hkey'.trans hkey⟩

/-- The table is as it was declared, in every reachable state: every row fits its
    columns, the identifiers are distinct, and so are the pairs. From there on
    each row stays, under its identifier and its pair, and its count and its
    timestamp only grow. -/
theorem constraints_upheld (c : ServerState) (hc : Reachable dep c) :
    (∀ row ∈ c.shared.db.table, Declared c.shared.db.drawn row) ∧
      c.shared.db.drawn ≤ maxInteger ∧
      (c.shared.db.table.map PackageEvent.id).Nodup ∧
      (c.shared.db.table.map PackageEvent.key).Nodup ∧
      ∀ d, Reaches (server dep) c d → ∀ row ∈ c.shared.db.table, ∃ row' ∈ d.shared.db.table,
        row'.id = row.id ∧ row'.key = row.key ∧ row.count ≤ row'.count ∧
        NoLater row.lastTimestamp row'.lastTimestamp := by
  have hupheld := upheld_of dep c hc
  have hinv := reachable_inv dep c hc
  have htable : ∀ row ∈ c.shared.db.table, row ∈ c.shared.db.rows :=
    fun row hrow => (mem_rows _ row).mpr (Or.inl hrow)
  refine ⟨fun row hrow => hupheld.rows row (htable row hrow), hupheld.drawn, ?_, hinv.store.keys,
    fun d hd row hrow => ?_⟩
  -- Rows of one identifier are rows of one pair, and a pair has one row.
  · refine (List.nodup_map_iff_inj_on hinv.store.keys.of_map).mpr
      (fun row hrow row' hrow' hid => ?_)
    exact List.inj_on_of_nodup_map hinv.store.keys hrow hrow'
      ((hupheld.ids row (htable row hrow) row' (htable row' hrow')).mp hid)
  · rcases row_stays dep c d hc hd row hrow with ⟨row', hrow', hid, hkey⟩
    have hstats := row_stats dep _ hinv row hrow
    have hstats' := row_stats dep _ (reachable_inv dep d (reaches_trans hc hd)) row' hrow'
    rcases Prod.mk.inj hkey with ⟨hpackage, htype⟩
    rw [hpackage, htype] at hstats'
    -- Both rows tell the events of their pair, of which there are only ever more.
    have hmono := statsOf_mono dep _ _
      (eventsFor_grow row.package row.eventType _ _ (trace_grows dep c d hd))
    rw [← hstats, ← hstats'] at hmono
    exact ⟨row', hrow', hid, hkey, hmono.1, hmono.2⟩

/-- Two installs of numpy, the second from the cache, and one of scipy. -/
def numpyThenScipy : List (Label Request Fate Env) :=
  [.start 0 (.postEvent (numpyInstall 3)), .act 0 .ok,
    .act 0 (.http { statusCode := 200, body := some (.object []) }), .act 0 .ok, .act 0 .ok,
    .act 0 .ok, .start 1 (.postEvent (numpyInstall 5)), .act 1 .ok, .act 1 .ok, .act 1 .ok,
    .start 2 (.postEvent (installOf "scipy".toList (by decide) (by decide))), .act 2 .ok,
    .act 2 (.http { statusCode := 200, body := some (.object []) }), .act 2 .ok, .act 2 .ok,
    .act 2 .ok]

/-- The second install has drawn an identifier for nothing. -/
theorem constraints_upheld_scipy : ∃ c, Reachable utcDeployment c ∧
    c.shared.db.table.map PackageEvent.id = [1, 3] ∧
    (c.shared.db.table.map PackageEvent.key).Nodup := by
  rcases reaches_of_run_map numpyThenScipy (Config.init boot)
    (fun c : ServerState => c.shared.db.table.map PackageEvent.id) [1, 3]
    (show (run (server utcDeployment) _ _).map _ = _ from rfl) with ⟨c, hc, hids⟩
  exact ⟨c, hc, hids, (constraints_upheld utcDeployment c hc).2.2.2.1⟩

end KingPi
