import KingPi.Core.Application
import KingPi.Theory.Runs
import KingPi.Async.Progress

/-!
# What a Lifespan Leaves Behind

A worker that starts opens an engine, an HTTP client and a Redis client, and
hands the objects it builds on them to the getters through four globals. When
it stops it clears the globals and closes what it has opened. It can fail or be
cancelled at any of its calls, those of its `finally` blocks included, while
requests are served and while other lifespans come and go.

What a task has done is in its records, and `Holding` is a monitor that reads
them. `Holding.Move` says what it lets pass: nothing is opened once something
was closed, what was opened last is closed first, what is put into a global is
open, and nothing is closed that a global works on. A lifespan passes wherever
it fails, which is `monitored_lifespan`; the other requests open, close and set
nothing at all, which is `Inert`.

What the worker shares is then the sum of the records. Whatever a global holds
was put there by the task that set it last. That task has not cleared it, and so
it has not closed what it works on. Nobody else closes that either.

A close that raises is a close: it was called, and it is not called again.

## Main definitions

* `Mark.opens`, `Mark.closes`, `Mark.assigns`, `Mark.raises`: What a record says.
* `globalsOf`: The globals after a list of records.
* `Holding`, `Holding.Move`: The monitor, and what it lets pass.
* `Stands`, `Down`: Where a lifespan stands, and where it ends.
* `Inert`: A coroutine that opens, closes and sets nothing.

## Theorems

* `perform_effect`: What a call does can be read off its record.
* `read_move`: What the monitor knows of the records it has read.
* `monitored_lifespan`: A lifespan passes the monitor, however it ends.
* `monitored_body`: So does every request.
* `dependencies_open`: Whatever is in a global works on open resources.
* `lifespan_releases`: A lifespan that is over has left nothing behind.
* `serving_dependencies`: What the getters return while a lifespan serves.
-/

namespace KingPi

open Async Prog

/-- The request a mark is about. -/
def Mark.owner : Mark → Nat
  | .started i _ => i
  | .called i _ _ => i
  | .answered i _ _ => i

/-- The resource a mark says was opened. -/
def Mark.opens : Mark → Option Handle
  | .called _ (.acquire _) (.ok h) => some h
  | _ => none

/-- The resource a mark says was closed. -/
def Mark.closes : Mark → Option Handle
  | .called _ (.release h) _ => some h
  | _ => none

/-- The exception a mark says was raised. -/
def Mark.raises : Mark → Option AppExc
  | .called _ _ (.error exc) => some exc
  | _ => none

/-- The global a mark says was set, and what to. -/
def Mark.assigns : Mark → Option (Nat × (s : Slot) × Option s.Object)
  | .called _ (.assign worker s value) _ => some ⟨worker, s, value⟩
  | _ => none

/-- What is certain about the result of a call. -/
def Call.Allowed (i : Nat) : (c : Call) → Except AppExc c.Reply → Prop
  | .acquire kind, r => ∀ h, r = .ok h → h = ⟨kind, i⟩
  | .assign _ _ _, r => r = .ok ()
  | .load _ _, r => ∃ value, r = .ok value
  | _, _ => True

/-- A call records itself and its result. -/
def Call.Notes (i : Nat) (c : Call) (r : Except AppExc c.Reply) (l : List Mark) : Prop :=
  l = [.called i c r] ∧ c.Allowed i r

/-- The marks about a request. -/
def marksOf (i : Nat) (log : List Mark) : List Mark := log.filter (fun x => x.owner == i)

section Log

variable (dep : Deployment)

/-- The globals after a mark. -/
def Mark.globals (x : Mark) (globals : Nat → (s : Slot) → Option s.Object) :
    Nat → (s : Slot) → Option s.Object :=
  match x.assigns with
  | some ⟨worker, s, value⟩ =>
    Function.update globals worker (Function.update (globals worker) s value)
  | none => globals

/-- The globals after a log. -/
def globalsOf (l : List Mark) : Nat → (s : Slot) → Option s.Object :=
  l.foldl (fun g x => x.globals g) (fun _ _ => none)

theorem globalsOf_concat (l : List Mark) (x : Mark) :
    globalsOf (l ++ [x]) = x.globals (globalsOf l) := by
  rw [globalsOf, List.foldl_append]
  rfl

theorem globals_none (x : Mark) (g : Nat → (s : Slot) → Option s.Object)
    (h : x.assigns = none) : x.globals g = g := by
  rw [Mark.globals, h]

theorem globals_self (x : Mark) (g : Nat → (s : Slot) → Option s.Object) (worker : Nat)
    (s : Slot) (value : Option s.Object) (h : x.assigns = some ⟨worker, s, value⟩) :
    x.globals g worker s = value := by
  rw [Mark.globals, h]
  simp only [Function.update_self]

theorem globals_other (x : Mark) (g : Nat → (s : Slot) → Option s.Object) (worker : Nat)
    (s : Slot) (h : ∀ value, x.assigns ≠ some ⟨worker, s, value⟩) :
    x.globals g worker s = g worker s := by
  cases hx : x.assigns with
  | none => rw [globals_none x g hx]
  | some a =>
      rcases a with ⟨worker', s', value⟩
      simp only [Mark.globals, hx]
      -- Another global was set, of another worker or in another slot.
      by_cases hw : worker = worker'
      · subst hw
        rw [Function.update_self]
        by_cases hs : s = s'
        · subst hs
          exact absurd hx (h value)
        · rw [Function.update_of_ne hs]
      · rw [Function.update_of_ne hw]

/-- What a call does to what the application shares can be read off its mark. -/
structure Effect (i : Nat) (c : Call) (r : Except AppExc c.Reply) (w w' : AppWorld) : Prop where
  allowed : c.Allowed i r
  log : w'.log = w.log
  opened : w'.opened = w.opened ++ (Mark.called i c r).opens.toList
  closed : w'.closed = w.closed ++ (Mark.called i c r).closes.toList
  globals : w'.globals = (Mark.called i c r).globals w.globals

/-- A call that changes nothing but the world of the services. -/
theorem effect_none (i : Nat) (c : Call) (r : Except AppExc c.Reply) (w : AppWorld)
    (world : World) (hallowed : c.Allowed i r) (hopens : (Mark.called i c r).opens = none)
    (hcloses : (Mark.called i c r).closes = none) (hassigns : (Mark.called i c r).assigns = none) :
    Effect i c r w { w with world := world } where
  allowed := hallowed
  log := rfl
  opened := by rw [hopens, Option.toList_none, List.append_nil]
  closed := by rw [hcloses, Option.toList_none, List.append_nil]
  globals := by rw [Mark.globals, hassigns]

theorem effect_acquire (i : Nat) (c : Call) (r : Except AppExc c.Reply) (w : AppWorld)
    (h : Handle) (hallowed : c.Allowed i r) (hopens : (Mark.called i c r).opens = some h)
    (hcloses : (Mark.called i c r).closes = none) (hassigns : (Mark.called i c r).assigns = none) :
    Effect i c r w (w.acquire h) where
  allowed := hallowed
  log := rfl
  opened := by rw [hopens]; rfl
  closed := by rw [hcloses, Option.toList_none, List.append_nil]; rfl
  globals := by rw [Mark.globals, hassigns]; rfl

theorem effect_release (i : Nat) (c : Call) (r : Except AppExc c.Reply) (w : AppWorld)
    (h : Handle) (hallowed : c.Allowed i r) (hopens : (Mark.called i c r).opens = none)
    (hcloses : (Mark.called i c r).closes = some h)
    (hassigns : (Mark.called i c r).assigns = none) : Effect i c r w (w.release h) where
  allowed := hallowed
  log := rfl
  opened := by rw [hopens, Option.toList_none, List.append_nil]; rfl
  closed := by rw [hcloses]; rfl
  globals := by rw [Mark.globals, hassigns]; rfl

theorem perform_service (i : Nat) (store : Option PostgresEventStore)
    (pypi : Option PyPICacheClient) (e : Eff) (fate : Fate) (w w' : AppWorld)
    (r : Except AppExc (Except Exc e.Reply))
    (h : w.perform dep i (.service store pypi e) (.service fate) = some (r, w')) :
    (∃ exc, w.refusal store pypi e = some exc ∧ r = .error exc ∧ w' = w.leave i) ∨
      ∃ reply world, w.refusal store pypi e = none ∧ r = .ok reply ∧
        w.world.serve dep i e fate = some (reply, world) ∧ w' = { w with world := world } := by
  simp only [AppWorld.perform] at h
  split at h
  · rename_i exc hrefusal
    cases h
    exact Or.inl ⟨exc, hrefusal, rfl, rfl⟩
  · rename_i hrefusal
    split at h
    · rename_i reply world hserve
      cases h
      exact Or.inr ⟨reply, world, hrefusal, rfl, hserve, rfl⟩
    · cases h

theorem perform_effect (i : Nat) (c : Call) (o : AppFate) (w w' : AppWorld)
    (r : Except AppExc c.Reply) (h : w.perform dep i c o = some (r, w')) :
    Effect i c r w w' := by
  cases o with
  | service fate =>
      cases c with
      | service store pypi e =>
          -- Refused or not, the services leave the resources and the globals alone.
          rcases perform_service dep i store pypi e fate w w' r h with
            ⟨exc, _, rfl, rfl⟩ | ⟨reply, world, _, rfl, _, rfl⟩
          · exact effect_none i _ _ w _ trivial rfl rfl rfl
          · exact effect_none i _ _ w _ trivial rfl rfl rfl
      | _ => cases h
  | ok =>
      cases c with
      | acquire kind =>
          cases h
          exact effect_acquire i _ _ w _ (fun h hr => (Except.ok.inj hr).symm) rfl rfl rfl
      | release hd =>
          cases h
          exact effect_release i _ _ w _ trivial rfl rfl rfl
      | assign worker s value =>
          cases h
          exact ⟨rfl, rfl, (List.append_nil _).symm, (List.append_nil _).symm, rfl⟩
      | load worker s =>
          cases h
          exact effect_none i _ _ w _ ⟨_, rfl⟩ rfl rfl rfl
      | service store pypi e => cases h
      | _ =>
          cases h
          exact effect_none i _ _ w _ trivial rfl rfl rfl
  | fail exc =>
      -- A failed call has opened nothing, and closes what it was asked to close.
      cases c with
      | assign worker s value => cases h
      | load worker s => cases h
      | service store pypi e => cases h
      | release hd =>
          cases (Option.ite_none_right_eq_some.mp h).2
          exact effect_release i _ _ w _ trivial rfl rfl rfl
      | acquire kind =>
          cases (Option.ite_none_right_eq_some.mp h).2
          exact effect_none i _ _ w _ (fun _ hr => nomatch hr) rfl rfl rfl
      | _ =>
          cases (Option.ite_none_right_eq_some.mp h).2
          exact effect_none i _ _ w _ trivial rfl rfl rfl

theorem serve_effect (i : Nat) (c : Call) (o : AppFate) (w w' : AppWorld)
    (r : Except AppExc c.Reply) (h : w.serve dep i c o = some (r, w')) :
    ∃ w₁, w.perform dep i c o = some (r, w₁) ∧
      w' = { w₁ with log := w₁.log ++ [.called i c r] } := by
  rw [AppWorld.serve] at h
  split at h
  · rename_i r₁ w₁ hperform
    cases h
    exact ⟨w₁, hperform, rfl⟩
  · cases h

/-- The log of the application, as the log of its tasks. -/
def appLog : Logged (application dep) Mark where
  log := AppWorld.log
  owner := Mark.owner
  started := .started
  answered := .answered
  notes i c := c.Notes i
  owner_started _ _ := rfl
  owner_answered _ _ _ := rfl
  owner_notes i c r l h x hx := by
    rw [h.1, List.mem_singleton] at hx
    rw [hx]
    rfl
  start_log _ _ _ := rfl
  serve_log i c o w r w' h := by
    rcases serve_effect dep i c o w w' r h with ⟨w₁, hperform, rfl⟩
    have heffect := perform_effect dep i c o w w₁ r hperform
    exact ⟨_, ⟨rfl, heffect.allowed⟩, by rw [heffect.log]⟩
  answer_log _ _ _ _ := rfl
  abort_log _ _ := rfl
  env_log a w w' h := by
    rcases Option.map_eq_some_iff.mp h with ⟨world, _, rfl⟩
    rfl

end Log

/-- The objects a lifespan builds. -/
def ownObject (dep : Deployment) (i : Nat) : (s : Slot) → s.Object
  | .eventStore => { sessionFactory := { engine := ⟨.engine, i⟩ } }
  | .pypiCacheClient =>
    { client := { client := ⟨.httpClient, i⟩ }, cache := { redis := ⟨.redisClient, i⟩ },
      ttlSeconds := dep.ttlSeconds }
  | .sessionFactory => { engine := ⟨.engine, i⟩ }
  | .redisClient => ⟨.redisClient, i⟩

/-- The resources the objects of a global need. -/
def Slot.kinds : Slot → List Resource
  | .eventStore => [.engine]
  | .pypiCacheClient => [.httpClient, .redisClient]
  | .sessionFactory => [.engine]
  | .redisClient => [.redisClient]

theorem uses_own (dep : Deployment) (i : Nat) (s : Slot) :
    s.uses (ownObject dep i s) = s.kinds.map (fun kind => ⟨kind, i⟩) := by
  cases s with
  | _ => rfl

/-- What a lifespan has opened and closed so far, in this order, what it has put
    into the globals of its worker, and the exception raised last. -/
structure Holding where
  task : Nat
  request : AppRequest
  opened : List Handle := []
  closed : List Handle := []
  slots : (s : Slot) → Option s.Object := fun _ => none
  fault : Option AppExc := none

namespace Holding

/-- What a lifespan may do next. It opens only before it closes anything, it
    closes what it opened last, what it puts into a global is open, and nothing
    it has put there works on what it closes. -/
inductive Move (dep : Deployment) (m : Holding) (x : Mark) : Holding → Prop where
  | opens (h : Handle) : x.opens = some h → h.lifespan = m.task → m.closed = [] →
      h ∉ m.opened →
      Move dep m x { m with opened := m.opened ++ [h], fault := x.raises.or m.fault }
  | closes (h : Handle) : x.closes = some h → m.closed ++ [h] <+: m.opened.reverse →
      (∀ s v, m.slots s = some v → h ∉ s.uses v) →
      Move dep m x { m with closed := m.closed ++ [h], fault := x.raises.or m.fault }
  | assigns (worker : Nat) (s : Slot) (value : Option s.Object) :
      m.request = .lifespan worker → x.assigns = some ⟨worker, s, value⟩ →
      (∀ v, value = some v → v = ownObject dep m.task s ∧ m.closed = [] ∧
        ∀ h ∈ s.uses v, h ∈ m.opened) →
      Move dep m x { m with
        slots := Function.update m.slots s value, fault := x.raises.or m.fault }
  | other : x.opens = none → x.closes = none → x.assigns = none →
      Move dep m x { m with fault := x.raises.or m.fault }

/-- What the monitor knows of the records it has read. -/
structure Read (dep : Deployment) (i : Nat) (q : AppRequest) (l : List Mark) (m : Holding) :
    Prop where
  task_eq : m.task = i
  request_eq : m.request = q
  opened_eq : l.filterMap Mark.opens = m.opened
  closed_eq : l.filterMap Mark.closes = m.closed
  fault_eq : (l.filterMap Mark.raises).getLast? = m.fault
  own : ∀ h ∈ m.opened, h.lifespan = i
  nodup : m.opened.Nodup
  last : m.closed <+: m.opened.reverse
  good : ∀ s v, m.slots s = some v → ∀ h ∈ s.uses v, h ∈ m.opened ∧ h ∉ m.closed
  built : ∀ s v, m.slots s = some v → v = ownObject dep i s
  slots_eq : ∀ worker, q = .lifespan worker → ∀ s, globalsOf l worker s = m.slots s
  foreign : ∀ worker, q ≠ .lifespan worker → ∀ s, globalsOf l worker s = none

variable (dep : Deployment) (i : Nat) (q : AppRequest)

theorem read_start : Read dep i q [] { task := i, request := q } where
  task_eq := rfl
  request_eq := rfl
  opened_eq := rfl
  closed_eq := rfl
  fault_eq := rfl
  own _ hh := absurd hh List.not_mem_nil
  nodup := List.nodup_nil
  last := List.nil_prefix
  good _ _ hv := nomatch hv
  built _ _ hv := nomatch hv
  slots_eq _ _ _ := rfl
  foreign _ _ _ := rfl

theorem filterMap_concat {β : Type} (f : Mark → Option β) (l : List Mark) (x : Mark) :
    (l ++ [x]).filterMap f = l.filterMap f ++ (f x).toList := by
  rw [List.filterMap_append, List.filterMap_cons]
  cases f x with
  | none => rfl
  | some b => rfl

theorem getLast?_concat (l : List Mark) (x : Mark) :
    ((l ++ [x]).filterMap Mark.raises).getLast?
      = x.raises.or (l.filterMap Mark.raises).getLast? := by
  rw [filterMap_concat, List.getLast?_append]
  cases x.raises with
  | none => rfl
  | some exc => rfl

theorem opens_inv (x : Mark) (h : Handle) (hx : x.opens = some h) :
    x.closes = none ∧ x.assigns = none := by
  cases x with
  | called i c r =>
      cases c with
      | _ => first | exact ⟨rfl, rfl⟩ | cases hx
  | _ => cases hx

theorem closes_inv (x : Mark) (h : Handle) (hx : x.closes = some h) :
    x.opens = none ∧ x.assigns = none := by
  cases x with
  | called i c r =>
      cases c with
      | _ => first | exact ⟨rfl, rfl⟩ | cases hx
  | _ => cases hx

theorem assigns_inv (x : Mark) (a : Nat × (s : Slot) × Option s.Object)
    (hx : x.assigns = some a) : x.opens = none ∧ x.closes = none := by
  cases x with
  | called i c r =>
      cases c with
      | _ => first | exact ⟨rfl, rfl⟩ | cases hx
  | _ => cases hx

theorem filterMap_keep {β : Type} (f : Mark → Option β) (l : List Mark) (x : Mark) (l' : List β)
    (hl : l.filterMap f = l') (hx : f x = none) : (l ++ [x]).filterMap f = l' := by
  rw [filterMap_concat, hl, hx, Option.toList_none, List.append_nil]

theorem filterMap_add {β : Type} (f : Mark → Option β) (l : List Mark) (x : Mark) (l' : List β)
    (b : β) (hl : l.filterMap f = l') (hx : f x = some b) : (l ++ [x]).filterMap f = l' ++ [b] := by
  rw [filterMap_concat, hl, hx, Option.toList_some]

theorem globalsOf_keep (l : List Mark) (x : Mark) (hx : x.assigns = none) :
    globalsOf (l ++ [x]) = globalsOf l := by
  rw [globalsOf_concat, globals_none x _ hx]

section Moves

variable (l : List Mark) (m : Holding) (x : Mark) (hread : Read dep i q l m)

include hread

theorem read_fault : ((l ++ [x]).filterMap Mark.raises).getLast? = x.raises.or m.fault := by
  rw [getLast?_concat, hread.fault_eq]

/-- What is opened is new. -/
theorem read_opens (h : Handle) (hx : x.opens = some h) (htask : h.lifespan = m.task)
    (hclosed : m.closed = []) (hnew : h ∉ m.opened) :
    Read dep i q (l ++ [x]) { m with opened := m.opened ++ [h], fault := x.raises.or m.fault } := by
  rcases opens_inv x h hx with ⟨hcloses, hassigns⟩
  refine ⟨hread.task_eq, hread.request_eq, filterMap_add _ l x _ h hread.opened_eq hx,
    filterMap_keep _ l x _ hread.closed_eq hcloses, read_fault dep i q l m x hread,
    fun h' hh' => ?_, ?_, ?_, fun s v hv h' hh' => ?_, hread.built, ?_, ?_⟩
  · rcases List.mem_append.mp hh' with hold | hlast
    · exact hread.own h' hold
    · rw [List.mem_singleton.mp hlast, htask, hread.task_eq]
  · exact List.nodup_append.mpr ⟨hread.nodup, List.nodup_cons.mpr ⟨List.not_mem_nil,
      List.nodup_nil⟩, fun a ha b hb hab => hnew (List.mem_singleton.mp hb ▸ hab ▸ ha)⟩
  · -- Nothing is closed yet, so that the order of closing is still open.
    rw [hclosed]
    exact List.nil_prefix
  · exact ⟨List.mem_append_left _ (hread.good s v hv h' hh').1, (hread.good s v hv h' hh').2⟩
  · rw [globalsOf_keep l x hassigns]
    exact hread.slots_eq
  · rw [globalsOf_keep l x hassigns]
    exact hread.foreign

/-- What is closed is spared by the globals. -/
theorem read_closes (h : Handle) (hx : x.closes = some h)
    (hclosing : m.closed ++ [h] <+: m.opened.reverse)
    (hspares : ∀ s v, m.slots s = some v → h ∉ s.uses v) :
    Read dep i q (l ++ [x]) { m with closed := m.closed ++ [h], fault := x.raises.or m.fault } := by
  rcases closes_inv x h hx with ⟨hopens, hassigns⟩
  refine ⟨hread.task_eq, hread.request_eq, filterMap_keep _ l x _ hread.opened_eq hopens,
    filterMap_add _ l x _ h hread.closed_eq hx, read_fault dep i q l m x hread, hread.own,
    hread.nodup, hclosing, fun s v hv h' hh' => ?_, hread.built, ?_, ?_⟩
  · -- What a global works on was not closed before, and is not what is closed now.
    rcases hread.good s v hv h' hh' with ⟨hin, hout⟩
    refine ⟨hin, fun hmem => ?_⟩
    rcases List.mem_append.mp hmem with hold | hlast
    · exact hout hold
    · rw [List.mem_singleton.mp hlast] at hh'
      exact hspares s v hv hh'
  · rw [globalsOf_keep l x hassigns]
    exact hread.slots_eq
  · rw [globalsOf_keep l x hassigns]
    exact hread.foreign

/-- What is put into a global is open, and built by the lifespan itself. -/
theorem read_assigns (worker : Nat) (s : Slot) (value : Option s.Object)
    (hrequest : m.request = .lifespan worker) (hx : x.assigns = some ⟨worker, s, value⟩)
    (hvalue : ∀ v, value = some v → v = ownObject dep m.task s ∧ m.closed = [] ∧
      ∀ h ∈ s.uses v, h ∈ m.opened) :
    Read dep i q (l ++ [x]) { m with
      slots := Function.update m.slots s value, fault := x.raises.or m.fault } := by
  rcases assigns_inv x _ hx with ⟨hopens, hcloses⟩
  rw [hread.request_eq] at hrequest
  -- A global is the one that was set, or it is as it was.
  have hslot : ∀ s' v, Function.update m.slots s value s' = some v →
      (∃ hs : s' = s, value = some (hs ▸ v)) ∨ s' ≠ s ∧ m.slots s' = some v := by
    intro s' v hv
    by_cases hs : s' = s
    · subst hs
      rw [Function.update_self] at hv
      exact Or.inl ⟨rfl, hv⟩
    · rw [Function.update_of_ne hs] at hv
      exact Or.inr ⟨hs, hv⟩
  refine ⟨hread.task_eq, hread.request_eq, filterMap_keep _ l x _ hread.opened_eq hopens,
    filterMap_keep _ l x _ hread.closed_eq hcloses, read_fault dep i q l m x hread, hread.own,
    hread.nodup, hread.last, fun s' v hv h' hh' => ?_, fun s' v hv => ?_, fun w hw s' => ?_,
    fun w hw s' => ?_⟩
  · rcases hslot s' v hv with ⟨rfl, hv⟩ | ⟨_, hv⟩
    · rcases hvalue v hv with ⟨_, hclosed, huses⟩
      refine ⟨huses h' hh', fun hmem => ?_⟩
      rw [hclosed] at hmem
      exact List.not_mem_nil hmem
    · exact hread.good s' v hv h' hh'
  · rcases hslot s' v hv with ⟨rfl, hv⟩ | ⟨_, hv⟩
    · rw [(hvalue v hv).1, hread.task_eq]
    · exact hread.built s' v hv
  -- The globals of its own worker follow the records, and no others are set.
  · rw [hrequest] at hw
    cases hw
    rw [globalsOf_concat]
    change _ = Function.update m.slots s value s'
    by_cases hs : s' = s
    · subst hs
      rw [globals_self x _ _ _ _ hx, Function.update_self]
    · rw [globals_other x _ _ _ (fun v' hv' => ?_), hread.slots_eq worker hrequest,
        Function.update_of_ne hs]
      rw [hx, Option.some.injEq, Prod.mk.injEq] at hv'
      exact hs (congrArg Sigma.fst hv'.2).symm
  · rw [globalsOf_concat, globals_other x _ _ _ (fun v' hv' => ?_), hread.foreign w hw s']
    rw [hx, Option.some.injEq, Prod.mk.injEq] at hv'
    rw [hv'.1] at hrequest
    exact hw hrequest

theorem read_other (hopens : x.opens = none) (hcloses : x.closes = none)
    (hassigns : x.assigns = none) :
    Read dep i q (l ++ [x]) { m with fault := x.raises.or m.fault } := by
  refine ⟨hread.task_eq, hread.request_eq, filterMap_keep _ l x _ hread.opened_eq hopens,
    filterMap_keep _ l x _ hread.closed_eq hcloses, read_fault dep i q l m x hread, hread.own,
    hread.nodup, hread.last, hread.good, hread.built, ?_, ?_⟩
  · rw [globalsOf_keep l x hassigns]
    exact hread.slots_eq
  · rw [globalsOf_keep l x hassigns]
    exact hread.foreign

end Moves

/-- Every move keeps what the monitor knows. -/
theorem read_move (l : List Mark) (m : Holding) (x : Mark) (m' : Holding)
    (h : Read dep i q l m) (hmove : Move dep m x m') : Read dep i q (l ++ [x]) m' := by
  cases hmove with
  | opens hd hx htask hclosed hnew => exact read_opens dep i q l m x h hd hx htask hclosed hnew
  | closes hd hx hclosing hspares => exact read_closes dep i q l m x h hd hx hclosing hspares
  | assigns worker s value hrequest hx hvalue =>
      exact read_assigns dep i q l m x h worker s value hrequest hx hvalue
  | other hopens hcloses hassigns => exact read_other dep i q l m x h hopens hcloses hassigns

theorem read_of_replays (l : List Mark) (m : Holding)
    (h : Replays (Move dep) { task := i, request := q } l m) : Read dep i q l m :=
  replays_inv (Read dep i q) (read_move dep i q) _ m [] l h (read_start dep i q)

end Holding

/-- Where a lifespan stands: what is open and closed, which of the globals it has
    set and which it has not set or cleared again, and what was raised last. -/
structure Stands (dep : Deployment) (i : Nat) (q : AppRequest) (opened closed : List Handle)
    (placed cleared : List Slot) (fault : Option AppExc) (m : Holding) : Prop where
  task_eq : m.task = i
  request_eq : m.request = q
  opened_eq : m.opened = opened
  closed_eq : m.closed = closed
  own : ∀ s v, m.slots s = some v → v = ownObject dep i s
  placed_eq : ∀ s ∈ placed, m.slots s = some (ownObject dep i s)
  cleared_eq : ∀ s ∈ cleared, m.slots s = none
  fault_eq : m.fault = fault

/-- What has to hold where a call is made: when a lifespan serves, all its objects
    are in the globals, and only a route calls the services. -/
def callPre (dep : Deployment) (i : Nat) : Call → Holding → Prop
  | .service _ _ _, m => ∃ worker r, m.request = .route worker r
  | .serving, m => Stands dep i m.request [⟨.engine, i⟩, ⟨.httpClient, i⟩, ⟨.redisClient, i⟩] []
      [.eventStore, .pypiCacheClient, .sessionFactory, .redisClient] [] none m
  | _, _ => True

section Specs

variable (dep : Deployment) (i worker : Nat) (q : AppRequest)

/-- A coroutine of request `i`, under the monitor. -/
abbrev Monitored {α : Type} (Post : Except AppExc α → Holding → Prop) (p : App α)
    (m : Holding) : Prop :=
  Watched (Holding.Move dep) (Call.Notes i) (callPre dep i) Post p m

/-- The exception of an outcome. -/
def faultOf {α : Type} : Except AppExc α → Option AppExc
  | .ok _ => none
  | .error exc => some exc

variable {dep i worker q}
variable {opened closed : List Handle} {placed cleared : List Slot} {fault : Option AppExc}
variable {m : Holding}

/-- Opening a resource. -/
theorem monitored_acquire (kind : Resource) (hnew : ⟨kind, i⟩ ∉ opened)
    (h : Stands dep i (.lifespan worker) opened [] placed cleared fault m) :
    Monitored dep i (fun r m' => match r with
      | .ok hd => hd = ⟨kind, i⟩ ∧
          Stands dep i (.lifespan worker) (opened ++ [⟨kind, i⟩]) [] placed cleared fault m'
      | .error exc => Stands dep i (.lifespan worker) opened [] placed cleared (some exc) m')
      (call (Call.acquire kind)) m := by
  refine watched_call _ m trivial ?_
  rintro r l ⟨rfl, hallowed⟩
  cases r with
  | ok hd =>
      have hhd : hd = ⟨kind, i⟩ := hallowed hd rfl
      subst hhd
      refine ⟨_, replays_singleton _ _ _ (.opens ⟨kind, i⟩ rfl h.task_eq.symm h.closed_eq ?_), rfl,
        h.task_eq, h.request_eq, ?_, h.closed_eq, h.own, h.placed_eq, h.cleared_eq, h.fault_eq⟩
      · rw [h.opened_eq]
        exact hnew
      · rw [← h.opened_eq]
  -- A call that fails has opened nothing.
  | error exc =>
      exact ⟨_, replays_singleton _ _ _ (.other rfl rfl rfl), h.task_eq, h.request_eq, h.opened_eq,
        h.closed_eq, h.own, h.placed_eq, h.cleared_eq, rfl⟩

/-- Closing what was opened last, once the globals that work on it are cleared.
    It may raise, and has closed it all the same. -/
theorem monitored_release (kind : Resource) (hlast : closed ++ [⟨kind, i⟩] <+: opened.reverse)
    (hcleared : ∀ s : Slot, kind ∈ s.kinds → s ∈ cleared)
    (h : Stands dep i (.lifespan worker) opened closed placed cleared fault m) :
    Monitored dep i (fun r m' => Stands dep i (.lifespan worker) opened (closed ++ [⟨kind, i⟩])
      placed cleared ((faultOf r).or fault) m') (call (Call.release ⟨kind, i⟩)) m := by
  refine watched_call _ m trivial ?_
  rintro r l ⟨rfl, _⟩
  -- What works on the resource is at home in globals that are cleared.
  have hspared : ∀ s v, m.slots s = some v → ⟨kind, i⟩ ∉ s.uses v := by
    intro s v hv huses
    rw [h.own s v hv, uses_own] at huses
    rcases List.mem_map.mp huses with ⟨k, hk, heq⟩
    rw [(Handle.mk.inj heq).1] at hk
    rw [h.cleared_eq s (hcleared s hk)] at hv
    exact absurd hv (by simp only [reduceCtorEq, not_false_eq_true])
  have hmove : Holding.Move dep m (.called i (.release ⟨kind, i⟩) r) _ := .closes ⟨kind, i⟩ rfl (by
    rw [h.closed_eq, h.opened_eq]
    exact hlast) hspared
  refine ⟨_, replays_singleton _ _ _ hmove, h.task_eq, h.request_eq, h.opened_eq, ?_, h.own,
    h.placed_eq, h.cleared_eq, ?_⟩
  · rw [← h.closed_eq]
  · rw [← h.fault_eq]
    cases r with
    | ok u => rfl
    | error exc => rfl

/-- Putting an object of its own into a global. -/
theorem monitored_set (s : Slot) (placed' cleared' : List Slot)
    (huses : ∀ kind ∈ s.kinds, ⟨kind, i⟩ ∈ opened)
    (hplaced : ∀ s' ∈ placed', s' = s ∨ s' ∈ placed)
    (hcleared : ∀ s' ∈ cleared', s' ≠ s ∧ s' ∈ cleared)
    (h : Stands dep i (.lifespan worker) opened [] placed cleared fault m) :
    Monitored dep i (fun r m' => r = .ok () ∧
      Stands dep i (.lifespan worker) opened [] placed' cleared' fault m')
      (call (Call.assign worker s (some (ownObject dep i s)))) m := by
  refine watched_call _ m trivial ?_
  rintro r l ⟨rfl, hr⟩
  have hr : r = .ok () := hr
  subst hr
  refine ⟨_, replays_singleton _ _ _ (.assigns worker s (some (ownObject dep i s)) h.request_eq
    rfl ?_), rfl, h.task_eq, h.request_eq, h.opened_eq, h.closed_eq, fun s' v hv => ?_,
    fun s' hs' => ?_, fun s' hs' => ?_,
    h.fault_eq⟩
  · intro v hv
    rw [← Option.some.inj hv, h.opened_eq, h.task_eq, uses_own]
    exact ⟨rfl, h.closed_eq, List.forall_mem_map.mpr huses⟩
  · have hv : Function.update m.slots s _ s' = some v := hv
    by_cases hs : s' = s
    · subst hs
      rw [Function.update_self] at hv
      exact (Option.some.inj hv).symm
    · rw [Function.update_of_ne hs] at hv
      exact h.own s' v hv
  · change Function.update m.slots s _ s' = _
    by_cases hs : s' = s
    · subst hs
      rw [Function.update_self]
    · rw [Function.update_of_ne hs]
      exact h.placed_eq s' ((hplaced s' hs').resolve_left hs)
  · change Function.update m.slots s _ s' = _
    rw [Function.update_of_ne (hcleared s' hs').1]
    exact h.cleared_eq s' (hcleared s' hs').2

/-- Clearing a global. -/
theorem monitored_clear (s : Slot) (cleared' : List Slot)
    (hcleared : ∀ s' ∈ cleared', s' = s ∨ s' ∈ cleared)
    (h : Stands dep i (.lifespan worker) opened closed placed cleared fault m) :
    Monitored dep i (fun r m' => r = .ok () ∧
      Stands dep i (.lifespan worker) opened closed [] cleared' fault m')
      (call (Call.assign worker s none)) m := by
  refine watched_call _ m trivial ?_
  rintro r l ⟨rfl, hr⟩
  have hr : r = .ok () := hr
  subst hr
  refine ⟨_, replays_singleton _ _ _ (.assigns worker s none h.request_eq rfl
    (fun v hv => nomatch hv)), rfl, h.task_eq, h.request_eq, h.opened_eq, h.closed_eq,
    fun s' v hv => ?_, fun s' hs' => ?_, fun s' hs' => ?_,
    h.fault_eq⟩
  · have hv : Function.update m.slots s none s' = some v := hv
    by_cases hs : s' = s
    · subst hs
      rw [Function.update_self] at hv
      exact absurd hv (by simp only [reduceCtorEq, not_false_eq_true])
    · rw [Function.update_of_ne hs] at hv
      exact h.own s' v hv
  · exact absurd hs' List.not_mem_nil
  · change Function.update m.slots s none s' = _
    by_cases hs : s' = s
    · subst hs
      rw [Function.update_self]
    · rw [Function.update_of_ne hs]
      exact h.cleared_eq s' ((hcleared s' hs').resolve_left hs)

/-- A call that opens, closes and sets nothing. -/
theorem monitored_other (c : Call) (hpre : callPre dep i c m)
    (hother : ∀ r, (Mark.called i c r).opens = none ∧ (Mark.called i c r).closes = none ∧
      (Mark.called i c r).assigns = none)
    (h : Stands dep i q opened closed placed cleared fault m) :
    Monitored dep i (fun r m' => Stands dep i q opened closed placed cleared
      ((faultOf r).or fault) m') (call c) m := by
  refine watched_call _ m hpre ?_
  rintro r l ⟨rfl, _⟩
  refine ⟨_, replays_singleton _ _ _ (.other (hother r).1 (hother r).2.1 (hother r).2.2),
    h.task_eq, h.request_eq, h.opened_eq, h.closed_eq, h.own, h.placed_eq, h.cleared_eq, ?_⟩
  rw [← h.fault_eq]
  cases r with
  | ok u => rfl
  | error exc => rfl

/-- What a lifespan opens, in order. -/
def ownHandles (i : Nat) : List Handle := [⟨.engine, i⟩, ⟨.httpClient, i⟩, ⟨.redisClient, i⟩]

theorem mem_ownHandles (kind : Resource) : ⟨kind, i⟩ ∈ ownHandles i := by
  cases kind with
  | engine => exact List.mem_cons_self ..
  | httpClient => exact List.mem_cons_of_mem _ (List.mem_cons_self ..)
  | redisClient => exact List.mem_cons_of_mem _ (List.mem_cons_of_mem _ (List.mem_cons_self ..))

variable (dep i worker) in
/-- A part of a lifespan is over: it has closed what it opened on top of what
    there was, and nothing was raised after its outcome. -/
def Down {α : Type} (hs : List Handle) (cleared : List Slot) (r : Except AppExc α)
    (m : Holding) : Prop :=
  ∃ rest, hs ++ rest <+: ownHandles i ∧
    Stands dep i (.lifespan worker) (hs ++ rest) rest.reverse [] cleared (faultOf r) m

theorem down_of_stands {α : Type} (hs : List Handle) (r : Except AppExc α)
    (hpre : hs <+: ownHandles i)
    (h : Stands dep i (.lifespan worker) hs [] placed cleared (faultOf r) m) :
    Down dep i worker hs cleared r m := by
  refine ⟨[], ?_, ?_⟩
  · rw [List.append_nil]
    exact hpre
  · rw [List.append_nil]
    exact { h with placed_eq := fun s hs => absurd hs List.not_mem_nil }

theorem down_congr {α β : Type} (hs : List Handle) (r : Except AppExc α) (r' : Except AppExc β)
    (hr : faultOf r = faultOf r') (h : Down dep i worker hs cleared r m) :
    Down dep i worker hs cleared r' m := by
  rcases h with ⟨rest, hpre, hrest⟩
  rw [hr] at hrest
  exact ⟨rest, hpre, hrest⟩

theorem down_clear {α : Type} (s : Slot) (hs : List Handle) (r : Except AppExc α)
    (h : Down dep i worker hs cleared r m) :
    Monitored dep i (fun r' m' => r' = .ok () ∧ Down dep i worker hs (s :: cleared) r m')
      (call (Call.assign worker s none)) m := by
  rcases h with ⟨rest, hpre, hrest⟩
  exact watched_mono (fun r' m' h' => ⟨h'.1, rest, hpre, h'.2⟩) _ _
    (monitored_clear s (s :: cleared) (fun s' hs' => List.mem_cons.mp hs') hrest)

/-- The close at the end of a `finally` block. If it raises, that is the outcome. -/
theorem down_release {α : Type} (kind : Resource) (hs : List Handle) (r : Except AppExc α)
    (hcleared : ∀ s : Slot, kind ∈ s.kinds → s ∈ cleared)
    (h : Down dep i worker (hs ++ [⟨kind, i⟩]) cleared r m) :
    Monitored dep i (fun r' m' => Down dep i worker hs cleared (lastly r r') m')
      (call (Call.release ⟨kind, i⟩)) m := by
  rcases h with ⟨rest, hpre, hrest⟩
  rw [List.append_assoc, List.singleton_append] at hpre hrest
  -- Everything opened after it is closed, so it is the next in turn.
  have hclose : rest.reverse ++ [⟨kind, i⟩] = (⟨kind, i⟩ :: rest : List Handle).reverse :=
    List.reverse_cons.symm
  have hlast : rest.reverse ++ [⟨kind, i⟩] <+: (hs ++ ⟨kind, i⟩ :: rest).reverse := by
    rw [hclose, List.reverse_append]
    exact List.prefix_append _ _
  refine watched_mono (fun r' m' h' => ?_) _ _ (monitored_release kind hlast hcleared hrest)
  rw [hclose] at h'
  cases r' with
  | ok u => exact ⟨_, hpre, h'⟩
  | error exc => exact ⟨_, hpre, h'⟩

/-- The `yield`, with everything in its place. -/
theorem monitored_serveRequests
    (h : Stands dep i (.lifespan worker) (ownHandles i) [] [.eventStore, .sessionFactory]
      [.pypiCacheClient, .redisClient] none m) :
    Monitored dep i (fun r m' => Down dep i worker (ownHandles i) [] r m')
      (serveRequests dep worker ⟨.httpClient, i⟩ ⟨.redisClient, i⟩) m := by
  -- The last two globals are set, and then all four are what `serving` asks for.
  refine watched_bind _ _ m (watched_mono (fun r m₁ h₁ => ?_) _ _
    (monitored_set .redisClient [.redisClient, .eventStore, .sessionFactory] [.pypiCacheClient]
      (fun kind _ => mem_ownHandles kind) (by decide) (by decide) h))
  rcases h₁ with ⟨rfl, h₁⟩
  refine watched_bind _ _ m₁ (watched_mono (fun r m₂ h₂ => ?_) _ _
    (monitored_set .pypiCacheClient
      [.eventStore, .pypiCacheClient, .sessionFactory, .redisClient] []
      (fun kind _ => mem_ownHandles kind) (by decide) (by decide) h₁))
  rcases h₂ with ⟨rfl, h₂⟩
  refine watched_mono (fun r m₃ h₃ => ?_) _ _ (monitored_other .serving ?_
    (fun r => ⟨rfl, rfl, rfl⟩) h₂)
  · rw [Option.or_none] at h₃
    exact down_of_stands _ r (List.prefix_refl _) h₃
  · rw [← h₂.request_eq] at h₂
    exact h₂

/-- The Redis client is opened, used and closed. -/
theorem monitored_withClient
    (h : Stands dep i (.lifespan worker) [⟨.engine, i⟩, ⟨.httpClient, i⟩] []
      [.eventStore, .sessionFactory] [.pypiCacheClient, .redisClient] none m) :
    Monitored dep i (fun r m' => Down dep i worker [⟨.engine, i⟩, ⟨.httpClient, i⟩]
      [.redisClient, .pypiCacheClient] r m') (withClient dep worker ⟨.httpClient, i⟩) m := by
  refine watched_bind _ _ m (watched_mono (fun r m₁ h₁ => ?_) _ _
    (monitored_acquire .redisClient ?_ h))
  · cases r with
    -- Nothing to close: the `try` block was not entered.
    | error exc => exact down_of_stands _ _ ⟨_, rfl⟩ { h₁ with
        cleared_eq := fun s hs => h₁.cleared_eq s (by
          revert s
          decide) }
    | ok hd =>
        rcases h₁ with ⟨rfl, h₁⟩
        refine watched_tryFinally _ _ m₁ (watched_mono (fun r m₂ h₂ => ?_) _ _
          (monitored_serveRequests h₁))
        -- The `finally` block, wherever the `try` block has ended.
        refine watched_bind _ _ m₂ (watched_mono (fun r₁ m₃ h₃ => ?_) _ _
          (down_clear .pypiCacheClient _ r h₂))
        rcases h₃ with ⟨rfl, h₃⟩
        refine watched_bind _ _ m₃ (watched_mono (fun r₂ m₄ h₄ => ?_) _ _
          (down_clear .redisClient _ r h₃))
        rcases h₄ with ⟨rfl, h₄⟩
        refine down_release .redisClient [⟨.engine, i⟩, ⟨.httpClient, i⟩] r (fun s => ?_) h₄
        cases s with
        | _ => decide
  · simp only [List.mem_cons, Handle.mk.injEq, reduceCtorEq, false_and, List.not_mem_nil, or_self,
      not_false_eq_true]

/-- The HTTP client is opened, used and closed. -/
theorem monitored_withEngine
    (h : Stands dep i (.lifespan worker) [⟨.engine, i⟩] [] []
      [.eventStore, .sessionFactory, .pypiCacheClient, .redisClient] none m) :
    Monitored dep i (fun r m' => Down dep i worker [⟨.engine, i⟩]
      [.redisClient, .pypiCacheClient] r m')
      (withEngine dep worker ⟨.engine, i⟩ { engine := ⟨.engine, i⟩ }) m := by
  -- A failure on the way to the `try` block has set neither of the two globals.
  have hfailed : ∀ {α : Type} {placed cleared : List Slot} (r : Except AppExc α) (m : Holding),
      Stands dep i (.lifespan worker) [⟨.engine, i⟩] [] placed cleared (faultOf r) m →
      .pypiCacheClient ∈ cleared → .redisClient ∈ cleared →
      Down dep i worker [⟨.engine, i⟩] [.redisClient, .pypiCacheClient] r m := by
    intro α placed cleared r m h hpypi hredis
    refine down_of_stands _ r ⟨_, rfl⟩ { h with cleared_eq := fun s hs => h.cleared_eq s ?_ }
    rcases List.mem_cons.mp hs with rfl | hs
    · exact hredis
    · rw [List.mem_singleton.mp hs]
      exact hpypi
  refine watched_bind _ _ m (watched_mono (fun r m₁ h₁ => ?_) _ _
    (monitored_other (.createAll _) trivial (fun r => ⟨rfl, rfl, rfl⟩) h))
  rw [Option.or_none] at h₁
  cases r with
  | error exc => exact hfailed (.error exc) m₁ h₁ (by decide) (by decide)
  | ok u =>
      -- Both objects work on the engine alone.
      have huses : ∀ s : Slot, s = .eventStore ∨ s = .sessionFactory →
          ∀ kind ∈ s.kinds, ⟨kind, i⟩ ∈ [(⟨.engine, i⟩ : Handle)] := by
        rintro s (rfl | rfl) kind hkind
        · exact List.mem_singleton.mpr (by rw [List.mem_singleton.mp hkind])
        · exact List.mem_singleton.mpr (by rw [List.mem_singleton.mp hkind])
      refine watched_bind _ _ m₁ (watched_mono (fun r m₂ h₂ => ?_) _ _
        (monitored_set .eventStore [.eventStore] [.sessionFactory, .pypiCacheClient, .redisClient]
          (huses _ (Or.inl rfl)) (by decide) (by decide) h₁))
      rcases h₂ with ⟨rfl, h₂⟩
      refine watched_bind _ _ m₂ (watched_mono (fun r m₃ h₃ => ?_) _ _
        (monitored_set .sessionFactory [.eventStore, .sessionFactory]
          [.pypiCacheClient, .redisClient] (huses _ (Or.inr rfl)) (by decide) (by decide) h₂))
      rcases h₃ with ⟨rfl, h₃⟩
      refine watched_bind _ _ m₃ (watched_mono (fun r m₄ h₄ => ?_) _ _
        (monitored_acquire .httpClient ?_ h₃))
      · cases r with
        | error exc => exact hfailed (.error exc) m₄ h₄ (by decide) (by decide)
        | ok hd =>
            rcases h₄ with ⟨rfl, h₄⟩
            refine watched_tryFinally _ _ m₄ (watched_mono (fun r m₅ h₅ => ?_) _ _
              (monitored_withClient h₄))
            refine down_release .httpClient [⟨.engine, i⟩] r (fun s => ?_) h₅
            cases s with
            | _ => decide
      · simp only [List.mem_cons, Handle.mk.injEq, reduceCtorEq, false_and, List.not_mem_nil,
          or_self, not_false_eq_true]

/-- A whole lifespan, however it ends. -/
theorem monitored_lifespan :
    Monitored dep i (fun r m' => Down dep i worker []
      [.sessionFactory, .eventStore, .redisClient, .pypiCacheClient] r m')
      (lifespan dep worker) { task := i, request := .lifespan worker } := by
  have hstart : Stands dep i (.lifespan worker) [] [] []
      [.eventStore, .sessionFactory, .pypiCacheClient, .redisClient] none
      { task := i, request := .lifespan worker } :=
    ⟨rfl, rfl, rfl, rfl, fun _ _ hv => (by cases hv), fun _ hs => absurd hs List.not_mem_nil,
      fun _ _ => rfl, rfl⟩
  refine watched_bind _ _ _ (watched_bind _ _ _ (watched_mono (fun r m₁ h₁ => ?_) _ _
    (monitored_acquire .engine List.not_mem_nil hstart)))
  cases r with
  | error exc =>
      exact down_of_stands [] _ List.nil_prefix { h₁ with
        cleared_eq := fun s hs => h₁.cleared_eq s (by
          revert s
          decide) }
  | ok hd =>
      rcases h₁ with ⟨rfl, h₁⟩
      refine watched_tryFinally _ _ m₁ (watched_mono (fun r m₂ h₂ => ?_) _ _
        (monitored_withEngine h₁))
      refine watched_bind _ _ m₂ (watched_mono (fun r₁ m₃ h₃ => ?_) _ _
        (down_clear .eventStore _ r h₂))
      rcases h₃ with ⟨rfl, h₃⟩
      refine watched_bind _ _ m₃ (watched_mono (fun r₂ m₄ h₄ => ?_) _ _
        (down_clear .sessionFactory _ r h₃))
      rcases h₄ with ⟨rfl, h₄⟩
      refine down_release .engine [] r (fun s => ?_) h₄
      cases s with
      | _ => decide

variable (dep i q) in
/-- A coroutine that opens, closes and sets nothing. -/
def Inert {α : Type} (p : App α) : Prop :=
  ∀ m, (∃ fault, Stands dep i q [] [] [] [] fault m) → Monitored dep i
    (fun _ m' => ∃ fault, Stands dep i q [] [] [] [] fault m') p m

theorem inert_ret {α : Type} (a : α) : Inert dep i q (ret a) := fun _ hm => hm

theorem inert_raise {α : Type} (exc : AppExc) : Inert dep i q (raise exc : App α) :=
  fun _ hm => hm

theorem inert_bind {α β : Type} (p : App α) (f : α → App β) (hp : Inert dep i q p)
    (hf : ∀ a, Inert dep i q (f a)) : Inert dep i q (p.bind f) := by
  intro m hm
  refine watched_bind p f m (watched_mono (fun r m' hm' => ?_) p m (hp m hm))
  cases r with
  | ok a => exact hf a m' hm'
  | error exc => exact hm'

theorem inert_tryCatch {α : Type} (p : App α) (f : AppExc → App α) (hp : Inert dep i q p)
    (hf : ∀ exc, Inert dep i q (f exc)) : Inert dep i q (p.tryCatch f) := by
  intro m hm
  refine watched_tryCatch p f m (watched_mono (fun r m' hm' => ?_) p m (hp m hm))
  cases r with
  | ok a => exact hm'
  | error exc => exact hf exc m' hm'

theorem inert_tryFinally {α : Type} (p : App α) (f : App Unit) (hp : Inert dep i q p)
    (hf : Inert dep i q f) : Inert dep i q (p.tryFinally f) := by
  intro m hm
  exact watched_tryFinally p f m (watched_mono (fun r m' hm' => hf m' hm') p m (hp m hm))

theorem inert_call (c : Call) (hpre : ∀ m, callPre dep i c m)
    (hother : ∀ r, (Mark.called i c r).opens = none ∧ (Mark.called i c r).closes = none ∧
      (Mark.called i c r).assigns = none) : Inert dep i q (call c) := by
  rintro m ⟨fault, hm⟩
  exact watched_mono (fun r m' hm' => ⟨_, hm'⟩) _ m (monitored_other c (hpre m) hother hm)

theorem inert_getDependency (s : Slot) (name : Str) :
    Inert dep i q (getDependency worker s name) := by
  have hload : Inert dep i q (call (Call.load worker s)) :=
    inert_call _ (fun _ => trivial) (fun _ => ⟨rfl, rfl, rfl⟩)
  refine inert_bind _ _ hload (fun value => ?_)
  cases value with
  | none => exact inert_raise _
  | some object => exact hload

theorem inert_orDown (check : App Unit) (h : Inert dep i q check) :
    Inert dep i q (orDown check) := by
  refine inert_tryCatch _ _ (inert_bind _ _ h (fun _ => inert_ret _)) (fun exc => ?_)
  split
  · exact inert_ret _
  · exact inert_raise _

theorem inert_healthReady : Inert dep i q (healthReady worker) := by
  refine inert_bind _ _ (inert_getDependency _ _) (fun factory => ?_)
  refine inert_bind _ _ (inert_getDependency _ _) (fun redis => ?_)
  refine inert_bind _ _ (inert_orDown _ ?_) (fun database => ?_)
  · cases factory with
    | none => exact inert_raise _
    | some factory =>
        exact inert_tryFinally _ _ (inert_call _ (fun _ => trivial) (fun _ => ⟨rfl, rfl, rfl⟩))
          (inert_call _ (fun _ => trivial) (fun _ => ⟨rfl, rfl, rfl⟩))
  · refine inert_bind _ _ (inert_orDown _ ?_) (fun _ => inert_ret _)
    cases redis with
    | none => exact inert_raise _
    | some redis => exact inert_call _ (fun _ => trivial) (fun _ => ⟨rfl, rfl, rfl⟩)

theorem inert_onObjects {α : Type} (r : Route) (store : Option PostgresEventStore)
    (pypi : Option PyPICacheClient) (p : Coroutine α) :
    Inert dep i (.route worker r) (onObjects store pypi p) := by
  induction p with
  | ret a => exact inert_ret a
  | raise x => exact inert_raise _
  | await e k ih =>
      rintro m ⟨fault, hm⟩
      rw [onObjects]
      -- Only a route may call the services, and a call of theirs opens nothing.
      refine ⟨⟨worker, r, hm.request_eq⟩, ?_⟩
      rintro res l ⟨rfl, _⟩
      refine ⟨_, replays_singleton _ _ _ (.other rfl rfl rfl), ?_⟩
      have hm' : Stands dep i (.route worker r) [] [] [] [] _ { m with
          fault := (Mark.called i (.service store pypi e) res).raises.or m.fault } :=
        { hm with fault_eq := rfl }
      cases res with
      | ok reply => exact ih reply _ ⟨_, hm'⟩
      | error exc => exact ⟨_, hm'⟩

theorem inert_route (r : Route) : Inert dep i (.route worker r) (r.body dep worker) := by
  cases r with
  | postEvent event =>
      exact inert_bind _ _ (inert_getDependency _ _) (fun _ =>
        inert_bind _ _ (inert_getDependency _ _) (fun _ => inert_onObjects _ _ _ _))
  | getPackage name =>
      exact inert_bind _ _ (inert_getDependency _ _) (fun _ =>
        inert_bind _ _ (inert_getDependency _ _) (fun _ => inert_onObjects _ _ _ _))
  | getEventTotal name eventType =>
      exact inert_bind _ _ (inert_getDependency _ _) (fun _ => inert_onObjects _ _ _ _)
  | getEventLast name eventType =>
      exact inert_bind _ _ (inert_getDependency _ _) (fun _ => inert_onObjects _ _ _ _)

theorem inert_respond (route : App AppAnswer) (h : Inert dep i q route) :
    Inert dep i q (respond route) := by
  refine inert_tryCatch _ _ h (fun exc => ?_)
  split
  · exact inert_ret _
  · exact inert_raise _

end Specs

section Runs

variable (dep : Deployment)

/-- What a request has to show for itself in the end. -/
def AppPost (i : Nat) : AppRequest → Except AppExc AppAnswer → Holding → Prop
  | .lifespan worker, r, m => (∀ a, r = .ok a → a = .stopped) ∧ Down dep i worker []
      [.sessionFactory, .eventStore, .redisClient, .pypiCacheClient] r m
  | q, _, m => ∃ fault, Stands dep i q [] [] [] [] fault m

/-- The monitor accepts every request. -/
theorem monitored_body (i : Nat) (q : AppRequest) :
    Monitored dep i (AppPost dep i q) (q.body dep) { task := i, request := q } := by
  have hstart : ∃ fault, Stands dep i q [] [] [] [] fault
      { task := i, request := q } :=
    ⟨none, rfl, rfl, rfl, rfl, fun _ _ hv => (by cases hv),
      fun _ hs => absurd hs List.not_mem_nil, fun _ hs => absurd hs List.not_mem_nil, rfl⟩
  cases q with
  | lifespan worker =>
      refine watched_bind _ _ _ (watched_mono (fun r m hm => ?_) _ _ monitored_lifespan)
      cases r with
      | ok u => exact ⟨fun a ha => (Except.ok.inj ha).symm, down_congr _ _ _ rfl hm⟩
      | error exc => exact ⟨(fun a ha => nomatch ha), down_congr _ _ _ rfl hm⟩
  | health worker => exact hstart
  | healthReady worker =>
      exact inert_respond _ (inert_bind _ _ inert_healthReady (fun _ => inert_ret _)) _ hstart
  | route worker r =>
      exact inert_respond _ (inert_bind _ _ (inert_route r) (fun _ => inert_ret _)) _ hstart

/-- The records of a request, replayed by the monitor. -/
abbrev Kept (i : Nat) (t : Option (Task Call Call.Reply AppExc AppAnswer AppRequest))
    (own : List Mark) : Prop :=
  (appLog dep).Kept ((appLog dep).Replayed (Holding.Move dep) (callPre dep)
    (fun i q => { task := i, request := q }) (AppPost dep)) i t own

theorem kept_of (c : AppState) (hc : AppReachable dep c) (i : Nat) :
    Kept dep i (c.task i) (marksOf i c.shared.log) :=
  (appLog dep).watched (Holding.Move dep) (callPre dep) _ (AppPost dep) (monitored_body dep) idle
    rfl c hc i

/-- A mark that is not a call moves nothing. -/
theorem move_same (m : Holding) (x : Mark) (hopens : x.opens = none) (hcloses : x.closes = none)
    (hassigns : x.assigns = none) (hraises : x.raises = none) : Holding.Move dep m x m := by
  have hmove : Holding.Move dep m x { m with fault := x.raises.or m.fault } :=
    .other hopens hcloses hassigns
  rw [hraises] at hmove
  exact hmove

/-- The records of a task can be replayed, its arrival and its answer included. -/
theorem replays_of (c : AppState) (hc : AppReachable dep c) (i : Nat)
    (t : Task Call Call.Reply AppExc AppAnswer AppRequest) (ht : c.task i = some t) :
    ∃ m, Holding.Read dep i t.request (marksOf i c.shared.log) m ∧
      ∀ q r, t = .answered q r → AppPost dep i q r m := by
  have hkept := kept_of dep c hc i
  rw [ht] at hkept
  have hstart : ∀ (q : AppRequest) (l : List Mark) (m : Holding),
      Replays (Holding.Move dep) { task := i, request := q } l m →
      Holding.Read dep i q (.started i q :: l) m := by
    intro q l m hm
    exact Holding.read_of_replays dep i q _ m
      (.cons _ _ _ _ _ (move_same dep _ _ rfl rfl rfl rfl) hm)
  cases t with
  | running q p =>
      rcases hkept with ⟨l, hl, m, hm, _⟩
      rw [hl]
      exact ⟨m, hstart q l m hm, fun q r h => nomatch h⟩
  | answered q r =>
      rcases hkept with ⟨l, p, hl, hout, m, hm, hpost⟩
      rw [hl]
      -- The answer is one more record, and moves nothing.
      refine ⟨m, Holding.read_move dep i q _ m _ m (hstart q l m hm)
        (move_same dep _ _ rfl rfl rfl rfl), fun q' r' h => ?_⟩
      cases h
      cases p with
      | ret a =>
          cases hout
          exact hpost
      | raise x =>
          cases hout
          exact hpost
      | await e k => cases hout
  | aborted q =>
      rcases hkept with ⟨l, p, hl, m, hm, _⟩
      rw [hl]
      exact ⟨m, hstart q l m hm, fun q r h => nomatch h⟩

/-- Whoever has made a mark has arrived. -/
theorem task_of_mark (c : AppState) (hc : AppReachable dep c) (x : Mark)
    (hx : x ∈ c.shared.log) : ∃ t, c.task x.owner = some t := by
  have hkept := kept_of dep c hc x.owner
  cases ht : c.task x.owner with
  | some t => exact ⟨t, rfl⟩
  | none =>
      rw [ht] at hkept
      have hmem : x ∈ marksOf x.owner c.shared.log :=
        List.mem_filter.mpr ⟨hx, beq_self_eq_true _⟩
      rw [show marksOf x.owner c.shared.log = [] from hkept] at hmem
      exact absurd hmem List.not_mem_nil

/-- What the application shares can be read off the log. -/
structure FollowsLog (w : AppWorld) : Prop where
  opened : w.opened = w.log.filterMap Mark.opens
  closed : w.closed = w.log.filterMap Mark.closes
  globals : w.globals = globalsOf w.log

/-- A mark that is not a call. -/
theorem followsLog_note (w : AppWorld) (x : Mark) (h : FollowsLog w) (hopens : x.opens = none)
    (hcloses : x.closes = none) (hassigns : x.assigns = none) : FollowsLog (w.note x) where
  opened := by
    rw [AppWorld.note, Holding.filterMap_concat, hopens, Option.toList_none, List.append_nil]
    exact h.opened
  closed := by
    rw [AppWorld.note, Holding.filterMap_concat, hcloses, Option.toList_none, List.append_nil]
    exact h.closed
  globals := by
    rw [AppWorld.note, globalsOf_concat, globals_none x _ hassigns]
    exact h.globals

theorem followsLog_of (c : AppState) (hc : AppReachable dep c) : FollowsLog c.shared := by
  induction hc with
  | refl => exact ⟨rfl, rfl, rfl⟩
  | step c d l _ hl ih =>
      cases step_cases c d l hl with
      | start i q _ => exact followsLog_note _ _ ih rfl rfl rfl
      | act i o q e k r w _ hserve =>
          rcases serve_effect dep i e o _ w r hserve with ⟨w₁, hperform, rfl⟩
          -- The effect of the call is what its record says, and the record is last.
          have heffect := perform_effect dep i e o _ w₁ r hperform
          refine ⟨?_, ?_, ?_⟩
          · change w₁.opened = (w₁.log ++ [_]).filterMap Mark.opens
            rw [Holding.filterMap_concat, heffect.log, ← ih.opened, heffect.opened]
          · change w₁.closed = (w₁.log ++ [_]).filterMap Mark.closes
            rw [Holding.filterMap_concat, heffect.log, ← ih.closed, heffect.closed]
          · change w₁.globals = globalsOf (w₁.log ++ [_])
            rw [globalsOf_concat, heffect.log, ← ih.globals, heffect.globals]
      | answer i q p r _ _ => exact followsLog_note _ _ ih rfl rfl rfl
      | abort i q p _ => exact ⟨ih.opened, ih.closed, ih.globals⟩
      | env a w henv =>
          rcases Option.map_eq_some_iff.mp henv with ⟨world, _, rfl⟩
          exact ⟨ih.opened, ih.closed, ih.globals⟩

theorem marksOf_self (i : Nat) (log : List Mark) (x : Mark) (h : x.owner = i) :
    marksOf i (log ++ [x]) = marksOf i log ++ [x] := by
  rw [marksOf, List.filter_append]
  exact congrArg _ (List.filter_cons_of_pos (beq_iff_eq.mpr h))

theorem marksOf_other (i : Nat) (log : List Mark) (x : Mark) (h : x.owner ≠ i) :
    marksOf i (log ++ [x]) = marksOf i log := by
  rw [marksOf, List.filter_append]
  have hnil : [x].filter (fun y => y.owner == i) = [] :=
    List.filter_cons_of_neg (fun hb => h (beq_iff_eq.mp hb))
  rw [hnil, List.append_nil]
  rfl

/-- A mark that does not set a global leaves it as it is, for whoever has made it. -/
theorem globalsOf_other (i : Nat) (log : List Mark) (x : Mark) (worker : Nat) (s : Slot)
    (h : ∀ value, x.assigns ≠ some ⟨worker, s, value⟩) :
    globalsOf (marksOf i (log ++ [x])) worker s = globalsOf (marksOf i log) worker s := by
  by_cases hi : x.owner = i
  · rw [marksOf_self i log x hi, globalsOf_concat, globals_other x _ _ _ h]
  · rw [marksOf_other i log x hi]

/-- Whoever set a global last has put there what it holds. -/
theorem globals_by (log : List Mark) (worker : Nat) (s : Slot) (v : s.Object)
    (h : globalsOf log worker s = some v) :
    ∃ x ∈ log, globalsOf (marksOf x.owner log) worker s = some v := by
  induction log using List.reverseRecOn with
  | nil => exact absurd h (by simp only [globalsOf, List.foldl_nil, reduceCtorEq,
      not_false_eq_true])
  | append_singleton log x ih =>
      rw [globalsOf_concat] at h
      -- Either the last record has set the global, or whoever did is found before it.
      by_cases hx : ∃ value, x.assigns = some ⟨worker, s, value⟩
      · rcases hx with ⟨value, hx⟩
        rw [globals_self x _ _ _ _ hx] at h
        refine ⟨x, List.mem_append_right _ (List.mem_singleton.mpr rfl), ?_⟩
        rw [marksOf_self _ _ _ rfl, globalsOf_concat, globals_self x _ _ _ _ hx, h]
      · have hx' : ∀ value, x.assigns ≠ some ⟨worker, s, value⟩ := fun value hv => hx ⟨value, hv⟩
        rw [globals_other x _ _ _ hx'] at h
        rcases ih h with ⟨y, hy, hown⟩
        refine ⟨y, List.mem_append_left _ hy, ?_⟩
        rw [globalsOf_other _ _ _ _ _ hx', hown]

/-- If nobody else has set a global since a task arrived, it holds what the task
    put there. -/
theorem globals_undisturbed (i : Nat) (A B : List Mark) (worker : Nat) (s : Slot) (v : s.Object)
    (hA : marksOf i A = [])
    (hB : ∀ x ∈ B, x.owner ≠ i → ∀ value, x.assigns ≠ some ⟨worker, s, value⟩)
    (h : globalsOf (marksOf i (A ++ B)) worker s = some v) :
    globalsOf (A ++ B) worker s = some v := by
  induction B using List.reverseRecOn with
  | nil =>
      rw [List.append_nil, hA] at h
      exact absurd h (by simp only [globalsOf, List.foldl_nil, reduceCtorEq, not_false_eq_true])
  | append_singleton B x ih =>
      rw [← List.append_assoc] at h ⊢
      rw [globalsOf_concat]
      by_cases hx : ∃ value, x.assigns = some ⟨worker, s, value⟩
      · rcases hx with ⟨value, hx⟩
        -- A record that sets the global is the task's own.
        have hi : x.owner = i := by
          by_contra hi
          exact hB x (List.mem_append_right _ (List.mem_singleton.mpr rfl)) hi value hx
        rw [marksOf_self i _ x hi, globalsOf_concat, globals_self x _ _ _ _ hx] at h
        rw [globals_self x _ _ _ _ hx, h]
      · have hx' : ∀ value, x.assigns ≠ some ⟨worker, s, value⟩ := fun value hv => hx ⟨value, hv⟩
        rw [globalsOf_other _ _ _ _ _ hx'] at h
        rw [globals_other x _ _ _ hx']
        exact ih (fun y hy => hB y (List.mem_append_left _ hy)) h

/-- What is closed was closed by the lifespan that opened it. -/
theorem closed_own (c : AppState) (hc : AppReachable dep c) (h : Handle)
    (hh : h ∈ c.shared.closed) :
    h ∈ (marksOf h.lifespan c.shared.log).filterMap Mark.closes := by
  rw [(followsLog_of dep c hc).closed] at hh
  rcases List.mem_filterMap.mp hh with ⟨x, hx, hcloses⟩
  rcases task_of_mark dep c hc x hx with ⟨t, ht⟩
  rcases replays_of dep c hc x.owner t ht with ⟨m, hread, _⟩
  have hmem : h ∈ (marksOf x.owner c.shared.log).filterMap Mark.closes :=
    List.mem_filterMap.mpr ⟨x, List.mem_filter.mpr ⟨hx, beq_self_eq_true _⟩, hcloses⟩
  -- Whoever closed it had opened it, and a task opens only what bears its number.
  have hopened : h ∈ m.opened := by
    rw [hread.closed_eq] at hmem
    exact List.mem_reverse.mp (hread.last.subset hmem)
  rw [hread.own h hopened]
  exact hmem

theorem mem_uses_own (i : Nat) (s : Slot) (hd : Handle) (h : hd ∈ s.uses (ownObject dep i s)) :
    hd.lifespan = i := by
  rw [uses_own] at h
  rcases List.mem_map.mp h with ⟨kind, _, rfl⟩
  rfl

/-- What is in a global was put there by a lifespan of the worker that is not over
    and has it in its holding. -/
theorem held_by (c : AppState) (hc : AppReachable dep c) (worker : Nat) (s : Slot)
    (v : s.Object) (h : c.shared.globals worker s = some v) :
    ∃ i t m, c.task i = some t ∧ t.request = .lifespan worker ∧ (∀ q r, t ≠ .answered q r) ∧
      Holding.Read dep i (.lifespan worker) (marksOf i c.shared.log) m ∧ m.slots s = some v := by
  rw [(followsLog_of dep c hc).globals] at h
  rcases globals_by _ worker s v h with ⟨x, hx, hown⟩
  rcases task_of_mark dep c hc x hx with ⟨t, ht⟩
  rcases replays_of dep c hc x.owner t ht with ⟨m, hread, hpost⟩
  have hrequest : t.request = .lifespan worker := by
    by_contra hne
    rw [hread.foreign worker hne s] at hown
    exact absurd hown (by simp only [reduceCtorEq, not_false_eq_true])
  rw [hread.slots_eq worker hrequest s] at hown
  rw [hrequest] at hread
  refine ⟨x.owner, t, m, ht, hrequest, ?_, hread, hown⟩
  -- A lifespan that is over has cleared all it has set.
  rintro q r rfl
  cases hrequest
  rcases (hpost _ r rfl).2 with ⟨rest, _, hstands⟩
  rw [hstands.cleared_eq s (by cases s <;> decide)] at hown
  exact absurd hown (by simp only [reduceCtorEq, not_false_eq_true])

/-- What is in a global was built by a lifespan of the worker that is not over. -/
theorem built_by (c : AppState) (hc : AppReachable dep c) (worker : Nat) (s : Slot)
    (v : s.Object) (h : c.shared.globals worker s = some v) :
    ∃ i t, v = ownObject dep i s ∧ c.task i = some t ∧ t.request = .lifespan worker ∧
      ∀ q r, t ≠ .answered q r := by
  rcases held_by dep c hc worker s v h with ⟨i, t, m, ht, hrequest, hover, hread, hslot⟩
  exact ⟨i, t, hread.built s v hslot, ht, hrequest, hover⟩

/-- Whatever is in a global works on resources that are open, whoever else is
    starting or stopping at the time, and it was built by a lifespan of the
    worker that is not over. So a getter never hands out a closed client, and
    when all lifespans of a worker are over, its getters raise. -/
theorem dependencies_open (c : AppState) (hc : AppReachable dep c) (worker : Nat) (s : Slot)
    (v : s.Object) (h : c.shared.globals worker s = some v) :
    (∀ hd ∈ s.uses v, hd ∈ c.shared.opened ∧ hd ∉ c.shared.closed) ∧
      ∃ i t, v = ownObject dep i s ∧ c.task i = some t ∧ t.request = .lifespan worker ∧
        ∀ q r, t ≠ .answered q r := by
  refine ⟨fun hd hhd => ?_, built_by dep c hc worker s v h⟩
  rcases held_by dep c hc worker s v h with ⟨i, t, m, ht, hrequest, hover, hread, hslot⟩
  rcases hread.good s v hslot hd hhd with ⟨hin, hout⟩
  refine ⟨?_, fun hclosed => hout ?_⟩
  · rw [(followsLog_of dep c hc).opened]
    rw [← hread.opened_eq] at hin
    rcases List.mem_filterMap.mp hin with ⟨x, hx, hopens⟩
    exact List.mem_filterMap.mpr ⟨x, List.mem_of_mem_filter hx, hopens⟩
  -- If it is closed, its own lifespan has closed it, which has it open.
  · have hown := closed_own dep c hc hd hclosed
    rw [hread.own hd hin, hread.closed_eq] at hown
    exact hown

/-- A worker that has started. -/
def startup : List (Label AppRequest AppFate Env) :=
  .start 0 (.lifespan 0) :: List.replicate 8 (.act 0 .ok)

/-- The event store of a worker that has started works on an open engine. -/
theorem dependencies_open_started : ∃ c, AppReachable utcDeployment c ∧
    c.shared.globals 0 .eventStore = some (ownObject utcDeployment 0 .eventStore) ∧
    (⟨.engine, 0⟩ : Handle) ∉ c.shared.closed := by
  rcases reaches_of_run_map startup (Config.init idle)
    (fun c : AppState => c.shared.globals 0 .eventStore) _
    (show (run (application utcDeployment) _ _).map _ = _ from rfl) with ⟨c, hc, hstore⟩
  exact ⟨c, hc, hstore,
    ((dependencies_open utcDeployment c hc 0 .eventStore _ hstore).1 _ (List.mem_cons_self ..)).2⟩

/-- A lifespan that is over, however it ended, has called `close` on what it
    opened, on each resource once and in reverse order, and nothing it built is
    left in any global. It ends with an exception just when one of its calls
    raised, and it is the one raised last. -/
theorem lifespan_releases (c : AppState) (hc : AppReachable dep c) (i worker : Nat)
    (r : Except AppExc AppAnswer)
    (h : c.task i = some (.answered (.lifespan worker) r)) :
    (marksOf i c.shared.log).filterMap Mark.opens <+: ownHandles i ∧
      (marksOf i c.shared.log).filterMap Mark.closes
        = ((marksOf i c.shared.log).filterMap Mark.opens).reverse ∧
      (∀ w s v, c.shared.globals w s = some v → ∀ hd ∈ s.uses v, hd.lifespan ≠ i) ∧
      r = match ((marksOf i c.shared.log).filterMap Mark.raises).getLast? with
        | none => .ok .stopped
        | some exc => .error exc := by
  rcases replays_of dep c hc i _ h with ⟨m, hread, hpost⟩
  rcases hpost _ r rfl with ⟨hstopped, rest, hpre, hstands⟩
  rw [hread.opened_eq, hread.closed_eq, hread.fault_eq, hstands.opened_eq, hstands.closed_eq,
    hstands.fault_eq]
  refine ⟨hpre, rfl, fun w s v hv hd hhd hi => ?_, ?_⟩
  · rcases built_by dep c hc w s v hv with ⟨j, t, rfl, ht, _, hover⟩
    -- Whoever has built what is in a global is not over, and this lifespan is.
    rw [← mem_uses_own dep j s hd hhd, hi, h] at ht
    exact hover _ _ (Option.some.inj ht).symm
  · cases r with
    | ok a => rw [hstopped a rfl]; rfl
    | error exc => rfl

/-- A worker that is cancelled while it serves, and cannot close its Redis client. -/
def brokenShutdown : List (Label AppRequest AppFate Env) :=
  startup ++ [.act 0 (.fail .cancelledError), .act 0 .ok, .act 0 .ok, .act 0 (.fail .libraryError),
    .act 0 .ok, .act 0 .ok, .act 0 .ok, .act 0 .ok, .answer 0]

/-- It calls `close` on everything all the same, and reports the second failure. -/
theorem lifespan_releases_broken : ∃ c, AppReachable utcDeployment c ∧
    c.task 0 = some (.answered (.lifespan 0) (.error .libraryError)) ∧
    (marksOf 0 c.shared.log).filterMap Mark.closes
      = ((marksOf 0 c.shared.log).filterMap Mark.opens).reverse := by
  rcases reaches_of_run_map brokenShutdown (Config.init idle) (fun c : AppState => c.task 0) _
    (show (run (application utcDeployment) _ _).map _ = some (some (.answered _ _)) from rfl)
    with ⟨c, hc, htask⟩
  exact ⟨c, hc, htask, (lifespan_releases utcDeployment c hc 0 0 _ htask).2.1⟩

/-- While a lifespan serves, the getters of its worker return what it has built,
    unless another lifespan has set or cleared a global since it arrived. -/
theorem serving_dependencies (c : AppState) (hc : AppReachable dep c) (i worker : Nat)
    (k : Except AppExc Unit → App AppAnswer)
    (h : c.task i = some (.running (.lifespan worker) (.await .serving k)))
    (hundisturbed : ∀ A B, c.shared.log = A ++ .started i (.lifespan worker) :: B →
      ∀ x ∈ B, x.owner ≠ i → ∀ s value, x.assigns ≠ some ⟨worker, s, value⟩) (s : Slot) :
    c.shared.globals worker s = some (ownObject dep i s) := by
  have hkept := kept_of dep c hc i
  rw [h] at hkept
  rcases hkept with ⟨l, hl, m, hm, hwatched⟩
  have hserving : Stands dep i m.request _ [] _ [] none m := hwatched.1
  have hslot := hserving.placed_eq s (by cases s <;> decide)
  have hread : Holding.Read dep i (.lifespan worker) (marksOf i c.shared.log) m := by
    rw [hl]
    exact Holding.read_of_replays dep i (.lifespan worker) _ m
      (.cons _ _ _ _ _ (move_same dep _ _ rfl rfl rfl rfl) hm)
  rw [← hread.slots_eq worker rfl] at hslot
  rw [(followsLog_of dep c hc).globals]
  -- Nothing in the log before its arrival is about this lifespan.
  rcases List.filter_eq_cons_iff.mp (show marksOf i c.shared.log
    = .started i (.lifespan worker) :: l from hl) with ⟨A, B, hlog, hA, _, _⟩
  rw [hlog] at hslot ⊢
  refine globals_undisturbed i A _ worker s _ (List.filter_eq_nil_iff.mpr hA) ?_ hslot
  intro x hx hxi value
  rcases List.mem_cons.mp hx with rfl | hx
  · exact fun hv => nomatch hv
  · exact hundisturbed A B hlog x hx hxi s value

/-- In a worker that has just started all four are there. -/
theorem serving_dependencies_started : ∃ c, AppReachable utcDeployment c ∧
    ∀ s, c.shared.globals 0 s = some (ownObject utcDeployment 0 s) := by
  rcases reaches_of_run_map startup (Config.init idle)
    (fun c : AppState => (c.task 0, c.shared.log.map Mark.owner)) _
    (show (run (application utcDeployment) _ _).map _
      = some (some (.running _ (.await .serving _)), _) from rfl) with ⟨c, hc, hobs⟩
  rcases Prod.mk.inj hobs with ⟨htask, howner⟩
  refine ⟨c, hc, serving_dependencies utcDeployment c hc 0 0 _ htask ?_⟩
  intro A B hlog x hx hx0
  have hmem : x.owner ∈ c.shared.log.map Mark.owner := by
    rw [hlog]
    exact List.mem_map_of_mem (List.mem_append_right _ (List.mem_cons_of_mem _ hx))
  rw [howner] at hmem
  exact absurd (List.eq_of_mem_replicate (n := 9) hmem) hx0

end Runs

end KingPi
