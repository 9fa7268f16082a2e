import Setwise.Proofs.PlanCache
import Setwise.Session

/-!
Operations on a session, in steps.

An operation looks for cancellation, plans, takes hold of the store, sends its command and lets go, with the steps of
other operations in between. `Operation.Stands` says where it is when the session waits for it, and a move brings it
from one such place to another (`Operation.Moved`).
-/

set_option autoImplicit false

namespace Setwise

open Client Relational

/-! ## What a planner prepares -/

namespace Planner

theorem Honest.plan_eq_answer {c : Planner} (honest : c.Honest) (m : Mutation) : (c.plan m).1 = c.answer m := by
  unfold Planner.plan answer
  cases m.lift with
  | error e => rfl
  | ok result =>
    obtain ⟨form, ps⟩ := result
    dsimp only
    split
    next plan found => rw [honest form plan found]; rfl
    next =>
      split
      next e failed => rw [failed]; rfl
      next plan made => rw [made]; rfl

def fresh (c : Planner) : Planner :=
  { c with cachePlans := false, plans := [] }

theorem Honest.prepare_fresh {c : Planner} (honest : c.Honest) (m : Mutation) :
    (c.prepare m).1 = (c.fresh.prepare m).1 := by
  unfold prepare
  simp only [honest.plan_eq_answer, plan_of_not_caching (c := c.fresh) rfl]
  rfl

theorem plan_fresh (c : Planner) (m : Mutation) : (c.plan m).2.fresh = c.fresh := by
  obtain ⟨plans, same⟩ := c.plan_settings m
  rw [same]
  rfl

end Planner

namespace Session

/-! ## Starting in two steps -/

def proceed {Store : Type} (s : Session Store) (m : Mutation) (abandonable callerCancelled : Bool) :
    Except OperationError Unit × Session Store :=
  if callerCancelled || s.cancelled then (.error .cancelled, s.release)
  else
    let (prepared, planner) := s.planner.prepare m
    match prepared with
    | .error e => (.error e, { s.release with planner })
    | .ok (block, ps) => (.ok (), { s with planner, current := some (.ready block ps abandonable) })

theorem start_eq_proceed {Store : Type} (s : Session Store) (m : Mutation) (abandonable callerCancelled : Bool) :
    s.start m abandonable callerCancelled =
      if s.current.isSome then (.error .concurrent, s) else s.hold.proceed m abandonable callerCancelled := by
  obtain ⟨planner, store, cancelled, current⟩ := s
  cases current with
  | some phase => rfl
  | none =>
    simp only [start, proceed, hold, release, Option.isSome_none, Bool.false_eq_true, if_false]
    cases (planner.prepare m).1 <;> rfl

/-! ## Operations in steps -/

inductive Progress where
  /-- It has taken hold of the store. -/
  | admitted
  /-- Its block is about to run. -/
  | ready
  /-- The connection has its command. -/
  | sent (command : Sql.Command)
  | done (result : Except OperationError Nat)

structure Operation where
  mutation : Mutation
  /-- Whether it can be cancelled while it waits for the connection. -/
  abandonable : Bool
  /-- Whether its caller has cancelled it. -/
  cancelled : Bool
  progress : Progress

namespace Operation

def Holds (op : Operation) : Prop :=
  ∀ result, op.progress ≠ .done result

/-- Only an operation that can be abandoned hears from its caller. -/
def callerCancelled (op : Operation) : Bool :=
  op.abandonable && op.cancelled

inductive Move where
  /-- The operation takes its next step towards the connection. -/
  | advance
  /-- The connection answers. -/
  | finish (answer : Except String Nat)
  /-- The operation notices that it has been cancelled, and stops waiting for the connection. -/
  | abandon
  /-- The caller cancels the operation. -/
  | cancel

def advance (s : Session Remote) (op : Operation) : Operation × Session Remote × Option Sql.Command :=
  match op.progress with
  | .admitted =>
    match s.proceed op.mutation op.abandonable op.callerCancelled with
    | (.error e, s) => ({ op with progress := .done (.error e) }, s, none)
    | (.ok (), s) => ({ op with progress := .ready }, s, none)
  | .ready =>
    match s.reach op.callerCancelled with
    | (.done result, s) => ({ op with progress := .done result }, s, none)
    | (.sent c, s) => ({ op with progress := .sent c }, s, some c)
  | _ => (op, s, none)

def move (s : Session Remote) (op : Operation) : Move → Operation × Session Remote × Option Sql.Command
  | .advance => op.advance s
  | .finish answer =>
    match op.progress with
    | .sent _ => ({ op with progress := .done (s.finish answer).1 }, (s.finish answer).2, none)
    | _ => (op, s, none)
  | .abandon =>
    match op.progress with
    | .sent _ =>
      if op.abandonable && (op.cancelled || s.cancelled) then
        ({ op with progress := .done s.abandon.1 }, s.abandon.2, none)
      else (op, s, none)
    | _ => (op, s, none)
  | .cancel => ({ op with cancelled := true }, s, none)

end Operation

structure Traffic where
  session : Session Remote
  /-- The operations, in the order in which they have started. -/
  operations : List Operation := []
  /-- Whether the store is held without an operation. -/
  guarded : Bool := false
  /-- The commands that have gone to the connection, each with the number of its operation. -/
  log : List (Nat × Sql.Command) := []

namespace Traffic

inductive Event where
  | start (m : Mutation) (abandonable callerCancelled : Bool)
  | move (i : Nat) (move : Operation.Move)
  | cancel
  /-- The store is taken hold of without an operation. -/
  | hold
  | release

def step (t : Traffic) : Event → Traffic
  | .start m abandonable cancelled =>
    match t.session.current with
    | some _ =>
      { t with operations := t.operations ++ [⟨m, abandonable, cancelled, .done (.error .concurrent)⟩] }
    | none =>
      { t with
        session := t.session.hold
        operations := t.operations ++ [⟨m, abandonable, cancelled, .admitted⟩] }
  | .move i move =>
    match t.operations[i]? with
    | none => t
    | some op =>
      let (op, session, sent) := op.move t.session move
      { t with
        session
        operations := t.operations.set i op
        log := t.log ++ (sent.map fun c => (i, c)).toList }
  | .cancel => { t with session := t.session.cancel }
  | .hold => if t.session.current.isNone then { t with session := t.session.hold, guarded := true } else t
  | .release => if t.guarded then { t with session := t.session.release, guarded := false } else t

def run (t : Traffic) (events : List Event) : Traffic :=
  events.foldl step t

end Traffic

/-! ## Where an operation stands -/

def Commands (planner : Planner) (store : Remote) (m : Mutation) (c : Sql.Command) : Prop :=
  ∃ block ps, (planner.prepare m).1 = .ok (block, ps) ∧ block ≠ .affected .noop ∧
    Sql.Command.ofBlock store.dialect block ps store.maxParameters = .ok c

/-- The mutation has no command: it cannot be prepared, it writes nothing, or the dialect cannot express it. -/
inductive Silent (planner : Planner) (store : Remote) (m : Mutation) : Prop where
  | unprepared {e : OperationError} (failed : (planner.prepare m).1 = .error e)
  | noop {ps : Parameters} (prepared : (planner.prepare m).1 = .ok (.affected .noop, ps))
  | unrendered {block : Block} {ps : Parameters} {e : Sql.Error} (prepared : (planner.prepare m).1 = .ok (block, ps))
      (failed : Sql.Command.ofBlock store.dialect block ps store.maxParameters = .error e)

theorem Commands.not_silent {planner : Planner} {store : Remote} {m : Mutation} {c : Sql.Command}
    (h : Commands planner store m c) : ¬Silent planner store m := by
  obtain ⟨block, ps, prepared, writes, renders⟩ := h
  intro silent
  cases silent with
  | unprepared failed => rw [prepared] at failed; cases failed
  | noop nothing =>
    rw [prepared] at nothing
    exact writes (Prod.mk.inj (Except.ok.inj nothing)).1
  | unrendered prepared' failed =>
    rw [prepared] at prepared'
    obtain ⟨rfl, rfl⟩ := Prod.mk.inj (Except.ok.inj prepared')
    rw [renders] at failed
    cases failed

theorem command?_eq_some {store : Remote} {block : Block} {ps : Parameters} {c : Sql.Command}
    (h : command? store block ps = .ok (some c)) :
    block ≠ .affected .noop ∧ Sql.Command.ofBlock store.dialect block ps store.maxParameters = .ok c := by
  unfold command? at h
  split at h
  next => cases h
  next writes =>
    refine ⟨writes, ?_⟩
    cases renders : Sql.Command.ofBlock store.dialect block ps store.maxParameters with
    | error e => rw [renders] at h; cases h
    | ok c' => rw [renders] at h; exact congrArg Except.ok (Option.some.inj (Except.ok.inj h))

structure Serves (planner : Planner) (store : Remote) (s : Session Remote) : Prop where
  planner : s.planner.fresh = planner
  honest : s.planner.Honest
  store : s.store = store

theorem Serves.prepare {planner : Planner} {store : Remote} {s : Session Remote} (h : Serves planner store s)
    (m : Mutation) : (s.planner.prepare m).1 = (planner.prepare m).1 := by
  rw [h.honest.prepare_fresh, h.planner]

namespace Operation

/-- The operation stands where the session stands that it holds. -/
inductive Stands (planner : Planner) (op : Operation) : Phase → Prop where
  | admitted (progress : op.progress = .admitted) : Stands planner op .held
  | ready {block : Block} {ps : Parameters} (progress : op.progress = .ready)
      (prepared : (planner.prepare op.mutation).1 = .ok (block, ps)) :
      Stands planner op (.ready block ps op.abandonable)
  | sent {c : Sql.Command} (progress : op.progress = .sent c) : Stands planner op (.waiting c)

/-- What can become of an operation, of the session that it holds, and of its command. -/
inductive Moved (planner : Planner) (store : Remote) (s : Session Remote) (op : Operation) :
    Operation × Session Remote × Option Sql.Command → Prop where
  | stays (cancelled : Bool) : Moved planner store s op ({ op with cancelled }, s, none)
  | ends (held : op.Holds) (result : Except OperationError Nat) {s' : Session Remote} (serves : Serves planner store s')
      (free : s'.current = none) (same : s'.cancelled = s.cancelled) :
      Moved planner store s op ({ op with progress := .done result }, s', none)
  | readies {block : Block} {ps : Parameters} {s' : Session Remote} (before : op.progress = .admitted)
      (running : s.cancelled = false) (same : s'.cancelled = s.cancelled) (serves : Serves planner store s')
      (prepared : (planner.prepare op.mutation).1 = .ok (block, ps))
      (current : s'.current = some (.ready block ps op.abandonable)) :
      Moved planner store s op ({ op with progress := .ready }, s', none)
  | sends {c : Sql.Command} (before : op.progress = .ready) (running : op.abandonable = true → s.cancelled = false)
      (commands : Commands planner store op.mutation c) :
      Moved planner store s op
        ({ op with progress := .sent c }, { s with current := some (.waiting c) }, some c)

section

variable {planner : Planner} {store : Remote} {s : Session Remote} {op : Operation}

theorem moved_of_done (finished : ¬op.Holds) (move : Move) : Moved planner store s op (op.move s move) := by
  obtain ⟨m, abandonable, cancelled, progress⟩ := op
  cases progress with
  | done result =>
    cases move with
    | cancel => exact .stays true
    | advance | finish _ | abandon => exact .stays cancelled
  | admitted | ready | sent c => exact absurd (fun _ h => nomatch h) finished

theorem moved_of_admitted (serves : Serves planner store s) (before : op.progress = .admitted) :
    Moved planner store s op (op.advance s) := by
  have holds : op.Holds := fun _ h => nomatch before.symm.trans h
  unfold advance proceed
  rw [before]
  dsimp only
  by_cases stopped : (op.callerCancelled || s.cancelled) = true
  · rw [if_pos stopped]
    exact .ends holds _ ⟨serves.planner, serves.honest, serves.store⟩ rfl rfl
  rw [if_neg stopped, serves.prepare]
  have running : s.cancelled = false := by
    rw [Bool.or_eq_true, not_or] at stopped
    exact Bool.eq_false_iff.mpr stopped.2
  have prepared : Serves planner store { s with planner := (s.planner.prepare op.mutation).2 } :=
    ⟨(Planner.plan_fresh _ _).trans serves.planner, (serves.honest.plan op.mutation).1, serves.store⟩
  cases result : (planner.prepare op.mutation).1 with
  | error e => exact .ends holds _ ⟨prepared.planner, prepared.honest, prepared.store⟩ rfl rfl
  | ok made =>
    obtain ⟨block, ps⟩ := made
    exact .readies before running rfl ⟨prepared.planner, prepared.honest, prepared.store⟩ result rfl

theorem moved_of_ready {block : Block} {ps : Parameters} (serves : Serves planner store s)
    (current : s.current = some (.ready block ps op.abandonable)) (before : op.progress = .ready)
    (prepared : (planner.prepare op.mutation).1 = .ok (block, ps)) :
    Moved planner store s op (op.advance s) := by
  have holds : op.Holds := fun _ h => nomatch before.symm.trans h
  have released : Serves planner store s.release := ⟨serves.planner, serves.honest, serves.store⟩
  unfold advance reach
  rw [before, current]
  dsimp only
  by_cases stopped : (op.abandonable && (op.callerCancelled || s.cancelled)) = true
  · rw [if_pos stopped]
    exact .ends holds _ released rfl rfl
  rw [if_neg stopped]
  have running (abandonable : op.abandonable = true) : s.cancelled = false := by
    rw [abandonable, Bool.true_and, Bool.or_eq_true, not_or] at stopped
    exact Bool.eq_false_iff.mpr stopped.2
  cases command : command? s.store block ps with
  | error e => exact .ends holds _ released rfl rfl
  | ok c? =>
    cases c? with
    | none => exact .ends holds _ released rfl rfl
    | some c =>
      obtain ⟨writes, renders⟩ := command?_eq_some (serves.store ▸ command)
      exact .sends before running ⟨block, ps, prepared, writes, renders⟩

theorem moved_of_stands {phase : Phase} (serves : Serves planner store s) (current : s.current = some phase)
    (stands : op.Stands planner phase) (move : Move) : Moved planner store s op (op.move s move) := by
  have released : Serves planner store s.release := ⟨serves.planner, serves.honest, serves.store⟩
  cases move with
  | cancel => exact .stays true
  | advance =>
    cases stands with
    | admitted before => exact moved_of_admitted serves before
    | ready before prepared => exact moved_of_ready serves current before prepared
    | sent before => simp only [Operation.move, advance, before]; exact .stays op.cancelled
  | finish answer =>
    cases stands with
    | admitted before | ready before _ => simp only [Operation.move, before]; exact .stays op.cancelled
    | sent before =>
      -- an operation that has been sent holds the store until it ends
      have holds : op.Holds := fun _ h => nomatch before.symm.trans h
      simp only [Operation.move, before, finish, current]
      exact .ends holds _ released rfl rfl
  | abandon =>
    cases stands with
    | admitted before | ready before _ => simp only [Operation.move, before]; exact .stays op.cancelled
    | sent before =>
      have holds : op.Holds := fun _ h => nomatch before.symm.trans h
      simp only [Operation.move, before]
      split
      next => exact .ends holds _ released rfl rfl
      next => exact .stays op.cancelled

end

end Operation

end Session

end Setwise
