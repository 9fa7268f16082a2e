import Setwise.Proofs.OperationSteps

/-!
One operation at a time holds the connection of a session, and it sends at most one command.

Operations take their steps in any order, and between them the session or an operation may be cancelled and others may
hold the store without an operation. A run keeps every operation where the session stands that it holds (`Held`), and
keeps in its log only commands that a planner without plans makes of the mutations (`Logged`). What a cancelled session
may still send is up to the operation that had passed its last look for cancellation (`After`).
-/

set_option autoImplicit false

namespace Setwise

open Client Relational

namespace Session

/-! ## What every step preserves -/

namespace Traffic

def Holders (operations : List Operation) (P : Nat → Prop) : Prop :=
  ∀ (j : Nat) (op : Operation), operations[j]? = some op → op.Holds → P j

/-- Who holds the store: nobody, a caller without an operation, or one operation, which stands where the session
does. -/
inductive Held (planner : Planner) (t : Traffic) : Prop where
  | free (current : t.session.current = none) (unguarded : t.guarded = false)
      (nobody : Holders t.operations fun _ => False)
  | guarded (current : t.session.current = some .held) (guarded : t.guarded = true)
      (nobody : Holders t.operations fun _ => False)
  | operation {i : Nat} {op : Operation} {phase : Phase} (current : t.session.current = some phase)
      (unguarded : t.guarded = false) (has : t.operations[i]? = some op) (stands : op.Stands planner phase)
      (only : Holders t.operations (· = i))

/-- Each command in the log is the command of its operation, which has left the phases before sending, and no
operation has two. -/
structure Logged (planner : Planner) (store : Remote) (t : Traffic) : Prop where
  once : (t.log.map Prod.fst).Nodup
  commands : ∀ entry ∈ t.log, ∃ op, t.operations[entry.1]? = some op ∧ op.progress ≠ .admitted ∧
    op.progress ≠ .ready ∧ Commands planner store op.mutation entry.2

structure Orderly (planner : Planner) (store : Remote) (t : Traffic) : Prop where
  serves : Serves planner store t.session
  held : t.Held planner
  logged : t.Logged planner store

section

variable {planner : Planner} {store : Remote} {t : Traffic}

theorem Orderly.moved (h : t.Orderly planner store) {i : Nat} {op : Operation} (has : t.operations[i]? = some op)
    (move : Operation.Move) : Operation.Moved planner store t.session op (op.move t.session move) := by
  by_cases holds : op.Holds
  · cases h.held with
    | free _ _ nobody => exact (nobody i op has holds).elim
    | guarded _ _ nobody => exact (nobody i op has holds).elim
    | @operation j op' phase current unguarded has' stands only =>
      obtain rfl := only i op has holds
      obtain rfl := Option.some.inj (has.symm.trans has')
      exact Operation.moved_of_stands h.serves current stands move
  · exact Operation.moved_of_done holds move

def moveTo (t : Traffic) (i : Nat) (after : Operation × Session Remote × Option Sql.Command) : Traffic :=
  { t with
    session := after.2.1
    operations := t.operations.set i after.1
    log := t.log ++ (after.2.2.map fun c => (i, c)).toList }

theorem step_move {i : Nat} {op : Operation} (has : t.operations[i]? = some op) (move : Operation.Move) :
    t.step (.move i move) = t.moveTo i (op.move t.session move) := by
  simp only [step, has]
  rfl

theorem getElem?_set_eq_some {operations : List Operation} {i j : Nat} {op op' : Operation}
    (h : (operations.set i op)[j]? = some op') : j = i ∧ op' = op ∨ j ≠ i ∧ operations[j]? = some op' := by
  rw [List.getElem?_set] at h
  split at h
  next same =>
    split at h
    next => exact .inl ⟨same.symm, (Option.some.inj h).symm⟩
    next => cases h
  next differs => exact .inr ⟨Ne.symm differs, h⟩

theorem getElem?_append_eq_some {operations : List Operation} {j : Nat} {op op' : Operation}
    (h : (operations ++ [op])[j]? = some op') :
    j = operations.length ∧ op' = op ∨ operations[j]? = some op' := by
  rw [List.getElem?_append] at h
  split at h
  next => exact .inr h
  next beyond =>
    obtain ⟨inside, rfl⟩ := List.getElem?_eq_some_iff.mp h
    rw [List.length_singleton] at inside
    exact .inl ⟨by omega, List.getElem_singleton _⟩

/-! ### The log -/

theorem Logged.started (h : t.Logged planner store) (op : Operation) :
    ({ t with operations := t.operations ++ [op] } : Traffic).Logged planner store where
  once := h.once
  commands entry member := by
    obtain ⟨op', has, facts⟩ := h.commands entry member
    have inside := (List.getElem?_eq_some_iff.mp has).1
    exact ⟨op', (List.getElem?_append_left inside).trans has, facts⟩

theorem Logged.moved (h : t.Logged planner store) {i : Nat} {op : Operation} (has : t.operations[i]? = some op)
    {after : Operation × Session Remote × Option Sql.Command} (moved : op.Moved planner store t.session after) :
    (t.moveTo i after).Logged planner store := by
  have inside := (List.getElem?_eq_some_iff.mp has).1
  -- An operation that has left the phases before sending has left them for good, so old entries stay right.
  have old (entry : Nat × Sql.Command) (member : entry ∈ t.log) :
      ∃ op', (t.moveTo i after).operations[entry.1]? = some op' ∧ op'.progress ≠ .admitted ∧ op'.progress ≠ .ready ∧
        Commands planner store op'.mutation entry.2 := by
    obtain ⟨op', has', notAdmitted, notReady, commands⟩ := h.commands entry member
    by_cases same : i = entry.1
    · obtain rfl := same
      obtain rfl := Option.some.inj (has.symm.trans has')
      refine ⟨after.1, List.getElem?_set_self inside, ?_⟩
      cases moved with
      | stays => exact ⟨notAdmitted, notReady, commands⟩
      | ends => exact ⟨nofun, nofun, commands⟩
      | readies before => exact absurd before notAdmitted
      | sends before => exact absurd before notReady
    · exact ⟨op', (List.getElem?_set_ne same).trans has', notAdmitted, notReady, commands⟩
  cases moved with
  | stays | ends | readies =>
    refine ⟨?_, ?_⟩
    · simpa [moveTo] using h.once
    · intro entry member
      exact old entry (by simpa [moveTo] using member)
  | @sends c before running commands =>
    refine ⟨?_, ?_⟩
    · have first : i ∉ t.log.map Prod.fst := by
        intro listed
        obtain ⟨entry, member, rfl⟩ := List.mem_map.mp listed
        obtain ⟨op', has', -, notReady, -⟩ := h.commands entry member
        obtain rfl := Option.some.inj (has.symm.trans has')
        exact notReady before
      simpa [moveTo, List.nodup_append] using
        ⟨h.once, fun c c' member same => first (same ▸ List.mem_map_of_mem member)⟩
    · intro entry member
      rcases List.mem_append.mp member with earlier | now
      · exact old entry earlier
      · obtain rfl : entry = (i, c) := by simpa using now
        exact ⟨_, List.getElem?_set_self inside, nofun, nofun, commands⟩

/-! ### The holder -/

theorem not_holds_of_done {op : Operation} {result : Except OperationError Nat} (h : op.progress = .done result) :
    ¬op.Holds :=
  fun holds => holds result h

theorem Holders.append_first {operations : List Operation} (nobody : Holders operations fun _ => False)
    (op : Operation) : Holders (operations ++ [op]) (· = operations.length) := by
  intro j op' has holds
  rcases getElem?_append_eq_some has with ⟨last, -⟩ | earlier
  · exact last
  · exact (nobody j op' earlier holds).elim

theorem Holders.append_over {operations : List Operation} {P : Nat → Prop} (h : Holders operations P) {op : Operation}
    (finished : ¬op.Holds) : Holders (operations ++ [op]) P := by
  intro j op' has holds
  rcases getElem?_append_eq_some has with ⟨-, rfl⟩ | earlier
  · exact absurd holds finished
  · exact h j op' earlier holds

theorem Holders.set_over {operations : List Operation} {P : Nat → Prop} (h : Holders operations P) (i : Nat)
    {op : Operation} (finished : ¬op.Holds) : Holders (operations.set i op) fun j => j ≠ i ∧ P j := by
  intro j op' has holds
  rcases getElem?_set_eq_some has with ⟨-, rfl⟩ | ⟨differs, earlier⟩
  · exact absurd holds finished
  · exact ⟨differs, h j op' earlier holds⟩

theorem Holders.set_only {operations : List Operation} {i : Nat} (h : Holders operations (· = i)) (op : Operation) :
    Holders (operations.set i op) (· = i) := by
  intro j op' has holds
  rcases getElem?_set_eq_some has with ⟨same, -⟩ | ⟨-, earlier⟩
  · exact same
  · exact h j op' earlier holds

theorem Held.refused (h : t.Held planner) {op : Operation} (finished : ¬op.Holds) :
    ({ t with operations := t.operations ++ [op] } : Traffic).Held planner := by
  cases h with
  | free current unguarded nobody => exact .free current unguarded (nobody.append_over finished)
  | guarded current guarded nobody => exact .guarded current guarded (nobody.append_over finished)
  | operation current unguarded has stands only =>
    have inside := (List.getElem?_eq_some_iff.mp has).1
    exact .operation current unguarded ((List.getElem?_append_left inside).trans has) stands (only.append_over finished)

theorem Held.moved_holder {i : Nat} {op : Operation} {phase : Phase} (current : t.session.current = some phase)
    (unguarded : t.guarded = false) (has : t.operations[i]? = some op) (stands : op.Stands planner phase)
    (only : Holders t.operations (· = i)) {after : Operation × Session Remote × Option Sql.Command}
    (moved : op.Moved planner store t.session after) : (t.moveTo i after).Held planner := by
  have here (op' : Operation) : (t.operations.set i op')[i]? = some op' :=
    List.getElem?_set_self (List.getElem?_eq_some_iff.mp has).1
  cases moved with
  | stays cancelled =>
    refine .operation current unguarded (here _) ?_ (only.set_only _)
    cases stands with
    | admitted before => exact .admitted before
    | ready before prepared =>
      refine .ready ?_ ?_
      · exact before
      · exact prepared
    | sent before => exact .sent before
  | ends _ result _ free =>
    refine .free free unguarded fun j op' has' holds => ?_
    obtain ⟨differs, same⟩ := only.set_over i (not_holds_of_done rfl) j op' has' holds
    exact differs same
  | readies _ _ _ _ prepared current' =>
    refine .operation current' unguarded (here _) (.ready rfl ?_) (only.set_only _)
    exact prepared
  | sends => exact .operation rfl unguarded (here _) (.sent rfl) (only.set_only _)

theorem Held.moved (h : t.Held planner) {i : Nat} {op : Operation} (has : t.operations[i]? = some op)
    {after : Operation × Session Remote × Option Sql.Command} (moved : op.Moved planner store t.session after) :
    (t.moveTo i after).Held planner := by
  -- the operation that moves is the one that holds the store, or it changes nothing about that
  by_cases holds : op.Holds
  · cases h with
    | free _ _ nobody => exact (nobody i op has holds).elim
    | guarded _ _ nobody => exact (nobody i op has holds).elim
    | operation current unguarded has' stands only =>
      obtain rfl := only i op has holds
      obtain rfl := Option.some.inj (has.symm.trans has')
      exact moved_holder current unguarded has stands only moved
  · -- An operation that does not hold the store can only be cancelled.
    cases moved with
    | ends held => exact absurd held holds
    | readies before => exact absurd (fun _ done => nomatch before.symm.trans done) holds
    | sends before => exact absurd (fun _ done => nomatch before.symm.trans done) holds
    | stays cancelled =>
      have finished : ¬Operation.Holds { op with cancelled } := holds
      cases h with
      | free current unguarded nobody =>
        exact .free current unguarded fun j op' has' holds' => (nobody.set_over i finished j op' has' holds').2
      | guarded current guarded nobody =>
        exact .guarded current guarded fun j op' has' holds' => (nobody.set_over i finished j op' has' holds').2
      | @operation i' op' phase current unguarded has' stands only =>
        have apart : i ≠ i' := by
          rintro rfl
          obtain rfl := Option.some.inj (has.symm.trans has')
          cases stands with
          | admitted before | ready before _ | sent before => exact holds fun _ done => nomatch before.symm.trans done
        exact .operation current unguarded ((List.getElem?_set_ne apart).trans has') stands
          fun j op' has' holds' => (only.set_over i finished j op' has' holds').2

/-! ### Steps and runs -/

theorem Orderly.step (h : t.Orderly planner store) (event : Event) : (t.step event).Orderly planner store := by
  obtain ⟨serves, held, logged⟩ := h
  cases event with
  | start m abandonable cancelled =>
    cases current : t.session.current with
    | some phase =>
      -- a second operation is refused at once, and never holds the session
      simp only [Traffic.step, current]
      exact ⟨serves, held.refused (not_holds_of_done rfl), logged.started _⟩
    | none =>
      simp only [Traffic.step, current]
      have logged' := logged.started ⟨m, abandonable, cancelled, .admitted⟩
      refine ⟨⟨serves.planner, serves.honest, serves.store⟩, ?_, ⟨logged'.once, logged'.commands⟩⟩
      -- nobody held the session, so the new operation holds it alone
      cases held with
      | free _ unguarded nobody =>
        exact .operation rfl unguarded List.getElem?_concat_length (.admitted rfl) (nobody.append_first _)
      | guarded some => cases current.symm.trans some
      | operation some => cases current.symm.trans some
  | move i move =>
    cases has : t.operations[i]? with
    | none =>
      simp only [Traffic.step, has]
      exact ⟨serves, held, logged⟩
    | some op =>
      have moved := Orderly.moved ⟨serves, held, logged⟩ has move
      rw [step_move has]
      refine ⟨?_, held.moved has moved, logged.moved has moved⟩
      generalize op.move t.session move = after at moved
      cases moved with
      | stays => exact serves
      | ends _ _ serves' => exact serves'
      | readies _ _ _ serves' => exact serves'
      | sends => exact ⟨serves.planner, serves.honest, serves.store⟩
  | cancel =>
    refine ⟨⟨serves.planner, serves.honest, serves.store⟩, ?_, ⟨logged.once, logged.commands⟩⟩
    cases held with
    | free current unguarded nobody => exact .free current unguarded nobody
    | guarded current guarded nobody => exact .guarded current guarded nobody
    | operation current unguarded has stands only => exact .operation current unguarded has stands only
  | hold =>
    cases current : t.session.current with
    | some phase =>
      simp only [Traffic.step, current]
      exact ⟨serves, held, logged⟩
    | none =>
      simp only [Traffic.step, current]
      refine ⟨⟨serves.planner, serves.honest, serves.store⟩, ?_, ⟨logged.once, logged.commands⟩⟩
      cases held with
      | free _ _ nobody => exact .guarded rfl rfl nobody
      | guarded some => cases current.symm.trans some
      | operation some => cases current.symm.trans some
  | release =>
    cases guarded : t.guarded with
    | false =>
      simp only [Traffic.step, guarded]
      exact ⟨serves, held, logged⟩
    | true =>
      simp only [Traffic.step, guarded]
      refine ⟨⟨serves.planner, serves.honest, serves.store⟩, ?_, ⟨logged.once, logged.commands⟩⟩
      cases held with
      | guarded _ _ nobody => exact .free rfl rfl nobody
      | free _ unguarded => cases guarded.symm.trans unguarded
      | operation _ unguarded => cases guarded.symm.trans unguarded

theorem Orderly.induction {P : Traffic → Prop} (step : ∀ t event, t.Orderly planner store → P t → P (t.step event))
    (h : t.Orderly planner store) (first : P t) (events : List Event) : P (t.run events) := by
  induction events generalizing t with
  | nil => exact first
  | cons event rest ih => exact ih (h.step event) (step t event h first)

theorem Orderly.run (h : t.Orderly planner store) (events : List Event) : (t.run events).Orderly planner store :=
  h.induction (P := fun t => t.Orderly planner store) (fun _ event orderly _ => orderly.step event) h events

/-! ### What cannot send any more -/

def Over (t : Traffic) (i : Nat) (result : Except OperationError Nat) : Prop :=
  (∃ op, t.operations[i]? = some op ∧ op.progress = .done result) ∧ ∀ entry ∈ t.log, entry.1 ≠ i

theorem Over.step {i : Nat} {result : Except OperationError Nat} (h : t.Over i result)
    (orderly : t.Orderly planner store) (event : Event) : (t.step event).Over i result := by
  obtain ⟨⟨op, has, finished⟩, silent⟩ := h
  have inside := (List.getElem?_eq_some_iff.mp has).1
  cases event with
  | start m abandonable cancelled =>
    simp only [Traffic.step]
    split <;> exact ⟨⟨op, (List.getElem?_append_left inside).trans has, finished⟩, silent⟩
  | move j move =>
    cases has' : t.operations[j]? with
    | none =>
      simp only [Traffic.step, has']
      exact ⟨⟨op, has, finished⟩, silent⟩
    | some op' =>
      -- an operation that is over only stays as it is, and the others send nothing in its name
      have moved := orderly.moved has' move
      rw [step_move has']
      by_cases same : j = i
      · obtain rfl := same
        obtain rfl := Option.some.inj (has.symm.trans has')
        generalize op.move t.session move = after at moved
        cases moved with
        | stays cancelled => exact ⟨⟨_, List.getElem?_set_self inside, finished⟩, by simpa [moveTo] using silent⟩
        | ends held => exact absurd finished (held result)
        | readies before => cases before.symm.trans finished
        | sends before => cases before.symm.trans finished
      · refine ⟨⟨op, (List.getElem?_set_ne same).trans has, finished⟩, fun entry member => ?_⟩
        rcases List.mem_append.mp member with earlier | now
        · exact silent entry earlier
        · obtain ⟨c, -, rfl⟩ : ∃ c, _ = some c ∧ (j, c) = entry := by simpa using now
          exact same
  | cancel => exact ⟨⟨op, has, finished⟩, silent⟩
  | hold =>
    simp only [Traffic.step]
    split <;> exact ⟨⟨op, has, finished⟩, silent⟩
  | release =>
    simp only [Traffic.step]
    split <;> exact ⟨⟨op, has, finished⟩, silent⟩

def Committed (t : Traffic) (i : Nat) : Prop :=
  ∃ op, t.operations[i]? = some op ∧ op.progress = .ready ∧ op.abandonable = false

/-- What has become of cancelled traffic: only what was committed then can still send. -/
structure After (before t : Traffic) : Prop where
  cancelled : t.session.cancelled = true
  committed : ∀ i, t.Committed i → before.Committed i
  log : ∀ entry ∈ t.log, entry ∈ before.log ∨ before.Committed entry.1

theorem After.step {before : Traffic} (h : After before t) (orderly : t.Orderly planner store) (event : Event) :
    After before (t.step event) := by
  obtain ⟨cancelled, committed, log⟩ := h
  cases event with
  | start m abandonable callerCancelled =>
    have old (op : Operation) (notReady : op.progress ≠ .ready) (i : Nat)
        (later : ∃ op', (t.operations ++ [op])[i]? = some op' ∧ op'.progress = .ready ∧ op'.abandonable = false) :
        before.Committed i := by
      obtain ⟨op', has, ready, sync⟩ := later
      rcases getElem?_append_eq_some has with ⟨-, rfl⟩ | earlier
      · exact absurd ready notReady
      · exact committed i ⟨op', earlier, ready, sync⟩
    simp only [Traffic.step]
    split
    next => exact ⟨cancelled, old _ nofun, log⟩
    next => exact ⟨cancelled, old _ nofun, log⟩
  | move i move =>
    cases has : t.operations[i]? with
    | none =>
      simp only [Traffic.step, has]
      exact ⟨cancelled, committed, log⟩
    | some op =>
      have moved := orderly.moved has move
      rw [step_move has]
      generalize op.move t.session move = after at moved
      have old (same : after.1.progress = .ready → op.progress = .ready ∧ after.1.abandonable = op.abandonable)
          (j : Nat) (later : (t.moveTo i after).Committed j) : before.Committed j := by
        obtain ⟨op', has', ready, sync⟩ := later
        rcases getElem?_set_eq_some has' with ⟨rfl, rfl⟩ | ⟨-, earlier⟩
        · exact committed j ⟨op, has, (same ready).1, (same ready).2 ▸ sync⟩
        · exact committed j ⟨op', earlier, ready, sync⟩
      -- of all moves only `sends` adds to the log, and it sends what was committed before the cancellation
      cases moved with
      | stays _ => exact ⟨cancelled, old fun ready => ⟨ready, rfl⟩, by simpa [moveTo] using log⟩
      | ends _ _ _ _ same => exact ⟨same.trans cancelled, old nofun, by simpa [moveTo] using log⟩
      | readies _ running => cases cancelled.symm.trans running
      | sends ready running =>
        refine ⟨cancelled, old nofun, fun entry member => ?_⟩
        rcases List.mem_append.mp member with earlier | now
        · exact log entry earlier
        · obtain rfl : entry = (i, _) := by simpa using now
          refine .inr (committed i ⟨op, has, ready, ?_⟩)
          exact Bool.eq_false_iff.mpr fun abandonable => nomatch cancelled.symm.trans (running abandonable)
  | cancel => exact ⟨rfl, committed, log⟩
  | hold =>
    simp only [Traffic.step]
    split <;> exact ⟨cancelled, committed, log⟩
  | release =>
    simp only [Traffic.step]
    split <;> exact ⟨cancelled, committed, log⟩

end

/-! ## The result -/

/-- What holds of the operations on a session, of those that start now, and of those that start later. -/
structure Disciplined (planner : Planner) (store : Remote) (t : Traffic) : Prop where
  /-- At most one operation holds the store, and none while it is held without an operation. -/
  exclusive : ∀ (i j : Nat) (op op' : Operation), t.operations[i]? = some op → op.Holds →
    t.operations[j]? = some op' → op'.Holds → i = j
  guarded : t.guarded = true → ∀ op ∈ t.operations, ¬op.Holds
  /-- An operation that starts while the store is held leaves the session as it is, ends at once and never sends. -/
  refused : ∀ (m : Mutation) (abandonable cancelled : Bool), (t.guarded = true ∨ ∃ op ∈ t.operations, op.Holds) →
    (t.step (.start m abandonable cancelled)).session = t.session ∧
      ∀ later, ((t.step (.start m abandonable cancelled)).run later).Over t.operations.length (.error .concurrent)
  /-- After cancellation no operation that starts later sends, and of the earlier ones only one that was about to send
  and cannot be abandoned. -/
  cancelled : t.session.cancelled = true → ∀ later, ∀ entry ∈ (t.run later).log,
    entry.1 < t.operations.length ∧ (entry ∈ t.log ∨ t.Committed entry.1)
  /-- No operation sends twice. -/
  once : (t.log.map Prod.fst).Nodup
  /-- An operation sends only the command of its mutation, and nothing if that has none. -/
  commands : ∀ entry ∈ t.log, ∃ op, t.operations[entry.1]? = some op ∧ Commands planner store op.mutation entry.2
  silent : ∀ (i : Nat) (op : Operation), t.operations[i]? = some op → Silent planner store op.mutation →
    ∀ entry ∈ t.log, entry.1 ≠ i

theorem Orderly.disciplined {planner : Planner} {store : Remote} {t : Traffic} (h : t.Orderly planner store) :
    t.Disciplined planner store := by
  obtain ⟨serves, held, logged⟩ := id h
  have known (entry : Nat × Sql.Command) (member : entry ∈ t.log) : entry.1 < t.operations.length := by
    obtain ⟨op, has, -⟩ := logged.commands entry member
    exact (List.getElem?_eq_some_iff.mp has).1
  refine ⟨?exclusive, ?guarded, ?refused, ?cancelled, logged.once, ?commands, ?silent⟩
  case exclusive =>
    intro i j op op' has holds has' holds'
    cases held with
    | free _ _ nobody => exact (nobody i op has holds).elim
    | guarded _ _ nobody => exact (nobody i op has holds).elim
    | operation _ _ _ _ only => exact (only i op has holds).trans (only j op' has' holds').symm
  case guarded =>
    intro guarded op member holds
    obtain ⟨i, has⟩ := List.mem_iff_getElem?.mp member
    cases held with
    | guarded _ _ nobody => exact nobody i op has holds
    | free _ unguarded => cases guarded.symm.trans unguarded
    | operation _ unguarded => cases guarded.symm.trans unguarded
  case refused =>
    intro m abandonable cancelled taken
    have current : ∃ phase, t.session.current = some phase := by
      cases held with
      | guarded current => exact ⟨_, current⟩
      | operation current => exact ⟨_, current⟩
      | free _ unguarded nobody =>
        rcases taken with guarded | ⟨op, member, holds⟩
        · cases guarded.symm.trans unguarded
        · obtain ⟨i, has⟩ := List.mem_iff_getElem?.mp member
          exact (nobody i op has holds).elim
    -- the refused operation is over from the start, and stays so through every later event
    obtain ⟨phase, current⟩ := current
    refine ⟨by simp only [Traffic.step, current], fun later => ?_⟩
    refine (h.step _).induction (P := fun t' => t'.Over t.operations.length (.error .concurrent))
      (fun _ event orderly finished => finished.step orderly event) ?_ later
    simp only [Traffic.step, current]
    refine ⟨⟨_, List.getElem?_concat_length, rfl⟩, fun entry member => ?_⟩
    exact Nat.ne_of_lt (known entry member)
  case cancelled =>
    intro cancelled later entry member
    -- `After t` holds of `t` itself, and every event keeps it
    have after : After t (t.run later) :=
      h.induction (P := After t) (fun t event orderly after => after.step orderly event)
        ⟨cancelled, fun _ committed => committed, fun _ member => .inl member⟩ later
    refine ⟨?_, after.log entry member⟩
    rcases after.log entry member with earlier | ⟨op, has, -⟩
    · exact known entry earlier
    · exact (List.getElem?_eq_some_iff.mp has).1
  case commands =>
    intro entry member
    obtain ⟨op, has, -, -, commands⟩ := logged.commands entry member
    exact ⟨op, has, commands⟩
  case silent =>
    rintro i op has silent entry member rfl
    obtain ⟨op', has', -, -, commands⟩ := logged.commands entry member
    obtain rfl := Option.some.inj (has.symm.trans has')
    exact commands.not_silent silent

def opened (model : Model) (store : Remote) (cachePlans : Bool) : Traffic where
  session := remote model store cachePlans

theorem opened_orderly (model : Model) (store : Remote) (cachePlans : Bool) :
    (opened model store cachePlans).Orderly { model, capabilities := store.dialect.capabilities, cachePlans := false }
      store where
  serves := ⟨rfl, Planner.honest_of_no_plans rfl, rfl⟩
  held := .free rfl rfl fun _ _ has => nomatch List.getElem?_nil.symm.trans has
  logged := ⟨List.nodup_nil, fun _ member => nomatch List.not_mem_nil member⟩

/-- Whatever happens on a session in whatever order, one operation at a time holds the store, what starts meanwhile or
after cancellation sends nothing, and each operation sends at most the command of its mutation. -/
theorem operations_are_disciplined (model : Model) (store : Remote) (cachePlans : Bool) (events : List Event) :
    ((opened model store cachePlans).run events).Disciplined
      { model, capabilities := store.dialect.capabilities, cachePlans := false } store :=
  ((opened_orderly model store cachePlans).run events).disciplined

def tags : Model :=
  ⟨[(Entity.mapped "Tag" "Tags").withProperty ⟨"Name", "Name", .text, false, false⟩]⟩

/-- The first operation sends its command and is then cancelled with the session. The second starts too early, and the
third too late. -/
example :
    let clear := Mutation.delete (.set "Tag")
    let t := (opened tags { dialect := .sqlite } true).run
      [.start clear true false, .start clear false false, .move 0 .advance, .move 0 .advance, .cancel, .move 0 .abandon,
        .start clear false false, .move 2 .advance]
    t.log.map Prod.fst = [0] ∧ t.operations.map Operation.progress =
      [.done (.error .cancelled), .done (.error .concurrent), .done (.error .cancelled)] :=
  ⟨rfl, rfl⟩

end Traffic

end Session

end Setwise
