import Mathlib.Data.List.Forall2
import Setwise.Proofs.PlannedMutations

/-!
Keeping plans changes no answer.

A call looks its form up in one step and keeps the plan that it has made in another, and between the two any other calls
may take steps. What every step preserves is that the planner holds one plan for each form that a call has finished
with, the plan of that form (`Keeps`), and that every finished call has the answer of a planner without plans
(`Call.Right`). Since different forms have different keys, a plan that is found is the plan of the form that it is
looked up for.
-/

set_option autoImplicit false

namespace Setwise

open Client Relational

namespace Planner

/-! ## Calls in steps -/

inductive Call where
  /-- The call has not begun. -/
  | waiting (m : Mutation)
  /-- No plan was kept for the form when it was looked up. -/
  | missed (m form : Mutation) (ps : Parameters)
  /-- The call has returned. -/
  | done (m : Mutation) (result : Except Planning.Error (Plan × Parameters))

def Call.mutation : Call → Mutation
  | waiting m => m
  | missed m _ _ => m
  | done m _ => m

def Call.result? : Call → Option (Except Planning.Error (Plan × Parameters))
  | done _ result => some result
  | _ => none

def Call.form? : Call → Option Mutation
  | done m (.ok _) => m.lift.toOption.map Prod.fst
  | _ => none

def Call.stepsLeft : Call → Nat
  | waiting _ => 2
  | missed .. => 1
  | done .. => 0

def advance (c : Planner) : Call → Call × Planner
  | .waiting m =>
    match m.lift with
    | .error e => (.done m (.error (.lifting e)), c)
    | .ok (form, ps) =>
      match c.find? form with
      | some plan => (.done m (.ok (plan, ps)), c)
      | none => (.missed m form ps, c)
  | .missed m form ps =>
    match planOf c.model c.capabilities form with
    | .error e => (.done m (.error e), c)
    | .ok plan => (.done m (.ok (plan, ps)), c.keep form plan)
  | .done m result => (.done m result, c)

inductive Advances (c : Planner) : Call → Call × Planner → Prop where
  | unlifted {m : Mutation} {e : Parameters.Error} (failed : m.lift = .error e) :
      Advances c (.waiting m) (.done m (.error (.lifting e)), c)
  | found {m form : Mutation} {ps : Parameters} {plan : Plan} (lifted : m.lift = .ok (form, ps))
      (found : c.find? form = some plan) : Advances c (.waiting m) (.done m (.ok (plan, ps)), c)
  | missed {m form : Mutation} {ps : Parameters} (lifted : m.lift = .ok (form, ps)) (missing : c.find? form = none) :
      Advances c (.waiting m) (.missed m form ps, c)
  | unplanned {m form : Mutation} {ps : Parameters} {e : Planning.Error}
      (failed : planOf c.model c.capabilities form = .error e) :
      Advances c (.missed m form ps) (.done m (.error e), c)
  | planned {m form : Mutation} {ps : Parameters} {plan : Plan}
      (made : planOf c.model c.capabilities form = .ok plan) :
      Advances c (.missed m form ps) (.done m (.ok (plan, ps)), c.keep form plan)
  | done {m : Mutation} {result : Except Planning.Error (Plan × Parameters)} :
      Advances c (.done m result) (.done m result, c)

theorem advances (c : Planner) (call : Call) : Advances c call (c.advance call) := by
  cases call with
  | waiting m =>
    unfold advance
    dsimp only
    split
    next e failed => exact .unlifted failed
    next form ps lifted =>
      split
      next plan found => exact .found lifted found
      next missing => exact .missed lifted missing
  | missed m form ps =>
    unfold advance
    dsimp only
    split
    next e failed => exact .unplanned failed
    next plan made => exact .planned made
  | done m result => exact .done

theorem advance_advance (c : Planner) (m : Mutation) :
    (c.advance (.waiting m)).2.advance (c.advance (.waiting m)).1 = (.done m (c.plan m).1, (c.plan m).2) := by
  unfold Planner.plan
  cases lifted : m.lift with
  | error e => simp only [advance, lifted]
  | ok result =>
    obtain ⟨form, ps⟩ := result
    cases found : c.find? form with
    | some plan => simp only [advance, lifted, found]
    | none =>
      simp only [advance, lifted, found]
      cases planOf c.model c.capabilities form <;> rfl

structure Shared where
  planner : Planner
  calls : List Call

namespace Shared

def step (s : Shared) (i : Nat) : Shared :=
  match s.calls[i]? with
  | none => s
  | some call => ⟨(s.planner.advance call).2, s.calls.set i (s.planner.advance call).1⟩

def run (s : Shared) (schedule : List Nat) : Shared :=
  schedule.foldl step s

def start (c : Planner) (mutations : List Mutation) : Shared :=
  ⟨c, mutations.map .waiting⟩

end Shared

def answer (c : Planner) (m : Mutation) : Except Planning.Error (Plan × Parameters) :=
  match m.lift with
  | .error e => .error (.lifting e)
  | .ok (form, ps) => (planOf c.model c.capabilities form).map fun plan => (plan, ps)

theorem plan_of_not_caching {c : Planner} (notCaching : c.cachePlans = false) (m : Mutation) :
    c.plan m = (c.answer m, c) := by
  unfold Planner.plan answer
  cases m.lift with
  | error e => rfl
  | ok result =>
    have notFound : c.find? result.1 = none := by simp [find?, notCaching]
    simp only [notFound]
    cases planOf c.model c.capabilities result.1 with
    | error e => rfl
    | ok plan => simp [keep, notCaching, Except.map]

/-! ## The plans that are kept -/

def Files (c : Planner) (entry : String × Plan) (form : Mutation) : Prop :=
  entry.1 = c.key form ∧ planOf c.model c.capabilities form = .ok entry.2

structure Keeps (c : Planner) (forms : List Mutation) : Prop where
  distinct : forms.Nodup
  plans : List.Forall₂ c.Files c.plans forms

theorem lookup_files {c : Planner} {plans : List (String × Plan)} {forms : List Mutation}
    (files : List.Forall₂ c.Files plans forms) {form : Mutation} {plan : Plan}
    (found : plans.lookup (c.key form) = some plan) :
    form ∈ forms ∧ planOf c.model c.capabilities form = .ok plan := by
  induction files with
  | nil => cases found
  | @cons entry other plans forms filed others ih =>
    obtain ⟨k, p⟩ := entry
    obtain ⟨rfl, made⟩ := filed
    rw [List.lookup_cons] at found
    split at found
    next same =>
      obtain rfl := eq_of_key (eq_of_beq same)
      obtain rfl := Option.some.inj found
      exact ⟨List.mem_cons_self, made⟩
    next =>
      obtain ⟨known, made⟩ := ih found
      exact ⟨List.mem_cons_of_mem _ known, made⟩

theorem Keeps.of_find? {c : Planner} {forms : List Mutation} (keeps : c.Keeps forms) {form : Mutation} {plan : Plan}
    (found : c.find? form = some plan) : form ∈ forms ∧ planOf c.model c.capabilities form = .ok plan := by
  unfold find? at found
  split at found
  · exact lookup_files keeps.plans found
  · cases found

theorem files_setPlan {c : Planner} {plans : List (String × Plan)} {forms : List Mutation}
    (files : List.Forall₂ c.Files plans forms) (distinct : forms.Nodup) {form : Mutation} {plan : Plan}
    (made : planOf c.model c.capabilities form = .ok plan) : ∃ forms', forms'.Nodup ∧
      List.Forall₂ c.Files (setPlan (c.key form) plan plans) forms' ∧ ∀ x, x ∈ forms' ↔ x ∈ forms ∨ x = form := by
  induction files with
  | nil => exact ⟨[form], List.nodup_singleton form, .cons ⟨rfl, made⟩ .nil, by simp⟩
  | @cons entry other plans forms filed others ih =>
    obtain ⟨k, p⟩ := entry
    obtain ⟨new, rest⟩ := List.nodup_cons.mp distinct
    unfold setPlan
    split
    next same =>
      -- one key belongs to one form, so the entry that is replaced was filed for the same form
      obtain rfl := eq_of_key (filed.1.symm.trans same)
      refine ⟨other :: forms, distinct, .cons ⟨rfl, made⟩ others, fun x => ?_⟩
      rw [List.mem_cons]
      tauto
    next differs =>
      obtain ⟨forms', distinct', files', known⟩ := ih rest
      have apart : other ≠ form := by
        rintro rfl
        exact differs filed.1
      refine ⟨other :: forms', List.nodup_cons.mpr ⟨?_, distinct'⟩, .cons filed files', fun x => ?_⟩
      · rw [known]
        tauto
      · rw [List.mem_cons, List.mem_cons, known]
        tauto

theorem Keeps.keep {c : Planner} {forms : List Mutation} (keeps : c.Keeps forms) (caching : c.cachePlans = true)
    {form : Mutation} {plan : Plan} (made : planOf c.model c.capabilities form = .ok plan) :
    ∃ forms', (c.keep form plan).Keeps forms' ∧ ∀ x, x ∈ forms' ↔ x ∈ forms ∨ x = form := by
  obtain ⟨forms', distinct, files, known⟩ := files_setPlan keeps.plans keeps.distinct made
  refine ⟨forms', ⟨distinct, ?_⟩, known⟩
  unfold Planner.keep
  rw [if_pos caching]
  exact files

/-! ## What a step preserves -/

/-- What holds of a call between its steps: it has been lifted, or it has the answer of a planner without plans. -/
def Call.Right (c : Planner) : Call → Prop
  | waiting _ => True
  | missed m form ps => m.lift = .ok (form, ps)
  | done m result => result = c.answer m

theorem answer_of_planOf {c : Planner} {m form : Mutation} {ps : Parameters} (lifted : m.lift = .ok (form, ps)) :
    c.answer m = (planOf c.model c.capabilities form).map fun plan => (plan, ps) := by
  simp only [answer, lifted]

section

variable {c c' : Planner} {call call' : Call}

theorem Advances.mutation (h : Advances c call (call', c')) : call'.mutation = call.mutation := by
  cases h <;> rfl

theorem Advances.stepsLeft (h : Advances c call (call', c')) : call'.stepsLeft ≤ call.stepsLeft - 1 := by
  cases h <;> simp [Call.stepsLeft]

theorem Advances.settings (h : Advances c call (call', c')) : c' = { c with plans := c'.plans } := by
  cases h with
  | planned =>
    unfold Planner.keep
    split <;> rfl
  | unlifted | found | missed | unplanned | done => rfl

theorem Advances.unchanged_or_succeeded (h : Advances c call (call', c')) :
    c' = c ∨ ∃ m plan ps, call' = .done m (.ok (plan, ps)) := by
  cases h with
  | planned => exact .inr ⟨_, _, _, rfl⟩
  | unlifted | found | missed | unplanned | done => exact .inl rfl

theorem Advances.right {forms : List Mutation} (h : Advances c call (call', c')) (keeps : c.Keeps forms)
    (right : call.Right c) : call'.Right c := by
  cases h with
  | unlifted failed => simp only [Call.Right, answer, failed]
  | found lifted found => simp only [Call.Right, answer_of_planOf lifted, (keeps.of_find? found).2, Except.map]
  | missed lifted missing => exact lifted
  | unplanned failed => simp only [Call.Right, answer_of_planOf right, failed, Except.map]
  | planned made => simp only [Call.Right, answer_of_planOf right, made, Except.map]
  | done => exact right

theorem Advances.of_form? {form : Mutation} (h : Advances c call (call', c')) (finished : call.form? = some form) :
    call' = call := by
  cases h with
  | done => rfl
  | unlifted | found | missed | unplanned | planned => cases finished

theorem Advances.keeps {forms : List Mutation} (h : Advances c call (call', c')) (caching : c.cachePlans = true)
    (keeps : c.Keeps forms) (right : call.Right c) (known : ∀ form, call.form? = some form → form ∈ forms) :
    ∃ forms', c'.Keeps forms' ∧ ∀ x, x ∈ forms' ↔ x ∈ forms ∨ call'.form? = some x := by
  cases h with
  | unlifted | missed | unplanned => exact ⟨forms, keeps, fun x => by simp [Call.form?]⟩
  | @found m form ps plan lifted found =>
    have before := (keeps.of_find? found).1
    refine ⟨forms, keeps, fun x => ⟨.inl, fun m => m.elim id fun last => ?_⟩⟩
    obtain rfl : form = x := by simpa [Call.form?, lifted, Except.toOption] using last
    exact before
  | @planned m form ps plan made =>
    obtain ⟨forms', keeps', known'⟩ := keeps.keep caching made
    have lifted : m.lift = .ok (form, ps) := right
    refine ⟨forms', keeps', fun x => ?_⟩
    rw [known']
    simp [Call.form?, lifted, Except.toOption, eq_comm]
  | done => exact ⟨forms, keeps, fun x => ⟨.inl, fun m => m.elim id (known x)⟩⟩

end

/-! ## Runs -/

namespace Shared

variable {c : Planner} {s : Shared}

/-- What holds of a planner and its calls between steps, if they have started with the given planner. -/
structure Consistent (c : Planner) (s : Shared) : Prop where
  /-- The settings of the planner are those that it started with. -/
  settings : s.planner = { c with plans := s.planner.plans }
  calls : ∀ (i : Nat) (call : Call), s.calls[i]? = some call → call.Right c
  /-- There is one plan for each form of a call that has succeeded. -/
  kept : ∃ forms, s.planner.Keeps forms ∧ ∀ form, form ∈ forms ↔ form ∈ s.calls.filterMap Call.form?

theorem Consistent.right (h : s.Consistent c) {i : Nat} {call : Call} (has : s.calls[i]? = some call) :
    call.Right s.planner := by
  have right := h.calls i call has
  rw [h.settings]
  cases call <;> exact right

theorem mem_forms_set {calls : List Call} {i : Nat} {call call' : Call} (has : calls[i]? = some call)
    (stays : ∀ form, call.form? = some form → call' = call) (form : Mutation) :
    form ∈ (calls.set i call').filterMap Call.form? ↔
      form ∈ calls.filterMap Call.form? ∨ call'.form? = some form := by
  have inside : i < calls.length := (List.getElem?_eq_some_iff.mp has).1
  rw [List.mem_filterMap, List.mem_filterMap]
  constructor
  · rintro ⟨x, member, finished⟩
    rcases List.mem_or_eq_of_mem_set member with old | rfl
    · exact .inl ⟨x, old, finished⟩
    · exact .inr finished
  · rintro (⟨x, member, finished⟩ | finished)
    · obtain ⟨j, there⟩ := List.mem_iff_getElem?.mp member
      by_cases same : i = j
      · obtain rfl := same
        obtain rfl := Option.some.inj (has.symm.trans there)
        exact ⟨call', List.mem_set inside call', stays form finished ▸ finished⟩
      · exact ⟨x, List.mem_iff_getElem?.mpr ⟨j, (List.getElem?_set_ne same).trans there⟩, finished⟩
    · exact ⟨call', List.mem_set inside call', finished⟩

theorem Consistent.step (caching : c.cachePlans = true) (h : s.Consistent c) (i : Nat) : (s.step i).Consistent c := by
  unfold Shared.step
  split
  next => exact h
  next call has =>
    obtain ⟨forms, keeps, known⟩ := h.kept
    have advanced := s.planner.advances call
    generalize s.planner.advance call = after at advanced
    obtain ⟨call', planner'⟩ := after
    have caches : s.planner.cachePlans = true := by
      rw [h.settings]
      exact caching
    -- a call that has finished had its form filed
    have before (form : Mutation) (finished : call.form? = some form) : form ∈ forms :=
      (known form).mpr (List.mem_filterMap.mpr ⟨call, List.mem_of_getElem? has, finished⟩)
    refine ⟨?_, ?_, ?_⟩
    · rw [advanced.settings, h.settings]
    · intro j other there
      rw [List.getElem?_set] at there
      split at there
      next =>
        split at there
        · obtain rfl := Option.some.inj there
          have right := advanced.right keeps (h.right has)
          rw [h.settings] at right
          cases call' <;> exact right
        · cases there
      next => exact h.calls j other there
    · obtain ⟨forms', keeps', known'⟩ := advanced.keeps caches keeps (h.right has) before
      refine ⟨forms', keeps', fun form => ?_⟩
      rw [known', known, mem_forms_set has fun _ => advanced.of_form?]

theorem Consistent.run (caching : c.cachePlans = true) (h : s.Consistent c) (schedule : List Nat) :
    (s.run schedule).Consistent c := by
  induction schedule generalizing s with
  | nil => exact h
  | cons i rest ih => exact ih (h.step caching i)

theorem start_consistent (c : Planner) (none : c.plans = []) (mutations : List Mutation) :
    (start c mutations).Consistent c where
  settings := rfl
  calls i call has := by
    obtain ⟨m, -, rfl⟩ := List.mem_map.mp (List.mem_of_getElem? has)
    trivial
  kept := by
    refine ⟨[], ⟨List.nodup_nil, ?_⟩, fun form => ?_⟩
    · change List.Forall₂ _ c.plans []
      rw [none]
      exact .nil
    · simp [start, Call.form?]

/-! ### Calls return -/

theorem step_mutations (s : Shared) (i : Nat) : (s.step i).calls.map Call.mutation = s.calls.map Call.mutation := by
  unfold Shared.step
  split
  next => rfl
  next call has =>
    have same : (s.planner.advance call).1.mutation = call.mutation := (s.planner.advances call).mutation
    apply List.ext_getElem?
    intro j
    rw [List.map_set, same, List.getElem?_set]
    split
    next at_i =>
      obtain rfl := at_i
      rw [if_pos (by simpa using (List.getElem?_eq_some_iff.mp has).1), List.getElem?_map, has, Option.map_some]
    next => rfl

theorem run_mutations (s : Shared) (schedule : List Nat) :
    (s.run schedule).calls.map Call.mutation = s.calls.map Call.mutation := by
  induction schedule generalizing s with
  | nil => rfl
  | cons i rest ih => exact (ih (s.step i)).trans (s.step_mutations i)

theorem step_stepsLeft {i j k : Nat} {call : Call} (has : s.calls[i]? = some call) (left : call.stepsLeft ≤ k) :
    ∃ call', (s.step j).calls[i]? = some call' ∧ call'.stepsLeft ≤ k - [j].count i := by
  by_cases same : j = i
  · obtain rfl := same
    have inside := (List.getElem?_eq_some_iff.mp has).1
    refine ⟨(s.planner.advance call).1, ?_, ?_⟩
    · unfold Shared.step
      simp only [has, List.getElem?_set_self inside]
    · have fewer : (s.planner.advance call).1.stepsLeft ≤ call.stepsLeft - 1 := (s.planner.advances call).stepsLeft
      rw [List.count_singleton_self]
      omega
  · refine ⟨call, ?_, by simpa [List.count_singleton, same] using left⟩
    unfold Shared.step
    split
    next => exact has
    next => exact (List.getElem?_set_ne same).trans has

theorem run_stepsLeft (schedule : List Nat) {i k : Nat} {call : Call} (has : s.calls[i]? = some call)
    (left : call.stepsLeft ≤ k) :
    ∃ call', (s.run schedule).calls[i]? = some call' ∧ call'.stepsLeft ≤ k - schedule.count i := by
  induction schedule generalizing s call k with
  | nil => exact ⟨call, has, by simpa using left⟩
  | cons j rest ih =>
    obtain ⟨next, there, less⟩ := step_stepsLeft (j := j) has left
    obtain ⟨last, finally', least⟩ := ih there less
    refine ⟨last, finally', ?_⟩
    rw [List.count_cons]
    rw [List.count_singleton] at least
    omega

/-! ### One call after another -/

def inTurn (first number : Nat) : List Nat :=
  (List.range' first number).flatMap fun i => [i, i]

theorem step_at (c : Planner) (front behind : List Call) (call : Call) :
    Shared.step ⟨c, front ++ call :: behind⟩ front.length =
      ⟨(c.advance call).2, front ++ (c.advance call).1 :: behind⟩ := by
  simp [Shared.step]

end Shared

def planEach (c : Planner) : List Mutation → List (Except Planning.Error (Plan × Parameters)) × Planner
  | [] => ([], c)
  | m :: rest => ((c.plan m).1 :: (planEach (c.plan m).2 rest).1, (planEach (c.plan m).2 rest).2)

namespace Shared

theorem run_inTurn (c : Planner) (front : List Call) (mutations : List Mutation) :
    Shared.run ⟨c, front ++ mutations.map .waiting⟩ (inTurn front.length mutations.length) =
      ⟨(c.planEach mutations).2, front ++ List.zipWith .done mutations (c.planEach mutations).1⟩ := by
  induction mutations generalizing c front with
  | nil => rfl
  | cons m rest ih =>
    have turns : inTurn front.length (m :: rest).length =
        front.length :: front.length :: inTurn (front ++ [Call.done m (c.plan m).1]).length rest.length := by
      simp [inTurn, List.range'_succ]
    have one (front : List Call) (call : Call) (behind : List Call) :
        front ++ call :: behind = front ++ [call] ++ behind := by simp
    rw [turns]
    change Shared.run (Shared.step (Shared.step ⟨c, front ++ .waiting m :: rest.map .waiting⟩ _) _) _ = _
    rw [step_at, step_at, advance_advance, one, ih]
    simp [planEach]

end Shared

/-! ## The result -/

/-- What a planner has done that keeps its plans, after the calls for some mutations have taken some steps. -/
structure Transparent (c : Planner) (mutations : List Mutation) (schedule : List Nat) : Prop where
  /-- A call that has returned has the answer of a planner without plans that keeps none, and two steps suffice. -/
  answers : ∀ (i : Nat) (m : Mutation), mutations[i]? = some m → ∃ call,
    ((Shared.start c mutations).run schedule).calls[i]? = some call ∧ call.mutation = m ∧
      (2 ≤ schedule.count i → call.result?.isSome) ∧
      ∀ result, call.result? = some result → result = ({ c with cachePlans := false, plans := [] }.plan m).1
  /-- A further step changes no plans, or the call that takes it succeeds with it. -/
  failures : ∀ i, (((Shared.start c mutations).run schedule).step i).planner =
      ((Shared.start c mutations).run schedule).planner ∨
    ∃ m plan ps, (((Shared.start c mutations).run schedule).step i).calls[i]? = some (.done m (.ok (plan, ps)))
  /-- The plans are in order those of the different forms that calls have succeeded with. -/
  kept : ∃ forms : List Mutation, forms.Nodup ∧
    (∀ form, form ∈ forms ↔ form ∈ ((Shared.start c mutations).run schedule).calls.filterMap Call.form?) ∧
    List.Forall₂ (fun entry form => entry.1 = c.key form ∧ planOf c.model c.capabilities form = .ok entry.2)
      ((Shared.start c mutations).run schedule).planner.plans forms
  /-- Forms with one key have one plan. -/
  keys : ∀ form form', c.key form = c.key form' → planOf c.model c.capabilities form = planOf c.model c.capabilities form'
  /-- Calls one after another are calls that take their steps in turn. -/
  inTurn : (Shared.start c mutations).run (Shared.inTurn 0 mutations.length) =
    ⟨(c.planEach mutations).2, List.zipWith .done mutations (c.planEach mutations).1⟩

/-- Keeping plans changes no answer, in whatever order calls look plans up and keep them. -/
theorem plan_cache_is_transparent (model : Model) (capabilities : Capabilities) (byNumber : Char → Bool)
    (mutations : List Mutation) (schedule : List Nat) :
    Transparent { model, capabilities, cachePlans := true, byNumber, plans := [] } mutations schedule := by
  generalize begins : ({ model, capabilities, cachePlans := true, byNumber, plans := [] } : Planner) = c
  have caching : c.cachePlans = true := by rw [← begins]
  have none : c.plans = [] := by rw [← begins]
  have consistent := (Shared.start_consistent c none mutations).run caching schedule
  refine ⟨?answers, ?failures, ?kept, ?keys, ?inTurn⟩
  case answers =>
    intro i m has
    have waiting : (Shared.start c mutations).calls[i]? = some (.waiting m) := by
      simp [Shared.start, has]
    obtain ⟨call, there, left⟩ := Shared.run_stepsLeft schedule waiting (Nat.le_refl 2)
    have same : call.mutation = m := by
      have mutations := congrArg (·[i]?) (Shared.run_mutations (Shared.start c mutations) schedule)
      simpa [there, waiting, Call.mutation] using mutations
    -- a call takes two steps, and each of its turns in the schedule is one of them
    have right := consistent.calls i call there
    refine ⟨call, there, same, ?_, ?_⟩
    · intro twice
      cases call with
      | waiting =>
        change 2 ≤ 2 - schedule.count i at left
        omega
      | missed =>
        change 1 ≤ 2 - schedule.count i at left
        omega
      | done => rfl
    · intro result returned
      rw [plan_of_not_caching rfl]
      cases call with
      | waiting => cases returned
      | missed => cases returned
      | done m' result' =>
        obtain rfl : m' = m := same
        obtain rfl := Option.some.inj returned
        exact right
  case failures =>
    intro i
    generalize (Shared.start c mutations).run schedule = s
    unfold Shared.step
    split
    next => exact .inl rfl
    next call has =>
      -- only a call that has planned files anything
      rcases (s.planner.advances call).unchanged_or_succeeded with unchanged | ⟨m, plan, ps, succeeded⟩
      · exact .inl unchanged
      · refine .inr ⟨m, plan, ps, ?_⟩
        rw [← succeeded]
        exact List.getElem?_set_self (List.getElem?_eq_some_iff.mp has).1
  case kept =>
    obtain ⟨forms, keeps, known⟩ := consistent.kept
    refine ⟨forms, keeps.distinct, known, keeps.plans.imp fun entry form filed => ?_⟩
    unfold Files at filed
    rw [consistent.settings] at filed
    exact filed
  case keys =>
    intro form form' same
    rw [eq_of_key same]
  case inTurn => exact Shared.run_inTurn c [] mutations

end Planner

end Setwise
