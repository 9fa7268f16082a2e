import Setwise.Proofs.Interpretation
import Setwise.Proofs.Navigation
import Setwise.Proofs.StaticNulls

/-!
What a lambda returns, references included.

`Expr.result?` says what a lambda returns for the elements that it is applied to, or that it returns nothing because a
required reference leads to no row. Every entity in what it returns is one of those in the elements, or is reached from them
(`Expr.result_within`).
-/

set_option autoImplicit false

namespace Setwise

open Client Relational Execution Planning

/-! ## Results of expressions -/

def Element.dangles? (m : Model) (db : Database) (name : String) : Element → Option Bool
  | .entity type row => do
    let e ← m.entity? type
    match e.property? name with
    | some _ => none
    | none => do
      let n ← e.navigation? name
      match n.kind with
      | .reference foreignKey principalKey true => do
        let target ← m.entity? n.target
        let t ← db.find? target.table
        let pairs ← keyPairs? e target (foreignKey.zip principalKey)
        return (referencedRows row pairs t).isEmpty
      | _ => none
  | .record _ | .group _ | .scalar _ => none

def Element.read? (m : Model) (db : Database) (name : String) (x : Element) : Option Element :=
  if x.dangles? m db name = some true then none else some ((x.member m db name).getD (.scalar none))

def Client.Expr.isWrittenNull (e : Expr) : Bool :=
  plannedAsNull [] e

section

variable (m : Model) (db : Database) (ps : Parameters)

section

variable (nulls : Expr → Bool)

mutual

/-- What an expression returns for given lambda parameters, unless a reference that it follows is lost. References are
followed in all branches, and equality with an operand that counts as NULL is a test for NULL. -/
def Client.Expr.result? (scope : List (String × Element)) (e : Expr) : Option Element :=
  match e with
  | .param x => some ((scope.lookup x).getD (.scalar none))
  | .constant v | .captured _ v => some (.scalar (some v))
  | .runtime name => some (.scalar (ps.scalar name).toOption)
  | .member of name => do
    let x ← of.result? scope
    x.read? m db name
  | .binary l op r => do
    let x ← l.result? scope
    let y ← r.result? scope
    return .scalar (Element.comparison m op x y (nulls l) (nulls r))
  | .not operand => do
    let x ← operand.result? scope
    return .scalar (x.value?.bind fun v => v.negation.toOption)
  | .conditional test a b => do
    let x ← test.result? scope
    let y ← a.result? scope
    let z ← b.result? scope
    return .scalar (x.value?.bind fun v => if v.isTrue then y.value? else z.value?)
  | .new _ _ bindings => do
    let fields ← fieldResults? scope bindings
    return .record fields

def Client.fieldResults? (scope : List (String × Element)) (bs : List (Binding Expr)) :
    Option (List (String × Element)) :=
  match bs with
  | [] => some []
  | b :: rest => do
    let f ← fieldResult? scope b
    let rest ← fieldResults? scope rest
    return f :: rest

def Client.fieldResult? (scope : List (String × Element)) (b : Binding Expr) : Option (String × Element) :=
  match b with
  | .assign member value => do
    let x ← value.result? scope
    return (member, x)
  | .items .. => none

end

end

/-- What a lambda returns, unless a reference that it follows is lost. -/
def Client.Lambda.result? (l : Lambda) (args : List Element) : Option Element :=
  l.body.result? m db ps Expr.isWrittenNull (l.params.zip args)

end

/-! ## Entities in elements -/

inductive Element.Within (K : Element → Prop) : Element → Prop where
  | scalar (v : Option Value) : Within K (.scalar v)
  | entity {type : String} {row : List (String × Option Value)} (inside : K (.entity type row)) :
      Within K (.entity type row)
  | record {fields : List (String × Element)} (inside : ∀ f ∈ fields, Within K f.2) : Within K (.record fields)
  | group {key : Element} (inside : Within K key) : Within K (.group key)

theorem Element.within_trivial (x : Element) : x.Within fun _ => True :=
  @Element.rec (fun x => x.Within fun _ => True) (fun fields => ∀ f ∈ fields, f.2.Within fun _ => True)
    (fun f => f.2.Within fun _ => True) .scalar (fun _ _ => .entity trivial) (fun _ => .record) (fun _ => .group) nofun
    (fun _ _ first rest => List.forall_mem_cons.2 ⟨first, rest⟩) (fun _ _ inside => inside) x

section

variable {m : Model} {db : Database} {ps : Parameters} {K : Element → Prop} {nulls : Expr → Bool}

/-- Members of elements stay within a condition that members of entities do not leave. -/
theorem Element.Within.member {x y : Element} {name : String}
    (closed : ∀ x name y, K x → x.member m db name = some y → y.Within K) (h : x.Within K)
    (read : x.member m db name = some y) : y.Within K := by
  cases h with
  | scalar => cases read
  | entity inside => exact closed _ _ _ inside read
  | record inside => exact inside _ (mem_of_lookup read)
  | group inside =>
    simp only [Element.member] at read
    split at read
    · exact Option.some.inj read ▸ inside
    · cases read

theorem Element.Within.read {x y : Element} {name : String}
    (closed : ∀ x name y, K x → x.member m db name = some y → y.Within K) (h : x.Within K)
    (read : x.read? m db name = some y) : y.Within K := by
  unfold Element.read? at read
  split at read
  · cases read
  · obtain rfl := Option.some.inj read
    cases member : x.member m db name with
    | none => exact .scalar none
    | some y => exact h.member closed member

mutual

/-- What an expression returns stays within a condition that members do not leave. -/
theorem Client.Expr.result_within {scope : List (String × Element)} {e : Expr} {x : Element}
    (closed : ∀ x name y, K x → x.member m db name = some y → y.Within K) (given : ∀ p ∈ scope, p.2.Within K)
    (h : e.result? m db ps nulls scope = some x) : x.Within K := by
  match e with
  | .param name =>
    obtain rfl := Option.some.inj h
    cases found : scope.lookup name with
    | none => exact .scalar none
    | some y => exact given _ (mem_of_lookup found)
  | .constant v | .captured _ v | .runtime _ =>
    unfold Expr.result? at h
    obtain rfl := Option.some.inj h
    exact .scalar _
  | .member of name =>
    unfold Expr.result? at h
    obtain ⟨y, before, read⟩ := Option.bind_eq_some_iff.1 h
    -- members of what is within stay within, by closure
    exact (of.result_within closed given before).read closed read
  | .binary .. =>
    unfold Expr.result? at h
    obtain ⟨_, -, h⟩ := Option.bind_eq_some_iff.1 h
    obtain ⟨_, -, h⟩ := Option.bind_eq_some_iff.1 h
    obtain rfl := Option.some.inj h
    exact .scalar _
  | .not _ =>
    unfold Expr.result? at h
    obtain ⟨_, -, h⟩ := Option.bind_eq_some_iff.1 h
    obtain rfl := Option.some.inj h
    exact .scalar _
  | .conditional .. =>
    unfold Expr.result? at h
    obtain ⟨_, -, h⟩ := Option.bind_eq_some_iff.1 h
    obtain ⟨_, -, h⟩ := Option.bind_eq_some_iff.1 h
    obtain ⟨_, -, h⟩ := Option.bind_eq_some_iff.1 h
    obtain rfl := Option.some.inj h
    exact .scalar _
  | .new _ _ bindings =>
    unfold Expr.result? at h
    obtain ⟨fields, made, h⟩ := Option.bind_eq_some_iff.1 h
    obtain rfl := Option.some.inj h
    exact .record (fieldResults_within bindings closed given made)

theorem Client.fieldResults_within {scope fields : List (String × Element)} (bs : List (Binding Expr))
    (closed : ∀ x name y, K x → x.member m db name = some y → y.Within K) (given : ∀ p ∈ scope, p.2.Within K)
    (h : fieldResults? m db ps nulls scope bs = some fields) : ∀ f ∈ fields, f.2.Within K := by
  match bs with
  | [] =>
    obtain rfl := Option.some.inj h
    exact nofun
  | .assign member value :: rest =>
    unfold fieldResults? fieldResult? at h
    obtain ⟨f, made, h⟩ := Option.bind_eq_some_iff.1 h
    obtain ⟨x, value', made⟩ := Option.bind_eq_some_iff.1 made
    obtain rfl := Option.some.inj made
    obtain ⟨others, later, h⟩ := Option.bind_eq_some_iff.1 h
    obtain rfl := Option.some.inj h
    exact List.forall_mem_cons.2 ⟨value.result_within closed given value', fieldResults_within rest closed given later⟩
  | .items .. :: rest => cases h

end

end

end Setwise
