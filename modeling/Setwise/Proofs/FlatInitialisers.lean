import Setwise.Proofs.Initialisers

/-!
Initialisers and their leaves.

An expression initialises an entity when it creates one without constructor arguments and assigns properties only,
directly or through initialisers of owned types (`Initialises`). Its leaves are these properties, from left to right.
Exactly the initialisers that assign no column twice are planned, and what is planned is their leaves
(`initialisers_become_leaves`).
-/

set_option autoImplicit false

namespace Setwise.Planning

open Client Model

mutual

/-- The expression creates an entity without constructor arguments and under no other name, and what it says of members
initialises them. -/
inductive Initialises (m : Model) : Entity → Expr → Prop
  | new {e : Entity} {type : Option String} {bindings : List (Binding Expr)} (named : ∀ t ∈ type, t = e.name)
      (members : ∀ b ∈ bindings, InitialisesMember m e b) : Initialises m e (.new type [] bindings)

/-- The member is assigned, and is a property, or otherwise an owned navigation whose value initialises its target. -/
inductive InitialisesMember (m : Model) : Entity → Binding Expr → Prop
  | property {e : Entity} {member : String} {p : Property} (value : Expr) (property : e.property? member = some p) :
      InitialisesMember m e (.assign member value)
  | embedded {e target : Entity} {member : String} {n : Navigation} {value : Expr}
      (missing : e.property? member = none) (navigation : e.navigation? member = some n) (owned : n.isOwned = true)
      (known : m.entity? n.target = some target) (inner : Initialises m target value) :
      InitialisesMember m e (.assign member value)

end

def Assignment.behind (path : List String) (a : Assignment) : Assignment :=
  { a with path := path ++ a.path }

mutual

/-- The properties that an initialiser of an entity assigns, from left to right: each with the members that lead to it,
its column, and its value as it is written. -/
def leaves (m : Model) (e : Entity) (body : Expr) : List Assignment :=
  match body with
  | .new _ _ bindings => leavesOfAll m e bindings
  | _ => []

def leavesOfAll (m : Model) (e : Entity) (bs : List (Binding Expr)) : List Assignment :=
  match bs with
  | [] => []
  | b :: rest => leavesOfOne m e b ++ leavesOfAll m e rest

def leavesOfOne (m : Model) (e : Entity) (b : Binding Expr) : List Assignment :=
  match b with
  | .items .. => []
  | .assign member value =>
    match e.property? member with
    | some p => [⟨[member], p.column, value⟩]
    | none =>
      match (e.navigation? member).bind fun n => m.entity? n.target with
      | some target => (leaves m target value).map (Assignment.behind [member])
      | none => []

end

theorem Assignment.behind_nil : Assignment.behind [] = id :=
  rfl

theorem Assignment.behind_behind (path path' : List String) :
    Assignment.behind path ∘ Assignment.behind path' = Assignment.behind (path ++ path') := by
  funext a
  simp [behind]

section

variable {m : Model} {e : Entity} {member : String}

theorem leavesOfOne_property {p : Property} (property : e.property? member = some p) (value : Expr) :
    leavesOfOne m e (.assign member value) = [⟨[member], p.column, value⟩] := by
  simp only [leavesOfOne, property]

theorem leavesOfOne_embedded (missing : e.property? member = none) {n : Navigation} {target : Entity}
    (navigation : e.navigation? member = some n) (known : m.entity? n.target = some target) (value : Expr) :
    leavesOfOne m e (.assign member value) = (leaves m target value).map (Assignment.behind [member]) := by
  simp only [leavesOfOne, missing, navigation, Option.bind_some, known]

end

section

variable {m : Model} {subject : Subject}

/-! ## What is planned initialises the entity -/

mutual

theorem initialises_of_assignInto {e : Entity} {path : List String} {out list : List Assignment} (body : Expr)
    (h : assignInto m subject e path body out = .ok list) :
    Initialises m e body ∧ list = out ++ (leaves m e body).map (Assignment.behind path) := by
  match body with
  | .new type args bindings =>
    obtain ⟨rfl, named, all⟩ := assignInto_eq_ok h
    obtain ⟨members, listed⟩ := initialises_of_assignAll bindings all
    exact ⟨.new named members, by rw [leaves, listed]⟩
  | .param _ | .member .. | .constant _ | .captured .. | .runtime _ | .binary .. | .not _ | .conditional .. =>
    exact absurd h (not_fail_eq_ok _ _)

theorem initialises_of_assignAll {e : Entity} {path : List String} {out list : List Assignment}
    (bs : List (Binding Expr)) (h : assignAll m subject e path bs out = .ok list) :
    (∀ b ∈ bs, InitialisesMember m e b) ∧ list = out ++ (leavesOfAll m e bs).map (Assignment.behind path) := by
  match bs with
  | [] =>
    obtain rfl := Except.ok.inj h
    exact ⟨List.forall_mem_nil _, by simp [leavesOfAll]⟩
  | b :: rest =>
    obtain ⟨middle, first, second⟩ := bind_eq_ok.1 h
    obtain ⟨here, rfl⟩ := initialises_of_assignOne b first
    obtain ⟨later, rfl⟩ := initialises_of_assignAll rest second
    refine ⟨List.forall_mem_cons.2 ⟨here, later⟩, ?_⟩
    rw [leavesOfAll, List.map_append, List.append_assoc]

theorem initialises_of_assignOne {e : Entity} {path : List String} {out list : List Assignment} (b : Binding Expr)
    (h : assignOne m subject e path b out = .ok list) :
    InitialisesMember m e b ∧ list = out ++ (leavesOfOne m e b).map (Assignment.behind path) := by
  match b with
  | .items .. => exact absurd h (not_fail_eq_ok _ _)
  | .assign member value =>
    rcases assignOne_eq_ok h with ⟨p, property, -, rfl⟩ | ⟨n, target, missing, navigation, owned, known, inside⟩
    · rw [leavesOfOne_property property]
      exact ⟨.property value property, rfl⟩
    · obtain ⟨inner, rfl⟩ := initialises_of_assignInto value inside
      refine ⟨.embedded missing navigation owned known inner, ?_⟩
      rw [leavesOfOne_embedded missing navigation known, List.map_map, Assignment.behind_behind]

end

/-! ## What initialises the entity is planned -/

mutual

theorem assignInto_of_initialises {e : Entity} {path : List String} {out : List Assignment} (body : Expr)
    (h : Initialises m e body)
    (distinct : ((out ++ (leaves m e body).map (Assignment.behind path)).map Assignment.column).Nodup) :
    assignInto m subject e path body out = .ok (out ++ (leaves m e body).map (Assignment.behind path)) := by
  match body with
  | .new type args bindings =>
    cases h with
    | new named members =>
      unfold assignInto
      have sameName : (type.any fun t => t != e.name) = false := by
        cases type with
        | none => rfl
        | some t => simpa using named t rfl
      simp only [leaves] at distinct ⊢
      simp only [List.isEmpty_nil, Bool.not_true, Bool.false_eq_true, if_false, sameName]
      exact assignAll_of_initialises bindings members distinct
  | .param _ | .member .. | .constant _ | .captured .. | .runtime _ | .binary .. | .not _ | .conditional .. =>
    cases h

theorem assignAll_of_initialises {e : Entity} {path : List String} {out : List Assignment} (bs : List (Binding Expr))
    (h : ∀ b ∈ bs, InitialisesMember m e b)
    (distinct : ((out ++ (leavesOfAll m e bs).map (Assignment.behind path)).map Assignment.column).Nodup) :
    assignAll m subject e path bs out = .ok (out ++ (leavesOfAll m e bs).map (Assignment.behind path)) := by
  match bs with
  | [] => simp [assignAll, leavesOfAll]
  | b :: rest =>
    obtain ⟨here, later⟩ := List.forall_mem_cons.1 h
    -- what is assigned so far grows by the leaves of the first member, and keeps its columns apart
    have split : out ++ (leavesOfAll m e (b :: rest)).map (Assignment.behind path) =
        (out ++ (leavesOfOne m e b).map (Assignment.behind path)) ++
          (leavesOfAll m e rest).map (Assignment.behind path) := by
      rw [leavesOfAll, List.map_append, List.append_assoc]
    rw [split] at distinct ⊢
    have before : ((out ++ (leavesOfOne m e b).map (Assignment.behind path)).map Assignment.column).Nodup :=
      distinct.sublist ((List.sublist_append_left _ _).map _)
    exact bind_eq_ok.2 ⟨_, assignOne_of_initialises b here before, assignAll_of_initialises rest later distinct⟩

theorem assignOne_of_initialises {e : Entity} {path : List String} {out : List Assignment} (b : Binding Expr)
    (h : InitialisesMember m e b)
    (distinct : ((out ++ (leavesOfOne m e b).map (Assignment.behind path)).map Assignment.column).Nodup) :
    assignOne m subject e path b out = .ok (out ++ (leavesOfOne m e b).map (Assignment.behind path)) := by
  match b with
  | .items .. => cases h
  | .assign member value =>
    unfold assignOne
    cases h with
    | @property _ _ p _ property =>
      rw [leavesOfOne_property property] at distinct ⊢
      rw [property]
      dsimp only
      -- the column is none of those assigned before
      have new : (out.any fun a => a.column == p.column) = false := by
        rw [List.map_append, List.nodup_append] at distinct
        rw [List.any_eq_false]
        intro a inside same
        exact distinct.2.2 a.column (List.mem_map_of_mem inside) _ (List.mem_singleton_self _) (beq_iff_eq.1 same)
      rw [new]
      rfl
    | embedded missing navigation owned known inner =>
      rw [leavesOfOne_embedded missing navigation known, List.map_map, Assignment.behind_behind] at distinct ⊢
      rw [missing, navigation]
      dsimp only
      rw [if_pos owned]
      exact bind_eq_ok.2 ⟨_, lookUp_eq_ok.2 (entity_eq_ok.2 known), assignInto_of_initialises value inner distinct⟩

end

end

/-- Exactly the initialisers of an entity that assign no column twice are planned, as their leaves. -/
theorem initialisers_become_leaves (m : Model) (subject : Subject) (e : Entity) (body : Expr)
    (list : List Assignment) :
    assignments m subject e body = .ok list ↔
      Initialises m e body ∧ list = leaves m e body ∧ (list.map Assignment.column).Nodup := by
  have whole : (leaves m e body).map (Assignment.behind []) = leaves m e body := by
    rw [Assignment.behind_nil, List.map_id]
  constructor
  · intro h
    obtain ⟨initialises, same⟩ := initialises_of_assignInto body h
    rw [List.nil_append, whole] at same
    exact ⟨initialises, same, (assignInto_extends body h).distinct List.nodup_nil⟩
  · rintro ⟨initialises, rfl, distinct⟩
    have planned : assignInto m subject e [] body [] = .ok ([] ++ (leaves m e body).map (Assignment.behind [])) :=
      assignInto_of_initialises body initialises (by rwa [List.nil_append, whole])
    rwa [List.nil_append, whole] at planned

end Setwise.Planning
