import Setwise.Proofs.AgreeingWrites
import Setwise.Proofs.Exposure
import Setwise.Proofs.Operators
import Setwise.Proofs.SideBySide
import Setwise.Proofs.VisibleShapes

/-!
Subqueries in step.

Shapes that show the same list columns with the same values. The columns get the same names, except that a single
scalar is called like the column that it is, if it is one; the shapes behind the subquery then show the same again
(`expose_beside`). Keys of such shapes, and their equality, agree too.
-/

set_option autoImplicit false

namespace Setwise.Planning

open Client Relational Execution

section

variable {m : Model} {S : Sides} {K : Ledger} {subject subject' : Subject} {label : String}

/-! ## Columns -/

theorem mem_columnsOf_of_readable (finite : Finite m) {type c : String} (read : m.Readable type c) :
    c ∈ m.columnsOf type := by
  induction read with
  | listed stored => exact stored
  | owned known navigation owned _ ih => exact columnsOf_owned known navigation owned (finite _ _ known) ih

theorem AssignmentsAgree.snoc {out out' : List Projection} (agree : AssignmentsAgree S K out out') {a b : Scalar}
    (h : ScalarsAgree S K a b) (base : String) :
    AssignmentsAgree S K (out ++ [⟨freshName (out.map Projection.name) base, a⟩])
      (out' ++ [⟨freshName (out'.map Projection.name) base, b⟩]) := by
  have names : out.map Projection.name = out'.map Projection.name := agree.names
  refine ⟨?_, ?_⟩
  · simp [assignedColumns, names]
  · unfold ProjectionsAgree
    rw [List.map_append, List.map_append]
    exact List.rel_append agree.values (.cons h .nil)

namespace Shape

theorem exposeColumns_beside {r r' : EntityView} {ps : List Property}
    (columns : ∀ p ∈ ps, ScalarsAgree S K (r.column p.column) (r'.column p.column)) {out out' : List Projection}
    (agree : AssignmentsAgree S K out out') :
    (exposeColumns r ps out).1 = (exposeColumns r' ps out').1 ∧
      AssignmentsAgree S K (exposeColumns r ps out).2 (exposeColumns r' ps out').2 := by
  induction ps generalizing out out' with
  | nil => exact ⟨rfl, agree⟩
  | cons p rest ih =>
    have names : out.map Projection.name = out'.map Projection.name := agree.names
    obtain ⟨here, later⟩ := List.forall_mem_cons.1 columns
    obtain ⟨renames, after⟩ := ih later (AssignmentsAgree.snoc agree here p.column)
    exact ⟨congrArg₂ _ (by rw [names]) renames, after⟩

/-- What a shape and another one that shows the same list, and become, if scalars have a name to be called by. -/
def ListsSame (m : Model) (S : Sides) (K : Ledger) (label : String) (s : Shape) : Prop :=
  ∀ ⦃subject subject' t s' t' hint out out' ps ps'⦄, ShapesAlike m S K s t → AssignmentsAgree S K out out' →
    s.expose m subject label (some hint) out = .ok (s', ps) →
    t.expose m subject' label (some hint) out' = .ok (t', ps') → s' = t' ∧ AssignmentsAgree S K ps ps'

theorem exposeFields_same {fs others gs gs' : List (String × Shape)} {out out' ps ps' : List Projection}
    (fields : ∀ p ∈ fs, ListsSame m S K label p.2) (alike : ShapesAlike m S K (.record fs) (.record others))
    (agree : AssignmentsAgree S K out out') (h : exposeFields m subject label fs out = .ok (gs, ps))
    (h' : exposeFields m subject' label others out' = .ok (gs', ps')) : gs = gs' ∧ AssignmentsAgree S K ps ps' := by
  induction fs generalizing others gs gs' out out' with
  | nil =>
    obtain rfl := Shape.record.inj alike.nil
    obtain ⟨rfl, rfl⟩ := Prod.mk.inj (Except.ok.inj h)
    obtain ⟨rfl, rfl⟩ := Prod.mk.inj (Except.ok.inj h')
    exact ⟨rfl, agree⟩
  | cons f rest ih =>
    obtain ⟨name, s⟩ := f
    obtain ⟨t, others, ⟨⟩, first, behind⟩ := alike.cons
    obtain ⟨here, remaining⟩ := List.forall_mem_cons.1 fields
    obtain ⟨u, middle, more, one, later, rfl⟩ := exposeFields_cons h
    obtain ⟨u', middle', more', one', later', rfl⟩ := exposeFields_cons h'
    obtain ⟨rfl, after⟩ := here first agree one one'
    obtain ⟨rfl, final⟩ := ih remaining behind after later later'
    exact ⟨rfl, final⟩

theorem expose_same (s : Shape) : ListsSame m S K label s := by
  intro subject subject' t s' t' hint out out' ps ps' alike agree h h'
  induction s using Shape.induction generalizing subject subject' t s' t' hint out out' ps ps' with
  | scalar a =>
    obtain ⟨b, rfl, same⟩ := alike.scalar
    obtain ⟨rfl, rfl⟩ := Prod.mk.inj (Except.ok.inj h)
    obtain ⟨rfl, rfl⟩ := Prod.mk.inj (Except.ok.inj h')
    have names : out.map Projection.name = out'.map Projection.name := agree.names
    exact ⟨by rw [names]; rfl, AssignmentsAgree.snoc agree same hint⟩
  | entity r =>
    obtain ⟨r', rfl, type, -, columns⟩ := alike.entity
    obtain ⟨e, found, rfl, rfl⟩ := expose_entity h
    obtain ⟨e', found', rfl, rfl⟩ := expose_entity h'
    rw [← type] at found'
    obtain rfl := Except.ok.inj (found.symm.trans found')
    -- both sides list the columns of one type, so they get the same names
    have listed := Model.columnsOf_eq (entity_eq_ok.1 found)
    have read : ∀ p ∈ m.columns e, ScalarsAgree S K (r.column p.column) (r'.column p.column) := fun p stored =>
      columns _ (.listed (listed ▸ List.mem_map_of_mem stored))
    obtain ⟨renames, after⟩ := exposeColumns_beside read agree
    exact ⟨by rw [renames, type], after⟩
  | record fields ih =>
    cases t with
    | record others =>
      obtain ⟨gs, fields, rfl⟩ := expose_record.1 h
      obtain ⟨gs', fields', rfl⟩ := expose_record.1 h'
      obtain ⟨rfl, after⟩ := exposeFields_same ih alike agree fields fields'
      exact ⟨rfl, after⟩
    | _ => cases alike none [] [] .nil
  | grouping key ih =>
    obtain ⟨key', rfl, same⟩ := alike.grouping
    obtain ⟨k, exposed, rfl⟩ := expose_grouping h
    obtain ⟨k', exposed', rfl⟩ := expose_grouping h'
    obtain ⟨rfl, after⟩ := ih same agree exposed exposed'
    exact ⟨rfl, after⟩
  | excluded name columns => exact absurd h (not_fail_eq_ok _ _)

/-! ## Behind a subquery -/

theorem exposeColumns_length (r : EntityView) (ps : List Property) (out : List Projection) :
    (exposeColumns r ps out).2.length = out.length + ps.length := by
  induction ps generalizing out with
  | nil => rfl
  | cons p rest ih =>
    refine (ih _).trans ?_
    simp only [List.length_append, List.length_cons, List.length_nil]
    omega

theorem expose_alike (finite : Finite m) {s s' : Shape} {hint : Option String} {out ps : List Projection}
    (h : s.expose m subject label hint out = .ok (s', ps))
    (known : out.length < ps.length → K.lookup label = some .same) :
    ShapesAlike m S K s' s' := by
  induction s using Shape.induction generalizing s' hint out ps with
  | scalar a =>
    obtain ⟨rfl, rfl⟩ := Prod.mk.inj (Except.ok.inj h)
    exact fun incoming f g alike => valueOf_column_same (known (by simp)) alike _
  | entity r =>
    obtain ⟨e, found, rfl, rfl⟩ := expose_entity h
    have listed := Model.columnsOf_eq (entity_eq_ok.1 found)
    refine fun incoming f g alike => ⟨rfl, rfl, fun c read => valueOf_column_same (known ?_) alike _⟩
    -- a column can only be read if the entity has one, and then it is listed
    have some : 0 < (m.columns e).length := by
      simpa [listed] using List.length_pos_of_mem (mem_columnsOf_of_readable finite read)
    rw [exposeColumns_length]
    omega
  | record fields ih =>
    obtain ⟨gs, exposed, rfl⟩ := expose_record.1 h
    clear h
    intro incoming f g alike
    unfold Shape.Alike
    induction fields generalizing gs out with
    | nil =>
      obtain ⟨rfl, rfl⟩ := Prod.mk.inj (Except.ok.inj exposed)
      trivial
    | cons p rest later =>
      obtain ⟨name, s⟩ := p
      obtain ⟨here, behind⟩ := List.forall_mem_cons.1 ih
      obtain ⟨u, middle, more, one, rest, rfl⟩ := exposeFields_cons exposed
      have record : (Shape.record _).expose m subject label none middle = .ok (_, ps) := expose_record.2 ⟨more, rest, rfl⟩
      have first := (exposed_of_expose one).more.length_le
      have second := (exposed_of_expose record).more.length_le
      refine ⟨⟨rfl, here one (fun some => known (by omega)) incoming f g alike⟩, ?_⟩
      exact later behind (fun some => known (by omega)) more rest
  | grouping key ih =>
    obtain ⟨k, exposed, rfl⟩ := expose_grouping h
    exact fun incoming f g alike => ih exposed known incoming f g alike
  | excluded name columns => exact absurd h (not_fail_eq_ok _ _)

theorem expose_hint {s : Shape} (objects : ∀ a, s ≠ .scalar a) (hint hint' : Option String) (out : List Projection) :
    s.expose m subject label hint out = s.expose m subject label hint' out := by
  cases s with
  | scalar a => exact absurd rfl (objects a)
  | _ => rfl

/-- Shapes that show the same, carried through subqueries with the same label, show the same again. -/
theorem expose_beside (finite : Finite m) {s t s' t' : Shape} {ps ps' : List Projection}
    (alike : ShapesAlike m S K s t) (h : s.expose m subject label none [] = .ok (s', ps))
    (h' : t.expose m subject' label none [] = .ok (t', ps')) :
    ∃ n : Naming, n.Covers ps ps' ∧ ProjectionsAgree S K ps ps' ∧
      ∀ K' : Ledger, K'.lookup label = some n → ShapesAlike m S K' s' t' := by
  -- a scalar alone is called by its own column, which may differ on both sides; all else is called by members
  by_cases single : ∃ a, s = .scalar a
  · obtain ⟨a, rfl⟩ := single
    obtain ⟨b, rfl, same⟩ := alike.scalar
    obtain ⟨rfl, rfl⟩ := Prod.mk.inj (Except.ok.inj h)
    obtain ⟨rfl, rfl⟩ := Prod.mk.inj (Except.ok.inj h')
    refine ⟨.single _ _, ⟨rfl, rfl⟩, .cons same .nil, fun K' known => ?_⟩
    exact fun incoming f g alike => valueOf_column_single known alike
  · have objects : ∀ a, s ≠ .scalar a := fun a same => single ⟨a, same⟩
    have objects' : ∀ b, t ≠ .scalar b := by
      rintro b rfl
      cases s with
      | scalar a => exact objects a rfl
      | _ => cases alike none [] [] .nil
    have exposed := h
    rw [expose_hint objects none (some "")] at h
    rw [expose_hint objects' none (some "")] at h'
    have none : AssignmentsAgree S K [] [] := ⟨rfl, List.Forall₂.nil⟩
    obtain ⟨rfl, names, values⟩ := expose_same s alike none h h'
    have length : ps.length = ps'.length := by simpa using values.length_eq
    -- without any column the subquery is never read
    by_cases empty : ps = []
    · subst empty
      exact ⟨.unread, length, values, fun K' _ => expose_alike finite exposed fun some => absurd some (Nat.lt_irrefl _)⟩
    · exact ⟨.same, ⟨names, empty⟩, values, fun K' known => expose_alike finite exposed fun _ => known⟩

/-! ## Keys -/

theorem scalars_agree {s t : Shape} (alike : ShapesAlike m S K s t) {cs cs' : List Scalar}
    (h : s.scalars subject = .ok cs) (h' : t.scalars subject' = .ok cs') :
    List.Forall₂ (ScalarsAgree S K) cs cs' := by
  induction s using Shape.induction generalizing t cs cs' with
  | scalar a =>
    obtain ⟨b, rfl, same⟩ := alike.scalar
    obtain rfl := Except.ok.inj h
    obtain rfl := Except.ok.inj h'
    exact .cons same .nil
  | record fields ih =>
    cases t with
    | record others =>
      unfold scalars at h h'
      -- the values of a record are those of its fields in turn
      induction fields generalizing others cs cs' with
      | nil =>
        obtain rfl := Shape.record.inj alike.nil
        obtain rfl := Except.ok.inj h
        obtain rfl := Except.ok.inj h'
        exact .nil
      | cons p rest later =>
        obtain ⟨name, s⟩ := p
        obtain ⟨t, others, ⟨⟩, first, behind⟩ := alike.cons
        obtain ⟨here, remaining⟩ := List.forall_mem_cons.1 ih
        obtain ⟨own, one, h⟩ := bind_eq_ok.1 h
        obtain ⟨more, rest, h⟩ := bind_eq_ok.1 h
        obtain rfl := pure_eq_ok.1 h
        obtain ⟨own', one', h'⟩ := bind_eq_ok.1 h'
        obtain ⟨more', rest', h'⟩ := bind_eq_ok.1 h'
        obtain rfl := pure_eq_ok.1 h'
        exact List.rel_append (here first one one') (later remaining others behind rest rest')
    | _ => cases alike none [] [] .nil
  | grouping key ih =>
    obtain ⟨key', rfl, same⟩ := alike.grouping
    exact ih same h h'
  | entity r => exact absurd h (not_fail_eq_ok _ _)
  | excluded name columns => exact absurd h (not_fail_eq_ok _ _)

theorem equality_agree {s t s' t' : Shape} (left : ShapesAlike m S K s s') (right : ShapesAlike m S K t t') {c c' : Scalar}
    (h : Shape.equality m subject s t = .ok c) (h' : Shape.equality m subject' s' t' = .ok c') :
    ScalarsAgree S K c c' := by
  intro incoming f g alike
  rw [equality_value h, equality_value h', (left incoming f g alike).element, (right incoming f g alike).element]

end Shape

end

end Setwise.Planning
