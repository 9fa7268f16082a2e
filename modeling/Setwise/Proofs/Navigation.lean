import Mathlib.Data.List.Nodup
import Setwise.Proofs.Carrying
import Setwise.Proofs.Following
import Setwise.Proofs.PlannedMutations

/-!
Navigations read the rows that their foreign keys lead to.

A navigation is joined once for the label of its owner and its own name, and reading it again finds that
join. Owned types share the label of their owner, and so do all members of a record behind a subquery; two
of them can have references of one name, and then the second one finds the join of the first. Short of that
(`ReusesOwn`), a chain of members has in every frame the value that following the foreign keys gives
(`chain_reads`), and two references that share a join have equal foreign keys (`foreignKeys_agree`).
-/

set_option autoImplicit false

namespace Setwise.Planning

open Client Relational Execution

/-- A reference that is found joined has been joined on its own foreign key. -/
def ReusesOwn (m : Model) (w : Workspace) (s : Shape) (name : String) : Prop :=
  ∀ r owner n foreignKey principalKey required label,
    ReferenceMember m s name r owner n foreignKey principalKey required →
    w.navigations.lookup (r.label, n.name) = some label →
    ∀ j ∈ w.joins, j.source.label = label → OwnJoin m owner r n j

theorem reusesOwn_unvisited {m : Model} {w : Workspace} (unvisited : w.navigations = []) (s : Shape) (name : String) :
    ReusesOwn m w s name := by
  intro r owner n foreignKey principalKey required label _ found
  rw [unvisited] at found
  cases found

def ChainReusesOwn (m : Model) (scope : Scope) : Expr → Workspace → Prop
  | .member of name, w =>
    ChainReusesOwn m scope of w ∧
      ∀ s v, Step.Yields (expr m scope of) w s v → ReusesOwn m v s name
  | _, _ => True

theorem follow_own {m : Model} {owner : Entity} {r : EntityView} {n : Navigation}
    {foreignKey principalKey : List String} {required : Bool} {source : Source} {w w' : Workspace}
    {t : Shape} (inScope : Scoped w (w.select source)) (visible : r.label ∈ (w.select source).labels)
    (kind : n.kind = .reference foreignKey principalKey required)
    (own : ∀ label, w.navigations.lookup (r.label, n.name) = some label →
      ∀ j ∈ w.joins, j.source.label = label → OwnJoin m owner r n j)
    (h : Step.Yields (follow m owner r n foreignKey principalKey required) w t w') :
    ∃ before j after, w'.joins = before ++ j :: after ∧ OwnJoin m owner r n j ∧
      r.label ∈ source.label :: joinLabels before ∧
      t = .entity { entity := n.target, label := j.source.label } := by
  obtain ⟨label, rfl, ⟨found, rfl⟩ | ⟨-, target, on, known, condition, rfl⟩⟩ := follow_yields h
  · obtain ⟨before, j, after, split, rfl, behind⟩ := inScope.joined _ (mem_of_lookup found) visible
    have inside : j ∈ (w'.select source).joins := by simp [split]
    exact ⟨before, j, after, split, own _ found j inside rfl, behind, rfl⟩
  · exact ⟨w.joins, referenceJoin target label required on, [], rfl,
      ⟨foreignKey, principalKey, required, target, on, kind, known, condition, rfl⟩, visible, rfl⟩

theorem readMember_reads {m : Model} {db : Database} {env : Environment} {s t : Shape} {name : String}
    {whole : Expr} {source : Source} {w w' : Workspace} (inScope : Scoped w (w.select source))
    (visible : ∀ l ∈ s.labels, l ∈ (w.select source).labels) (own : ReusesOwn m w s name)
    (h : Step.Yields (readMember m s name whole) w t w') {select : Select}
    (distinct : select.labels.Nodup) (same : select.source = source) (joins : w'.joins <+: select.joins)
    {frames : List Frame} (all : joinedFrames db env select = .ok frames) {g : Frame} (member : g ∈ frames)
    (single : (s.element m env g).LeadsToOne m db name) :
    (s.element m env g).member m db name = some (t.element m env g) := by
  obtain ⟨found, rfl⟩ | ⟨r, owner, n, foreignKey, principalKey, required, reference, run⟩ :=
    readMember_yields h
  · exact staticMember?_reads found single
  · have reuses label := own r owner n foreignKey principalKey required label reference
    obtain ⟨rfl, entity, missing, navigation, kind⟩ := reference
    obtain ⟨before, j, after, split, ownJoin, behind, rfl⟩ :=
      follow_own inScope (visible _ (List.mem_singleton_self _)) kind reuses run
    obtain ⟨more, extended⟩ := joins
    have split' : select.joins = before ++ j :: (after ++ more) := by
      rw [← extended, split, List.append_assoc, List.cons_append]
    rw [← same] at behind
    have single := single owner n entity missing navigation
    rw [kind] at single
    simp only [Shape.element, Element.member, entity, missing, navigation, kind, Option.bind_eq_bind,
      Option.bind_some]
    exact reached_of_ownJoin distinct split' ownJoin behind entity all member kind rfl single

theorem chain_reads {m : Model} {db : Database} {env : Environment} {scope : Scope} {e : Expr} {t : Shape}
    {source : Source} {w w' : Workspace} (chain : IsChain e) (inScope : Scoped w (w.select source))
    (visible : scope.Reads (w.select source).labels) (own : ChainReusesOwn m scope e w)
    (h : Step.Yields (expr m scope e) w t w') {select : Select} (distinct : select.labels.Nodup)
    (same : select.source = source) (joins : w'.joins <+: select.joins) {frames : List Frame}
    (all : joinedFrames db env select = .ok frames) {g : Frame} (member : g ∈ frames)
    (single : LeadsToOne m db (Shape.fieldElements m env g scope) e) :
    reading m db (Shape.fieldElements m env g scope) e = some (t.element m env g) := by
  match e with
  | .param x =>
    unfold reading
    rw [Shape.lookup_fieldElements]
    rw [(param_yields.1 h).1, Option.map_some]
  | .member of name =>
    obtain ⟨s, v, before, h⟩ := member_yields.1 h
    obtain ⟨progress, seen⟩ := expr_progress of inScope visible before
    obtain ⟨more, joined', -⟩ := (readMember_progress progress.inScope seen h).1.joins
    have here := chain_reads (show IsChain of from chain) inScope visible own.1 before distinct same
      ((joined' ▸ List.prefix_append _ _).trans joins) all member single.1
    refine Option.bind_eq_some_iff.2 ⟨_, here, ?_⟩
    exact readMember_reads progress.inScope seen (own.2 s v before) h distinct same joins all member
      (single.2 _ here)
  | .constant _ | .captured _ _ | .runtime _ | .binary .. | .not _ | .conditional .. | .new .. =>
    cases chain

/-! ## What chains of members read -/

/-- A chain has been planned with the shape `t`, every reference on its way on its own foreign key, and its joins are among
those of a select planned later. -/
structure ChainRead (m : Model) (scope : Scope) (e : Expr) (t : Shape) (later : Select) : Prop where
  chain : IsChain e
  within : later.labels.Nodup
  run : ∃ start w' : Workspace, Scoped start (start.select later.source) ∧
    scope.Reads (start.select later.source).labels ∧ ChainReusesOwn m scope e start ∧
    Step.Yields (expr m scope e) start t w' ∧ w'.joins <+: later.joins

variable {m : Model} {db : Database} {env : Environment} {frames : List Frame}

theorem foreignKey_of_static {s t : Shape} {name : String} (h : s.staticMember? m name = some t) (f : Frame) :
    (s.element m env f).foreignKey m name = none := by
  cases Shape.StaticMember.of_found h with
  | property entity property | proposed entity property inserted =>
    simp only [Shape.element, Element.foreignKey, entity, property, Option.bind_eq_bind, Option.bind_some]
  | part entity missing navigation owned | proposedPart entity missing navigation owned =>
    simp only [Shape.element, Element.foreignKey, entity, missing, navigation, Navigation.kind_of_owned owned,
      Option.bind_eq_bind, Option.bind_some]
  | field | key => rfl

theorem ChainRead.joined {scope : Scope} {of : Expr} {name : String} {t : Shape} {later : Select}
    (h : ChainRead m scope (.member of name) t later) (all : joinedFrames db env later = .ok frames)
    {f : Frame} (member : f ∈ frames) (single : LeadsToOne m db (Shape.fieldElements m env f scope) of)
    {key : List (Option Value)} {el : Element}
    (owner : reading m db (Shape.fieldElements m env f scope) of = some el)
    (reference : el.foreignKey m name = some key) :
    ∃ j ∈ later.joins, t.labels = [j.source.label] ∧
      key = ((j.on.map leftSides).getD []).map fun e => (eval env f e).toOption := by
  obtain ⟨start, w', inScope, visible, own, run, joins⟩ := h.run
  obtain ⟨s, u, before, run⟩ := member_yields.1 run
  obtain ⟨progress, seen⟩ := expr_progress of inScope visible before
  obtain ⟨more, joined', -⟩ := (readMember_progress progress.inScope seen run).1.joins
  have here := chain_reads (show IsChain of from h.chain) inScope visible own.1 before
    h.within rfl ((joined' ▸ List.prefix_append _ _).trans joins) all member single
  obtain rfl := Option.some.inj (owner.symm.trans here)
  obtain ⟨found, rfl⟩ | ⟨r, e, n, foreignKey, principalKey, required, member', followed⟩ :=
    readMember_yields run
  · rw [foreignKey_of_static found] at reference
    cases reference
  · have reuses label := own.2 s u before r e n foreignKey principalKey required label member'
    obtain ⟨rfl, entity, missing, navigation, kind⟩ := member'
    obtain ⟨front, j, after, split, ownJoin, behind, rfl⟩ :=
      follow_own progress.inScope (seen _ (List.mem_singleton_self _)) kind reuses followed
    refine ⟨j, joins.subset (split ▸ by simp), rfl, ?_⟩
    -- the left sides of the condition are the columns of the foreign key, in the owner's own row
    obtain ⟨_, _, _, target, on, kind', known, condition, shape⟩ := ownJoin
    obtain ⟨rfl, rfl, rfl⟩ := NavigationKind.reference.inj (kind.symm.trans kind')
    obtain ⟨pairs, found⟩ := keyPairs?_of_referenceCondition condition
    simp only [Shape.element, Element.foreignKey, entity, missing, navigation, kind, known, found,
      Option.bind_eq_bind, Option.bind_some, Option.pure_def, Option.some.injEq] at reference
    rw [← reference, congrArg Join.on shape]
    simp only [referenceJoin, leftSides_referenceCondition found condition, Option.map_none,
      Option.getD_none, List.nil_append, List.map_map]
    refine List.map_congr_left fun p inside => ?_
    rw [lookup_map_self _ _ (mem_columnsOf_of_keyPairs? entity found p inside), Option.join_some]
    rfl

theorem foreignKeys_agree {later : Select} (all : joinedFrames db env later = .ok frames) {f : Frame}
    (member : f ∈ frames) {scope scope' : Scope} {of of' : Expr} {name name' : String} {t t' : Shape}
    (h : ChainRead m scope (.member of name) t later) (h' : ChainRead m scope' (.member of' name') t' later)
    (single : LeadsToOne m db (Shape.fieldElements m env f scope) of)
    (single' : LeadsToOne m db (Shape.fieldElements m env f scope') of') (same : t.labels = t'.labels)
    {key key' : List (Option Value)} {el el' : Element}
    (owner : reading m db (Shape.fieldElements m env f scope) of = some el)
    (owner' : reading m db (Shape.fieldElements m env f scope') of' = some el')
    (reference : el.foreignKey m name = some key) (reference' : el'.foreignKey m name' = some key') :
    key = key' := by
  obtain ⟨j, inside, labels, rfl⟩ := h.joined all member single owner reference
  obtain ⟨j', inside', labels', rfl⟩ := h'.joined all member single' owner' reference'
  have label : j.source.label = j'.source.label :=
    List.singleton_inj.1 (labels.symm.trans (same.trans labels'))
  have distinct : (joinLabels later.joins).Nodup := (List.nodup_cons.1 h.within).2
  rw [List.inj_on_of_nodup_map distinct inside inside' label]

/-! ## An owner and an owned type that refer to one target -/

def people : Model where
  entities := [
    { name := "Country"
      table := "Countries"
      properties := [⟨"Id", "Id", .integer, false, false⟩, ⟨"Name", "Name", .text, false, false⟩] },
    { name := "Address"
      table := "Persons"
      owned := true
      properties := [⟨"CountryId", "Address_CountryId", .integer, false, false⟩]
      navigations := [⟨"Country", "Country", .reference ["CountryId"] ["Id"] true⟩] },
    { name := "Person"
      table := "Persons"
      properties := [⟨"CountryId", "CountryId", .integer, false, false⟩]
      navigations := [⟨"Country", "Country", .reference ["CountryId"] ["Id"] true⟩,
        ⟨"Address", "Address", .owned⟩] }]

/-- Somebody born in the first country who lives in the second. -/
def emigrant : Database :=
  Database.ofTables [
    { name := "Countries"
      columns := [⟨"Id", .integer, false⟩, ⟨"Name", .text, false⟩]
      rows := [[.int 1, .text "first"], [.int 2, .text "second"]] },
    { name := "Persons"
      columns := [⟨"CountryId", .integer, false⟩, ⟨"Address_CountryId", .integer, false⟩]
      rows := [[.int 1, .int 2]] }]

def aPerson : Scope :=
  [("x", .entity { entity := "Person", label := "p" })]

def residence : Expr :=
  .member (.member (.member (.param "x") "Address") "Country") "Name"

def besideCountry (id : Int) (name : String) : Frame :=
  [⟨"p", ["CountryId", "Address_CountryId"], [.int 1, .int 2]⟩, ⟨"c", ["Id", "Name"], [.int id, .text name]⟩]

end Setwise.Planning
