import Setwise.Client.Folding
import Setwise.Model.Basic
import Setwise.Parameters.Basic

/-!
Why a query or a mutation has no plan.

An error names its reason and the client expression, lambda, query or mutation that it is about.
-/

set_option autoImplicit false

namespace Setwise.Planning

open Client

inductive Reason where
  -- lambdas and their bodies
  | parameterCount (expected : Nat)
  | unknownParameter (name : String)
  | constructorArguments
  | listInitializer
  | scalarExpected
  | scalarsExpected
  | navigationNotAllowed (e : Expr)
  | operatorOnObjects (op : Operator)
  -- members
  | unknownMember (member entity : String)
  | unknownField (name : String)
  | onlyGroupKey (member : String)
  | notInserted (member : String)
  | notReadableFromIncoming (member : String)
  | memberOfScalar (member : String)
  -- keys
  | keyLengths
  | missingKeyMember (name : String)
  | noPrimaryKey (entity : String)
  | incomparable
  | emptyKey
  -- queries
  | ownedSet (entity : String)
  | unionShapes
  | incomingInSubquery
  -- initialisers
  | initializerExpected (entity : String) (found : Expr)
  | constructorUnsupported (found : Expr)
  | wrongType (expected found : String)
  | bindingUnsupported (found : Binding Expr)
  | assignedTwice (path : List String)
  | notOwned (member target : String)
  | notProperty (member entity : String)
  | instanceExpected (entity : String) (found : Expr)
  | nothingAssigned (what : String)
  -- mutations
  | operatorBefore (operator mutation : String)
  | unpagedQueryNeeded (mutation : String)
  | rootSetNeeded (mutation : String)
  | rootEntitiesNeeded (mutation : String)
  | tableMismatch (entity table : String)
  | ownedTarget (entity : String)
  | initializerQueryExpected (target : String)
  | noUsableKey (entity : String)
  | mergeUnsupported (store : String)
  | emptyMerge
  | constantWithoutValue (error : FoldingError)

def Reason.message : Reason → String
  | parameterCount n => "Expected a lambda with " ++ toString n ++ " parameter(s)."
  | unknownParameter name => "Unknown parameter '" ++ name ++ "'."
  | constructorArguments => "Constructors with arguments cannot be translated; use member initialization."
  | listInitializer => "List initializers cannot be translated."
  | scalarExpected => "Expected a scalar value."
  | scalarsExpected => "Expected scalar values or a record of scalar values."
  | navigationNotAllowed e =>
    "Navigations to other entity types cannot be used in '" ++ e.display ++ "'."
  | operatorOnObjects op => "Operator '" ++ op.symbol ++ "' applies only to scalar values."
  | unknownMember member entity =>
    "'" ++ member ++ "' is not a property or navigation of entity type '" ++ entity ++ "'."
  | unknownField name => "The record has no member '" ++ name ++ "'."
  | onlyGroupKey member => "Only the Key of a grouping can be read, not '" ++ member ++ "'."
  | notInserted member =>
    "'" ++ member ++ "' is not assigned by the insert expression, so the incoming row has no value for it."
  | notReadableFromIncoming member => "'" ++ member ++ "' cannot be read from the incoming row."
  | memberOfScalar member => "Member '" ++ member ++ "' of a scalar value cannot be translated."
  | keyLengths => "Composite keys must have the same members on both sides."
  | missingKeyMember name => "'" ++ name ++ "' is missing from one side of the key."
  | noPrimaryKey entity => "Entity type '" ++ entity ++ "' has no primary key."
  | incomparable => "Only scalar values, records and entities of the same type can be compared."
  | emptyKey => "Empty keys cannot be compared."
  | ownedSet entity => "Owned entity type '" ++ entity ++ "' cannot be queried on its own."
  | unionShapes => "Both sides of a Union must have the same shape."
  | incomingInSubquery => "The incoming row of an upsert cannot be used in a subquery."
  | initializerExpected entity found =>
    "Expected a member initialization of '" ++ entity ++ "', found '" ++ found.display ++ "'."
  | constructorUnsupported found => "Non-simple constructor unsupported: '" ++ found.display ++ "'."
  | wrongType expected found => "Expected an instance of '" ++ expected ++ "', found '" ++ found ++ "'."
  | bindingUnsupported found =>
    "Unsupported binding '" ++ Expr.displayBinding found ++ "'; only member assignments are allowed."
  | assignedTwice path => "'" ++ ".".intercalate path ++ "' is assigned more than once."
  | notOwned member target =>
    "'" ++ member ++ "' navigates to entity type '" ++ target
      ++ "', which has its own table; only owned types can be assigned."
  | notProperty member entity => "'" ++ member ++ "' is not a property of '" ++ entity ++ "'."
  | instanceExpected entity found =>
    "Expected 'new " ++ entity ++ " \x7b ... \x7d', found '" ++ found.display ++ "'."
  | nothingAssigned what => "The " ++ what ++ " expression assigns no properties."
  | operatorBefore operator mutation =>
    "'" ++ operator ++ "' cannot be applied before '" ++ mutation ++ "'."
  | unpagedQueryNeeded mutation =>
    "'" ++ mutation ++ "' needs a query without paging, grouping or set operations."
  | rootSetNeeded mutation => "'" ++ mutation ++ "' must be applied to a query rooted at an entity set."
  | rootEntitiesNeeded mutation =>
    "'" ++ mutation ++ "' must be applied to the entities of its root set."
  | tableMismatch entity table => "'" ++ entity ++ "' is not mapped to table '" ++ table ++ "'."
  | ownedTarget entity => "Owned entity type '" ++ entity ++ "' cannot be written on its own."
  | initializerQueryExpected target =>
    "The query must end with 'Select(x => new " ++ target ++ " \x7b ... \x7d)'."
  | noUsableKey entity =>
    "No usable key: the insert expression must assign every property of a primary or alternate key of '"
      ++ entity ++ "', and none of them may be store-generated."
  | mergeUnsupported store => store ++ " does not support MERGE."
  | emptyMerge => "Merge needs an update expression, an insert expression or delete: true."
  | constantWithoutValue error => error.message

inductive Subject where
  | expr (e : Expr)
  | lambda (l : Lambda)
  | query (q : Query)
  | mutation (m : Mutation)

def Subject.display : Subject → String
  | expr e => e.display
  | lambda l => l.display
  | query q => q.display
  | mutation m => m.display

inductive Error where
  | inexpressible (reason : Reason) (subject : Subject)
  | lifting (error : Parameters.Error)
  | model (error : Model.Error)

def Error.message : Error → String
  | inexpressible reason subject =>
    "The query expression '" ++ subject.display ++ "' could not be translated. " ++ reason.message
  | lifting error => error.message
  | model error => error.message

def fail {m : Type → Type} [MonadExcept Error m] {α : Type} (reason : Reason) (subject : Subject) :
    m α :=
  throw (.inexpressible reason subject)

def lookUp {m : Type → Type} [Monad m] [MonadExcept Error m] {α : Type} : Except Model.Error α → m α
  | .ok a => pure a
  | .error e => throw (.model e)

end Setwise.Planning
