import Setwise.Capabilities
import Setwise.Client.Expr
import Setwise.Client.Folding
import Setwise.Client.Mutation
import Setwise.Client.Printed
import Setwise.Client.Query
import Setwise.ColumnType
import Setwise.Database
import Setwise.Decimal.Layout
import Setwise.Decimal.Magnitude
import Setwise.Decimal.Reading
import Setwise.Decimal.Shortest
import Setwise.Execution.Frame
import Setwise.Execution.Selection
import Setwise.Execution.Writing
import Setwise.Model.Basic
import Setwise.Model.Entity
import Setwise.Model.Storage
import Setwise.Operation
import Setwise.Operator
import Setwise.Parameters.Basic
import Setwise.Parameters.Lifting
import Setwise.Planner
import Setwise.Planning.Assignment
import Setwise.Planning.Error
import Setwise.Planning.Expression
import Setwise.Planning.Mutation
import Setwise.Planning.Query
import Setwise.Planning.Shape
import Setwise.Planning.Workspace
import Setwise.Proofs.AgreeingRows
import Setwise.Proofs.AgreeingSelects
import Setwise.Proofs.AgreeingWrites
import Setwise.Proofs.AlikeShapes
import Setwise.Proofs.AppliedOperators
import Setwise.Proofs.Arrangement
import Setwise.Proofs.Atomicity
import Setwise.Proofs.Blanking
import Setwise.Proofs.BoundCommands
import Setwise.Proofs.BoundRuns
import Setwise.Proofs.BoundSelects
import Setwise.Proofs.BoundValues
import Setwise.Proofs.CapturedValues
import Setwise.Proofs.Carrying
import Setwise.Proofs.ChangedRows
import Setwise.Proofs.Columns
import Setwise.Proofs.Combining
import Setwise.Proofs.Comparison
import Setwise.Proofs.Conditions
import Setwise.Proofs.ConflictKeys
import Setwise.Proofs.Contents
import Setwise.Proofs.Conversions
import Setwise.Proofs.Counterparts
import Setwise.Proofs.CrossedJoins
import Setwise.Proofs.Delivery
import Setwise.Proofs.DistinctLabels
import Setwise.Proofs.Elements
import Setwise.Proofs.Evaluating
import Setwise.Proofs.ExposedInStep
import Setwise.Proofs.Exposure
import Setwise.Proofs.Fallbacks
import Setwise.Proofs.Feeding
import Setwise.Proofs.FilteredSets
import Setwise.Proofs.FilteredUpdates
import Setwise.Proofs.FinalKeys
import Setwise.Proofs.FlatInitialisers
import Setwise.Proofs.FoldedForms
import Setwise.Proofs.FoldedValues
import Setwise.Proofs.Following
import Setwise.Proofs.Frames
import Setwise.Proofs.FullMerges
import Setwise.Proofs.GatheredElements
import Setwise.Proofs.GatheredFrames
import Setwise.Proofs.GatheredJoins
import Setwise.Proofs.GatheredOperators
import Setwise.Proofs.GatheredQueries
import Setwise.Proofs.GatheredRows
import Setwise.Proofs.GatheredUpdates
import Setwise.Proofs.GatheredWrites
import Setwise.Proofs.GroupKeys
import Setwise.Proofs.Groups
import Setwise.Proofs.HiddenValues
import Setwise.Proofs.Identity
import Setwise.Proofs.InitialisedColumns
import Setwise.Proofs.Initialisers
import Setwise.Proofs.Integrity
import Setwise.Proofs.Interpretation
import Setwise.Proofs.Isolation
import Setwise.Proofs.KeptRows
import Setwise.Proofs.KeyEquality
import Setwise.Proofs.Labels
import Setwise.Proofs.LiftedValues
import Setwise.Proofs.Linking
import Setwise.Proofs.Lists
import Setwise.Proofs.LocatedRows
import Setwise.Proofs.LosslessLifting
import Setwise.Proofs.Meaning
import Setwise.Proofs.Members
import Setwise.Proofs.MergedRows
import Setwise.Proofs.MergedTables
import Setwise.Proofs.MutationsInStep
import Setwise.Proofs.Navigation
import Setwise.Proofs.OperationSteps
import Setwise.Proofs.Operators
import Setwise.Proofs.Origins
import Setwise.Proofs.OwnedTables
import Setwise.Proofs.Ownership
import Setwise.Proofs.Parts
import Setwise.Proofs.PhraseSorts
import Setwise.Proofs.Phrases
import Setwise.Proofs.Placeholders
import Setwise.Proofs.PlanCache
import Setwise.Proofs.PlanKeys
import Setwise.Proofs.PlannedMutations
import Setwise.Proofs.PrintedForms
import Setwise.Proofs.PrunedRuns
import Setwise.Proofs.Pruning
import Setwise.Proofs.PushedDown
import Setwise.Proofs.QueriesInStep
import Setwise.Proofs.QueryScoping
import Setwise.Proofs.QuotedText
import Setwise.Proofs.ReachedRows
import Setwise.Proofs.ReadElements
import Setwise.Proofs.ReadPlaceholders
import Setwise.Proofs.ReadResults
import Setwise.Proofs.Reading
import Setwise.Proofs.RealLiterals
import Setwise.Proofs.Reduction
import Setwise.Proofs.ReferenceJoins
import Setwise.Proofs.Registering
import Setwise.Proofs.RelabelledExpressions
import Setwise.Proofs.RelabelledPlans
import Setwise.Proofs.RelabelledShapes
import Setwise.Proofs.Relabelling
import Setwise.Proofs.RepeatedReads
import Setwise.Proofs.RepeatedUpserts
import Setwise.Proofs.ReplayedRuns
import Setwise.Proofs.ResolvedTables
import Setwise.Proofs.Results
import Setwise.Proofs.Rewriting
import Setwise.Proofs.RootQueries
import Setwise.Proofs.SafeRows
import Setwise.Proofs.SafeWrites
import Setwise.Proofs.Scoping
import Setwise.Proofs.SelfContained
import Setwise.Proofs.SessionDiscipline
import Setwise.Proofs.ShortestDecimals
import Setwise.Proofs.ShownElements
import Setwise.Proofs.SideBySide
import Setwise.Proofs.SortedClauses
import Setwise.Proofs.SoundModels
import Setwise.Proofs.StableSorting
import Setwise.Proofs.StandaloneResults
import Setwise.Proofs.Standing
import Setwise.Proofs.StaticNulls
import Setwise.Proofs.Steps
import Setwise.Proofs.UpsertedRows
import Setwise.Proofs.Upserting
import Setwise.Proofs.VisibleMutations
import Setwise.Proofs.VisibleQueries
import Setwise.Proofs.VisibleShapes
import Setwise.Proofs.WellScoped
import Setwise.Proofs.WellScopedPlans
import Setwise.Proofs.Writing
import Setwise.Proofs.WrittenForms
import Setwise.Relational.Binding
import Setwise.Relational.LiteralTables
import Setwise.Relational.Plan
import Setwise.Relational.Pruning
import Setwise.Relational.Scalar
import Setwise.Relational.Select
import Setwise.Session
import Setwise.Sql.Dialect
import Setwise.Sql.Fragment
import Setwise.Sql.Phrase
import Setwise.Sql.Select
import Setwise.Sql.Statement
import Setwise.Table.Basic
import Setwise.Table.Print
import Setwise.Table.Row
import Setwise.Text.CaseTable
import Setwise.Text.LowerCase
import Setwise.Text.Printed
import Setwise.Text.Quoted
import Setwise.Value.Basic
import Setwise.Value.Comparison
import Setwise.Value.Evaluation
import Setwise.Value.Remainder
