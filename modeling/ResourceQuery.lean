import ResourceQuery.Calendar
import ResourceQuery.Chain
import ResourceQuery.Compiler
import ResourceQuery.Decimal
import ResourceQuery.Decimal.Arithmetic
import ResourceQuery.Decimal.Binary
import ResourceQuery.Decimal.Quotient
import ResourceQuery.Decimal.Remainder
import ResourceQuery.Entries
import ResourceQuery.Error
import ResourceQuery.Expr
import ResourceQuery.Expr.Fold
import ResourceQuery.Expr.Text
import ResourceQuery.Function
import ResourceQuery.Guid
import ResourceQuery.Json
import ResourceQuery.Json.Options
import ResourceQuery.Json.Parameters
import ResourceQuery.Json.Record
import ResourceQuery.Json.Registry
import ResourceQuery.Lowering
import ResourceQuery.Lowering.ByKind
import ResourceQuery.Lowering.Role
import ResourceQuery.Lowering.Through
import ResourceQuery.Mapping
import ResourceQuery.Mapping.Cache
import ResourceQuery.Number.Binary
import ResourceQuery.Number.Rounding
import ResourceQuery.Number.Shortest
import ResourceQuery.Operator
import ResourceQuery.Options
import ResourceQuery.Parameters
import ResourceQuery.Query
import ResourceQuery.Query.Marker
import ResourceQuery.Query.Printer
import ResourceQuery.QueryString
import ResourceQuery.Session
import ResourceQuery.Text.Blank
import ResourceQuery.Text.Case
import ResourceQuery.Text.CaseTable
import ResourceQuery.Text.Quoted
import ResourceQuery.Text.Search
import ResourceQuery.Ty
import ResourceQuery.Value
import ResourceQuery.Value.Arithmetic
import ResourceQuery.Value.Conversion
import ResourceQuery.Value.Failure
import ResourceQuery.Value.Literal
import ResourceQuery.Value.Member
import ResourceQuery.Value.Order
import ResourceQuery.Value.Text
import ResourceQuery.Proofs.Critters
import ResourceQuery.Proofs.Evaluation
import ResourceQuery.Proofs.Meaning
import ResourceQuery.Proofs.Preservation
import ResourceQuery.Proofs.Markers
import ResourceQuery.Proofs.Lowered
import ResourceQuery.Proofs.LiteralText
import ResourceQuery.Proofs.Reading
import ResourceQuery.Proofs.Printing
import ResourceQuery.Proofs.Unambiguity
import ResourceQuery.Proofs.Substitution
import ResourceQuery.Proofs.Rekeyed
import ResourceQuery.Proofs.Layout
import ResourceQuery.Proofs.EntryKeys
import ResourceQuery.Proofs.WellFormed
import ResourceQuery.Proofs.Reports
import ResourceQuery.Proofs.ChainRun
import ResourceQuery.Proofs.ChainParameters
import ResourceQuery.Proofs.OperatorOrder
import ResourceQuery.Proofs.NestingLimit
import ResourceQuery.Proofs.Conjunction
import ResourceQuery.Proofs.Subtrees
import ResourceQuery.Proofs.Visits
import ResourceQuery.Proofs.MarkerOrder
import ResourceQuery.Proofs.Loosening
import ResourceQuery.Proofs.AccessPaths
import ResourceQuery.Proofs.FoldingDepth
import ResourceQuery.Proofs.Levels
import ResourceQuery.Proofs.Correspondence
import ResourceQuery.Proofs.Resemblance
import ResourceQuery.Proofs.LiftedConversions
import ResourceQuery.Proofs.ParameterNames
import ResourceQuery.Proofs.Decoding
import ResourceQuery.Proofs.Digits
import ResourceQuery.Proofs.ClockText
import ResourceQuery.Proofs.LiteralValues
import ResourceQuery.Proofs.Recoverability
import ResourceQuery.Proofs.IntegerFolding
import ResourceQuery.Proofs.MappingQuestions
import ResourceQuery.Proofs.CacheEntries
import ResourceQuery.Proofs.ReadThrough
import ResourceQuery.Proofs.CacheHistory
import ResourceQuery.Proofs.ClockOrder
import ResourceQuery.Proofs.SameValues
import ResourceQuery.Proofs.Comparisons
import ResourceQuery.Proofs.TextSearch
import ResourceQuery.Proofs.FoldableMembers
import ResourceQuery.Proofs.ProjectionFields
import ResourceQuery.Proofs.ConvertedValues
import ResourceQuery.Proofs.OffsetLiterals
import ResourceQuery.Proofs.KeyTrees
import ResourceQuery.Proofs.FlattenedElements
import ResourceQuery.Proofs.NodeShapes
import ResourceQuery.Proofs.FormlessNodes
