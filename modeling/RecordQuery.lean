import RecordQuery.Expr.Rendering
import RecordQuery.Binary64.SinglePrecision
import RecordQuery.Query.Program
import RecordQuery.Proofs.Expr.Meaning
import RecordQuery.Proofs.Expr.Regrouping
import RecordQuery.Proofs.Query.Reading
import RecordQuery.Proofs.Query.Built
import RecordQuery.Proofs.Query.AcceptedPaths
import RecordQuery.Proofs.Query.SpecRoundTrip
import RecordQuery.Proofs.Arrangement.Partition
import RecordQuery.Proofs.Arrangement.StableSort
import RecordQuery.Proofs.Arrangement.LeastProjection
import RecordQuery.Proofs.Arrangement.KeptSelection
import RecordQuery.Proofs.Arrangement.LateProjection
import RecordQuery.Proofs.Query.Runs
import RecordQuery.Proofs.Query.StoredSpec
import RecordQuery.Proofs.Expr.Shown
import RecordQuery.Proofs.FieldValue.Places
import RecordQuery.Proofs.FieldValue.ComparisonRules
import RecordQuery.Proofs.Query.NoVacuity
import RecordQuery.Proofs.Query.ValidPaths
import RecordQuery.Proofs.Query.FirstError
import RecordQuery.Proofs.Query.LostError
import RecordQuery.Proofs.Query.UniqueKeys
import RecordQuery.Proofs.FieldValue.IntegerOrder
import RecordQuery.Proofs.Decimal.Natural
import RecordQuery.Proofs.Decimal.WholeShortest
import RecordQuery.Proofs.Binary64.IntegerText
import RecordQuery.Proofs.FieldValue.EqualTexts
import RecordQuery.Proofs.FieldValue.NumberOfText
import RecordQuery.Proofs.FieldValue.ReadBack
import RecordQuery.Proofs.FieldValue.OrderAgreement
import RecordQuery.Proofs.Query.IgnoredCase
import RecordQuery.Proofs.FieldValue.Consistency
import RecordQuery.Proofs.Query.IdleGroups
import RecordQuery.Proofs.Clause.ListElements
import RecordQuery.Proofs.Query.DeclaredKeys
import RecordQuery.Proofs.Arrangement.OutputDocument
import RecordQuery.Proofs.Query.NamedFields
import RecordQuery.Proofs.Arrangement.RebuiltArrays
import RecordQuery.Proofs.FieldPath.Grammar
