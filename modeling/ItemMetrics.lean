import ItemMetrics.Main
import ItemMetrics.Proofs.FieldPath.Undotted
import ItemMetrics.Proofs.Evaluator.Credit
import ItemMetrics.Proofs.Metric.Reading
import ItemMetrics.Proofs.Evaluator.Noninterference
import ItemMetrics.Proofs.Evaluator.Reordering
import ItemMetrics.Proofs.Metric.Check
import ItemMetrics.Proofs.Evaluator.Check
import ItemMetrics.Proofs.Evaluator.Events
import ItemMetrics.Proofs.Evaluator.Views
import ItemMetrics.Proofs.Registry.History
import ItemMetrics.Proofs.Document.Renaming
import ItemMetrics.Proofs.Registry.Events
import ItemMetrics.Proofs.Trace.Spans
import ItemMetrics.Proofs.Evaluator.Finite
import ItemMetrics.Proofs.Metric.Definition
import ItemMetrics.Proofs.Command.Check
import ItemMetrics.Proofs.Command.Atomicity
import ItemMetrics.Proofs.Metric.Division
import ItemMetrics.Proofs.Metric.Counting
import ItemMetrics.Proofs.Text.Words
import ItemMetrics.Proofs.Metric.RichText
import ItemMetrics.Proofs.Metric.Omission
import ItemMetrics.Proofs.Metric.Conversion
import ItemMetrics.Proofs.Metric.NormalForm
import ItemMetrics.Proofs.Decimal.Layout
import ItemMetrics.Proofs.Document.Discovery
import ItemMetrics.Proofs.Registry.Manifest
import ItemMetrics.Proofs.Report.Color
import ItemMetrics.Proofs.Metric.Insertion
import ItemMetrics.Proofs.Report.Section
import ItemMetrics.Proofs.Settings.Loading
