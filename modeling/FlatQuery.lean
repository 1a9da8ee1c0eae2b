import FlatQuery.Main
import FlatQuery.Proofs.Outcome
import FlatQuery.Proofs.Rows.Start
import FlatQuery.Proofs.Rows.Machines
import FlatQuery.Proofs.Rows.Denotation
import FlatQuery.Proofs.Name
import FlatQuery.Proofs.Plan.Bound
import FlatQuery.Proofs.Query.Truth
import FlatQuery.Proofs.Rows.Resolve
import FlatQuery.Proofs.Query.Qualified
import FlatQuery.Proofs.Query.InFull
import FlatQuery.Proofs.Rows.Product
import FlatQuery.Proofs.Plan.Pushdown
import FlatQuery.Proofs.Rows.Grouped
import FlatQuery.Proofs.Plan.Stages
import FlatQuery.Proofs.Sql.Meaning
import FlatQuery.Proofs.Sql.Overlooked
import FlatQuery.Proofs.Sql.Alike
import FlatQuery.Proofs.Catalog.Consistent
import FlatQuery.Proofs.Catalog.Run
import FlatQuery.Proofs.Files.Place
import FlatQuery.Proofs.Catalog.Dropped
import FlatQuery.Proofs.Catalog.Durable
import FlatQuery.Proofs.Catalog.Failure
import FlatQuery.Proofs.Catalog.Load
import FlatQuery.Proofs.Catalog.Opened
import FlatQuery.Proofs.Plan.Prepared
import FlatQuery.Proofs.Rows.Rearranged
import FlatQuery.Proofs.Plan.Views
import FlatQuery.Proofs.Plan.RowOrder
import FlatQuery.Proofs.Rows.Pieces
import FlatQuery.Proofs.Plan.SourceOrder
import FlatQuery.Proofs.Rows.Kept
import FlatQuery.Proofs.Plan.Layout
import FlatQuery.Proofs.Rows.Written
import FlatQuery.Proofs.Plan.Blocking
import FlatQuery.Proofs.Files.Confined
import FlatQuery.Proofs.Files.Grown
import FlatQuery.Proofs.Database.Agreement
import FlatQuery.Proofs.Query.Spelling
import FlatQuery.Proofs.Rows.Respelled
import FlatQuery.Proofs.Plan.Respelled
import FlatQuery.Proofs.Plan.ItemOrder
import FlatQuery.Proofs.Plan.Resolved
import FlatQuery.Proofs.Plan.Provenance
import FlatQuery.Proofs.Plan.TableStar
import FlatQuery.Proofs.Plan.NameStar
import FlatQuery.Proofs.Rows.Calls
import FlatQuery.Proofs.Rows.NestedLoop
import FlatQuery.Proofs.Rows.GroupSums
import FlatQuery.Proofs.Rows.SumOrder
import FlatQuery.Proofs.Text.ByteOrder
import FlatQuery.Proofs.Rows.SortOrder
import FlatQuery.Proofs.Rows.Conditions
import FlatQuery.Proofs.Rows.Products
import FlatQuery.Proofs.Rows.Limited
import FlatQuery.Proofs.Text.Integer
import FlatQuery.Proofs.Sql.Numbers
import FlatQuery.Proofs.Sql.Integers
import FlatQuery.Proofs.Query.Rejoined
import FlatQuery.Proofs.Rows.Interrupted
import FlatQuery.Proofs.Plan.GroupedDistinct
import FlatQuery.Proofs.Plan.Conjuncts
import FlatQuery.Proofs.Plan.Placement
import FlatQuery.Proofs.Plan.SelectGrammar
import FlatQuery.Proofs.Catalog.Loaded
import FlatQuery.Proofs.Text.Pieces
import FlatQuery.Proofs.Text.Words
import FlatQuery.Proofs.Files.Standing
import FlatQuery.Proofs.Files.Lines
import FlatQuery.Proofs.Catalog.Underway
import FlatQuery.Proofs.Catalog.SchemaText
import FlatQuery.Proofs.Rows.Late
import FlatQuery.Proofs.Database.Refused
import FlatQuery.Proofs.Rows.Rescanned
import FlatQuery.Proofs.Plan.OutputAsData
import FlatQuery.Proofs.Plan.OrderKeys
import FlatQuery.Proofs.Plan.OrderedSums
