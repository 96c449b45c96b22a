import QueryForms.InMemory.Interpretation
import QueryForms.Sql.Interpretation
import QueryForms.Main
import QueryForms.Proofs.Everywhere
import QueryForms.Proofs.Yields
import QueryForms.Proofs.Computation
import QueryForms.Proofs.Sql.Compilation
import QueryForms.Proofs.Sql.Injection
import QueryForms.Proofs.ConstantFolding
import QueryForms.Proofs.Sql.Condition
import QueryForms.Proofs.Levels
import QueryForms.Proofs.Separation
import QueryForms.Proofs.Sql.Grouping
import QueryForms.Proofs.Sql.Gathering
import QueryForms.Proofs.Sql.Stages
import QueryForms.Proofs.UnusedTable
import QueryForms.Proofs.InMemory.Groups
import QueryForms.Proofs.InMemory.Partitions
import QueryForms.Proofs.InMemory.Ordering
import QueryForms.Proofs.InMemory.Nesting
import QueryForms.Proofs.Sql.Comparison
import QueryForms.Proofs.Sql.Null
import QueryForms.Proofs.InMemory.Stability
import QueryForms.Proofs.InMemory.Rollup
import QueryForms.Proofs.InMemory.Ranking
import QueryForms.Proofs.InMemory.Shifts
import QueryForms.Proofs.Sql.Frames
import QueryForms.Proofs.InMemory.Joins
import QueryForms.Proofs.InMemory.Columns
import QueryForms.Proofs.InMemory.Collapse
import QueryForms.Proofs.InMemory.Resolution
import QueryForms.Proofs.InMemory.Paging
import QueryForms.Proofs.Arithmetic
import QueryForms.Proofs.InMemory.Pages
import QueryForms.Proofs.Sql.Union
import QueryForms.Proofs.Sql.Sites
import QueryForms.Proofs.InMemory.Sums
import QueryForms.Proofs.Neutral
import QueryForms.Proofs.Text.Regex
import QueryForms.Proofs.InMemory.Extremes
import QueryForms.Proofs.Collation
import QueryForms.Proofs.Quotation
import QueryForms.Proofs.Json.RoundTrip
import QueryForms.Proofs.Date.RoundTrip
import QueryForms.Proofs.Json.Materialization
import QueryForms.Proofs.InMemory.Renaming
import QueryForms.Proofs.Distinct
import QueryForms.Proofs.Sql.Stream
import QueryForms.Proofs.InMemory.Namespaces
import QueryForms.Proofs.Splitting
import QueryForms.Proofs.Paths
import QueryForms.Proofs.Documents
