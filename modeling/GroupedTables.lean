import GroupedTables.Alter.DryRun
import GroupedTables.Alter.Memory
import GroupedTables.Catalog.Stored
import GroupedTables.Record.Builder
import GroupedTables.Record.Field
import GroupedTables.Proofs.Alter.Atomicity
import GroupedTables.Proofs.Alter.Calls
import GroupedTables.Proofs.Alter.Cancelling
import GroupedTables.Proofs.Alter.IndexChanges
import GroupedTables.Proofs.Alter.IntegerDefaults
import GroupedTables.Proofs.Alter.MadeUpNames
import GroupedTables.Proofs.Alter.Leaving
import GroupedTables.Proofs.Alter.NumericStart
import GroupedTables.Proofs.Alter.Outcomes
import GroupedTables.Proofs.Alter.PrimaryKey
import GroupedTables.Proofs.Alter.Relabelling
import GroupedTables.Proofs.Alter.Statements
import GroupedTables.Proofs.Alter.Undoing
import GroupedTables.Proofs.Alter.Watching
import GroupedTables.Proofs.Catalog.Forest
import GroupedTables.Proofs.Catalog.GroupingAfresh
import GroupedTables.Proofs.Catalog.Parts
import GroupedTables.Proofs.Catalog.Stored
import GroupedTables.Proofs.Catalog.Ways
import GroupedTables.Proofs.Decimal.Storing
import GroupedTables.Proofs.Record.Quoting
import GroupedTables.Proofs.Record.Reading
import GroupedTables.Proofs.Record.Rebuilding
import GroupedTables.Proofs.Record.Temporal
import GroupedTables.Proofs.Record.TwosComplement
