import ElementCatalog.ChangedAt.InMemory
import ElementCatalog.Command.Run
import ElementCatalog.ElementId.Nesting
import ElementCatalog.Files.Disk
import ElementCatalog.Main
import ElementCatalog.Proofs.ChangedAt.LastChange
import ElementCatalog.Proofs.ChangedAt.Retry
import ElementCatalog.Proofs.Command.ApplyChanges
import ElementCatalog.Proofs.Command.ChangeSetting
import ElementCatalog.Proofs.Command.Resolve
import ElementCatalog.Proofs.Element.Locality
import ElementCatalog.Proofs.Element.Walk
import ElementCatalog.Proofs.ElementId.Nesting
import ElementCatalog.Proofs.Naming.Check
import ElementCatalog.Proofs.Naming.Idempotence
import ElementCatalog.Proofs.Naming.Interference
import ElementCatalog.Proofs.Naming.Missing
import ElementCatalog.Proofs.Naming.Occurrences
import ElementCatalog.Proofs.Naming.Order
import ElementCatalog.Proofs.Naming.Report
import ElementCatalog.Proofs.Naming.Snapshots
import ElementCatalog.Proofs.Naming.Suppression
import ElementCatalog.Proofs.Store.Session
import ElementCatalog.Proofs.Value.Denotation
