import DBVault.AgentProtocol
import DBVault.Approval
import DBVault.Audit
import DBVault.Auth.History
import DBVault.Auth.RateLimit
import DBVault.Catalogue.Agreement
import DBVault.Catalogue.Warehouse
import DBVault.Compression
import DBVault.Configuration.Binding
import DBVault.Configuration.Legacy
import DBVault.Configuration.Redaction
import DBVault.ControlPlane
import DBVault.Deduplication
import DBVault.Encryption.Emergency
import DBVault.Encryption.Standards
import DBVault.Locking
import DBVault.Merkle.Binding
import DBVault.PgDiag.Elevation
import DBVault.PgDiag.Qualified
import DBVault.ProductExperience.Events
import DBVault.ProductExperience.MasterKey
import DBVault.ProductExperience.Warehouse.Csv
import DBVault.ProductExperience.Warehouse.Evidence
import DBVault.ProductExperience.Warehouse.Masking
import DBVault.Queue.Agreement
import DBVault.Queue.Backoff
import DBVault.Queue.Terminal
import DBVault.Queue.Texts
import DBVault.RecoveryWindow.Planning
import DBVault.Replication.Publication
import DBVault.Restore.Failure
import DBVault.Restore.Layout
import DBVault.Restore.OnDisk
import DBVault.Retention.Policies
import DBVault.Retention.Verified
import DBVault.Scheduler.Expansion
import DBVault.Scheduler.Passes
import DBVault.Scheduler.Sweeping
import DBVault.Scheduler.Ticks
import DBVault.Storage.Exact
import DBVault.Storage.Puts
import DBVault.Verification
