import MetricDepot.Depot.Host
import MetricDepot.Proofs.Checkpoint.Restored
import MetricDepot.Proofs.Depot.Order
import MetricDepot.Proofs.FileSystem.Places
import MetricDepot.Proofs.Checkpoint.Staging
import MetricDepot.Proofs.Depot.Durable
import MetricDepot.Proofs.Json.Reads
import MetricDepot.Proofs.Json.Numbers
import MetricDepot.Proofs.Json.Trees
import MetricDepot.Proofs.Family.Written
import MetricDepot.Proofs.Catalog.Slots
import MetricDepot.Proofs.Checkpoint.RoundTrip
import MetricDepot.Proofs.Catalog.Requests
import MetricDepot.Proofs.Depot.Schedule
import MetricDepot.Proofs.Depot.Rest
import MetricDepot.Proofs.Depot.Holders
import MetricDepot.Proofs.Depot.Closing
import MetricDepot.Proofs.Depot.Survival
import MetricDepot.Proofs.Depot.Flush
import MetricDepot.Proofs.Depot.Restart
import MetricDepot.Proofs.Checkpoint.Layout
import MetricDepot.Proofs.Checkpoint.Accepted
import MetricDepot.Proofs.Checkpoint.Damaged
import MetricDepot.Proofs.Catalog.Effects
import MetricDepot.Proofs.Catalog.Writes
import MetricDepot.Proofs.Catalog.Outcomes
import MetricDepot.Proofs.Catalog.Commuting
import MetricDepot.Proofs.Checkpoint.Replay
import MetricDepot.Proofs.Depot.Lifecycle
import MetricDepot.Proofs.Checkpoint.Canonical
import MetricDepot.Proofs.Depot.Quiet
import MetricDepot.Proofs.Depot.Ledger
import MetricDepot.Proofs.Depot.Tally
import MetricDepot.Proofs.Catalog.Deletions
import MetricDepot.Proofs.ByteOrder
import MetricDepot.Proofs.Catalog.Gathered
import MetricDepot.Proofs.Catalog.Series
import MetricDepot.Proofs.Depot.Prompt
import MetricDepot.Proofs.Family.RoundTrip
import MetricDepot.Proofs.Settings.RoundTrip
import MetricDepot.Proofs.Checkpoint.Replaced
import MetricDepot.Proofs.Catalog.PushTimes
import MetricDepot.Proofs.Settings.Durations
import MetricDepot.Proofs.Family.Flaws
import MetricDepot.Proofs.Catalog.Walks
import MetricDepot.Proofs.Depot.Stillness
