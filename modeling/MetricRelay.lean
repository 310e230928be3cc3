import MetricRelay.Main
import MetricRelay.Proofs.Forwarding
import MetricRelay.Rehearsal.Forwarder
import MetricRelay.Filter.Sharing
import MetricRelay.Proofs.Frame
import MetricRelay.Proofs.Service.Bounds
import MetricRelay.Proofs.Filter.History
import MetricRelay.Proofs.Filter.Refinement
import MetricRelay.Proofs.Filter.Refresh
import MetricRelay.Proofs.Service.Sharing
import MetricRelay.Proofs.Service.Reporting
import MetricRelay.Proofs.Reentry
import MetricRelay.Proofs.ActiveChecks.Written
import MetricRelay.Proofs.Service.Timeliness
import MetricRelay.Proofs.Config.Acceptance
import MetricRelay.Proofs.Batch
import MetricRelay.Proofs.ActiveChecks.Passing
import MetricRelay.Proofs.ActiveChecks.Listing
import MetricRelay.Proofs.Service.Inert
import MetricRelay.Proofs.ActiveChecks.Interval
import MetricRelay.Proofs.Record
import MetricRelay.Proofs.Inbound.Members
