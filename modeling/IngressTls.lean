import IngressTls.Main
import IngressTls.Platform
import IngressTls.Proofs.Bookkeeping.Faults
import IngressTls.Proofs.Cluster.Asked
import IngressTls.Proofs.Cluster.Classes
import IngressTls.Proofs.Cluster.Demanded
import IngressTls.Proofs.Cluster.GivenUp
import IngressTls.Proofs.Cluster.Reclaim
import IngressTls.Proofs.Cluster.Satisfied
import IngressTls.Proofs.Cluster.Stranded
import IngressTls.Proofs.Gate.History
import IngressTls.Proofs.HostRule.Slices
import IngressTls.Proofs.Hosts
import IngressTls.Proofs.Manager.Accounting
import IngressTls.Proofs.Manager.Admissions
import IngressTls.Proofs.Manager.Finality
import IngressTls.Proofs.Manager.Horizon
import IngressTls.Proofs.Manager.Leftover
import IngressTls.Proofs.Manager.Newest
import IngressTls.Proofs.Manager.Outcome
import IngressTls.Proofs.Manager.Outstanding
import IngressTls.Proofs.Manager.Ownership
import IngressTls.Proofs.Manager.Readmission
import IngressTls.Proofs.Manager.Renewing
import IngressTls.Proofs.Manager.Retries
import IngressTls.Proofs.Manager.Separation
import IngressTls.Proofs.Manager.Share
import IngressTls.Proofs.Manager.Shutdown
import IngressTls.Proofs.Quota.Admission
import IngressTls.Proofs.Quota.AtOnce
import IngressTls.Proofs.Quota.Ceiling
import IngressTls.Proofs.Quota.Desk
import IngressTls.Proofs.Quota.Lifecycle
import IngressTls.Proofs.Quota.Overlap
import IngressTls.Proofs.Quota.Reporting
import IngressTls.Proofs.Quota.Share
import IngressTls.Proofs.Quota.Words
import IngressTls.Proofs.Resource.Survival
import IngressTls.Proofs.Resource.Versions
import IngressTls.Proofs.Watch.Lobby
import IngressTls.Proofs.Watch.Relist
import IngressTls.Proofs.Watch.Startup
import IngressTls.Proofs.WorkQueue.History
import IngressTls.Proofs.WorkQueue.Wakeups
import IngressTls.Rehearsal.Cluster
import IngressTls.Rehearsal.Dispatching
import IngressTls.Rehearsal.Handles
import IngressTls.Rehearsal.Queue
import IngressTls.Rehearsal.Reporting
