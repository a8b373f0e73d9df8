import BalanceAudit.Verdict
import BalanceAudit.Settings
import BalanceAudit.Cancellation
import BalanceAudit.Scratch
import BalanceAudit.Recording
import BalanceAudit.Main
import BalanceAudit.Rehearsal.History
import BalanceAudit.Rehearsal.Fault
import BalanceAudit.Rehearsal.Worker
import BalanceAudit.Proofs.Table
import BalanceAudit.Proofs.Decimal.Exact
import BalanceAudit.Proofs.Block.Deltas
import BalanceAudit.Proofs.Ledger
import BalanceAudit.Proofs.Json
import BalanceAudit.Proofs.Decimal.Text
import BalanceAudit.Proofs.Count
import BalanceAudit.Proofs.Store
import BalanceAudit.Proofs.Ledger.Limits
import BalanceAudit.Proofs.Ledger.Stored
import BalanceAudit.Proofs.Store.Reopened
import BalanceAudit.Proofs.Store.Crash
import BalanceAudit.Proofs.Store.Commit
import BalanceAudit.Proofs.Store.Usage
import BalanceAudit.Proofs.Step
import BalanceAudit.Proofs.Served
import BalanceAudit.Proofs.Chain
import BalanceAudit.Proofs.Staging
import BalanceAudit.Proofs.Check
import BalanceAudit.Proofs.Cancellation
import BalanceAudit.Proofs.Waiting
import BalanceAudit.Proofs.Sync
import BalanceAudit.Proofs.Faults
import BalanceAudit.Proofs.Moves
import BalanceAudit.Proofs.Books
import BalanceAudit.Proofs.Computed
import BalanceAudit.Proofs.Pipeline
import BalanceAudit.Proofs.Window
import BalanceAudit.Proofs.Index
import BalanceAudit.Proofs.Tiling
import BalanceAudit.Proofs.Search
import BalanceAudit.Proofs.Release
import BalanceAudit.Proofs.History
import BalanceAudit.Proofs.Omission
import BalanceAudit.Proofs.Audit
import BalanceAudit.Proofs.Verdict
import BalanceAudit.Proofs.Mirror
import BalanceAudit.Proofs.Replay
import BalanceAudit.Proofs.Quiet
import BalanceAudit.Proofs.Applied
import BalanceAudit.Proofs.Resumed
import BalanceAudit.Proofs.Aborts
import BalanceAudit.Proofs.Glance
import BalanceAudit.Proofs.Reports
import BalanceAudit.Proofs.Shadow
import BalanceAudit.Proofs.Files
import BalanceAudit.Proofs.Course
import BalanceAudit.Proofs.Continued
import BalanceAudit.Proofs.Split
import BalanceAudit.Proofs.Outward
import BalanceAudit.Proofs.Extent
import BalanceAudit.Proofs.Check.Deeds
import BalanceAudit.Proofs.Check.Crew
import BalanceAudit.Proofs.Check.Partition
import BalanceAudit.Proofs.Sweep.Claims
import BalanceAudit.Proofs.Sweep.Workers
import BalanceAudit.Proofs.Sweep.Abreast
import BalanceAudit.Proofs.Sweep.Once
import BalanceAudit.Proofs.Sweep.Interesting
import BalanceAudit.Proofs.Ledger.Tally
import BalanceAudit.Proofs.Tenure.Paces
import BalanceAudit.Proofs.Tenure.Mirrored
import BalanceAudit.Proofs.Tenure.Directory
import BalanceAudit.Proofs.Cancellation.Histories
import BalanceAudit.Proofs.Scratch
import BalanceAudit.Proofs.Recording
import BalanceAudit.Proofs.Budget
import BalanceAudit.Proofs.Store.Manifest
import BalanceAudit.Proofs.Store.Counting
import BalanceAudit.Proofs.Tenure.Networks
import BalanceAudit.Proofs.Words
import BalanceAudit.Proofs.Block.Merging
import BalanceAudit.Proofs.Sweep.Longest
import BalanceAudit.Proofs.Sweep.Fairness
