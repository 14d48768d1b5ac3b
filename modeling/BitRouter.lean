import BitRouter.Accounting.Claims
import BitRouter.Adequacy.Circuits
import BitRouter.Admission.Fairness
import BitRouter.Ai.Wire
import BitRouter.Authority.Revocation
import BitRouter.Authority.Runs
import BitRouter.Evolution.JobRuns
import BitRouter.Evolution.PromptActive
import BitRouter.Evolution.Retention
import BitRouter.Evolution.Sparing
import BitRouter.Gateway.MessagesStream
import BitRouter.Gateway.MessagesUsage
import BitRouter.Gateway.ResponsesStream
import BitRouter.Gateway.StreamedAgreement
import BitRouter.Gateway.UsageSelection
import BitRouter.Guardrails.Window
import BitRouter.Mcp.RoundTrips
import BitRouter.Metering.LoopRuns
import BitRouter.Offline.Sort
import BitRouter.Optimization.Runs
import BitRouter.Policy.Selection
import BitRouter.Receipts.Completeness
import BitRouter.Receipts.Frozen
import BitRouter.Receipts.Links
import BitRouter.Receipts.Phases
import BitRouter.Registry.Numeral
import BitRouter.Registry.Reordered
import BitRouter.Registry.Selector
import BitRouter.Routing.Runs
import BitRouter.ServerTools.Aggregate
import BitRouter.ServerTools.Agreement
import BitRouter.ServerTools.Bounds
import BitRouter.ServerTools.Records
import BitRouter.Shared.Outbox
import BitRouter.Tenancy.Cache
import BitRouter.Trajectory.Continuation
import BitRouter.Trajectory.Escalation
import BitRouter.Trajectory.Lifecycle
import BitRouter.Transport.Boundaries
import BitRouter.Transport.HeaderLedger
