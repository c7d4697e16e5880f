import RustyCore.Theorems.Authorization
import RustyCore.Theorems.Blank
import RustyCore.Theorems.Bounded
import RustyCore.Theorems.BoundedText
import RustyCore.Theorems.Cancel
import RustyCore.Theorems.Committing
import RustyCore.Theorems.Delivery
import RustyCore.Theorems.Duplication
import RustyCore.Theorems.Edit
import RustyCore.Theorems.Elision
import RustyCore.Theorems.Firings
import RustyCore.Theorems.Globbing
import RustyCore.Theorems.Goals.Cycle
import RustyCore.Theorems.Goals.Evidence
import RustyCore.Theorems.History
import RustyCore.Theorems.Inputs
import RustyCore.Theorems.MergePatch
import RustyCore.Theorems.ModelBackend.Backoff
import RustyCore.Theorems.ModelBackend.Continuation
import RustyCore.Theorems.Pause
import RustyCore.Theorems.Provider.Carried
import RustyCore.Theorems.Provider.Complete
import RustyCore.Theorems.Provider.ToolCalls
import RustyCore.Theorems.RateWindow
import RustyCore.Theorems.Replaying
import RustyCore.Theorems.Reply.Unclear
import RustyCore.Theorems.Resolution
import RustyCore.Theorems.Retention
import RustyCore.Theorems.RewritePoint
import RustyCore.Theorems.SecretShield
import RustyCore.Theorems.SingleFlight
import RustyCore.Theorems.Spawning
import RustyCore.Theorems.Specs.Exact
import RustyCore.Theorems.Specs.Fields
import RustyCore.Theorems.Specs.Numbering
import RustyCore.Theorems.Specs.TaskCycle
import RustyCore.Theorems.Summarizing
import RustyCore.Theorems.Superseded
import RustyCore.Theorems.Survival
import RustyCore.Theorems.Tallies
import RustyCore.Theorems.ToolGit.Patch
import RustyCore.Theorems.ToolHistory
import RustyCore.Theorems.ToolScoping
import RustyCore.Theorems.TranscriptErrors
import RustyCore.Theorems.Transport
import RustyCore.Theorems.UsageTree
import RustyCore.Theorems.Workflow.Coverage
import RustyCore.Theorems.Workflow.Finite
import RustyCore.Theorems.Workflow.Plan
import RustyCore.Theorems.Workflow.ProducerSchemas
import RustyCore.Theorems.Workflow.Ranking
import RustyCore.Theorems.Workflow.Recovery
import RustyCore.Theorems.Workflow.Registry
import RustyCore.Theorems.Workflow.SchemaMeaning
import RustyCore.Theorems.Workflow.Stalls
import RustyCore.Theorems.Workspace
