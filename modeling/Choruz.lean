import Choruz.Proofs.Bindings
import Choruz.Proofs.Replies
import Choruz.Proofs.Turns
import Choruz.Proofs.SyncFeed
import Choruz.RateLimit
import Choruz.Proofs.Routing
import Choruz.Proofs.Outbox
import Choruz.Proofs.Sending
import Choruz.Proofs.Unread
import Choruz.Proofs.CronEdits
import Choruz.Proofs.TaskHistory
import Choruz.Proofs.ToolGateway
import Choruz.Proofs.RelayLimits
import Choruz.Proofs.Migrations
import Choruz.Proofs.Pairing
import Choruz.Proofs.RelayTarget
import Choruz.Proofs.WorkflowAppends
import Choruz.Proofs.TaskIdempotency
import Choruz.Proofs.RemoteOutbox
import Choruz.Proofs.OutboxShipping
import Choruz.Proofs.EvaluationQueue
import Choruz.Proofs.Fairness
import Choruz.Proofs.OnlineGroups
import Choruz.Proofs.ProvisionCleanup
import Choruz.Proofs.ProvisionOnce
import Choruz.Proofs.SearchOutcome
import Choruz.Proofs.CaseGroups
import Choruz.Proofs.Inbox
import Choruz.Proofs.OutboxFiles
