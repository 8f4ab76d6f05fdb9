import Galaxz.A2A.Proofs.ServerProofs
import Galaxz.A2A.Proofs.WormholeProofs
import Galaxz.Artifacts.Proofs.PostgresProofs
import Galaxz.Artifacts.Proofs.ContentProofs
import Galaxz.Goals.Proofs.OrderProofs
import Galaxz.Goals.Proofs.BlockingProofs
import Galaxz.Goals.Proofs.SubstitutionProofs
import Galaxz.Jobs.Proofs.BackendRunProofs
import Galaxz.Jobs.Proofs.PublicationProofs
import Galaxz.Jobs.Proofs.OutboxProofs
import Galaxz.Jobs.Proofs.ReplayProofs
import Galaxz.Jobs.Proofs.ClaimProofs
import Galaxz.Jobs.Proofs.LoadProofs
import Galaxz.Jobs.Proofs.SubmissionProofs
import Galaxz.Llm.Proofs.LimiterProofs
import Galaxz.Policy.Proofs.GrantProofs
import Galaxz.Andromeda.Proofs.VerdictProofs
import Galaxz.Andromeda.Proofs.AdmissionProofs
import Galaxz.Andromeda.Proofs.ApprovalProofs
import Galaxz.Andromeda.Proofs.PassthroughProofs
import Galaxz.Andromeda.Proofs.ReplyProofs
import Galaxz.Goals.Proofs.SavePlanProofs
import Galaxz.Andromeda.Proofs.GoalRunnerProofs
import Galaxz.Reviews.Proofs.DecisionProofs
import Galaxz.Security.Proofs.AppendProofs
import Galaxz.Pulsar.Proofs.PersistenceProofs
import Galaxz.Github.Proofs.WebhookProofs
import Galaxz.Orion.Proofs.LessonProofs
import Galaxz.Orion.Proofs.CurationProofs
import Galaxz.Storage.Proofs.RetentionProofs
import Galaxz.Artifacts.Proofs.ConcurrentProofs
import Galaxz.Artifacts.Proofs.LocalFilesProofs
import Galaxz.Orion.Proofs.IngestionProofs
import Galaxz.Orion.Proofs.FeedbackProofs
import Galaxz.Orion.Proofs.SignalProofs
import Galaxz.Workspace.Proofs.FileWriterProofs
import Galaxz.A2A.Proofs.StreamingProofs
import Galaxz.Lib.Fuel
import Galaxz.Quasar.Client
import Galaxz.Quasar.Agent
import Galaxz.Quasar.Proofs.ClientProofs
import Galaxz.Quasar.Proofs.AgentProofs
import Galaxz.A2A.Client
import Galaxz.A2A.Proofs.RemoteProofs
import Galaxz.A2A.Proofs.StartProofs
import Galaxz.A2A.Endpoint
import Galaxz.A2A.Proofs.EndpointProofs
import Galaxz.Lib.PyLines
import Galaxz.Lib.JsonReader
import Galaxz.Lib.JsonGrammar
import Galaxz.Lib.JsonLexing
import Galaxz.Agents.Loader
import Galaxz.Agents.Proofs.FenceProofs
import Galaxz.Rigel.Extraction
import Galaxz.Rigel.Proofs.ExtractionProofs
import Galaxz.Rigel.Confidence
import Galaxz.Rigel.Proofs.ConfidenceProofs
import Galaxz.Orion.LessonReview
import Galaxz.Orion.Proofs.LessonReviewProofs
import Galaxz.Orion.Proofs.RoutingWeightsProofs
import Galaxz.Security.Proofs.RedactionProofs
import Galaxz.Agents.Proofs.TemplateProofs
import Galaxz.Rigel.Proofs.EscapeProofs
import Galaxz.Orion.WeightArithmetic
import Galaxz.Orion.Proofs.WeightArithmeticProofs
import Galaxz.Andromeda.TaskLog
import Galaxz.Andromeda.Proofs.TaskLogProofs
import Galaxz.Orion.EventsTable
import Galaxz.Scorecards.Metrics
import Galaxz.Scorecards.Signing
import Galaxz.Scorecards.Proofs.SigningProofs
import Galaxz.Orion.Migration
import Galaxz.Orion.Proofs.ExampleLineProofs
import Galaxz.Orion.Proofs.MigrationProofs
import Galaxz.Scorecards.TimeWindows
import Galaxz.Scorecards.Proofs.WindowProofs
import Galaxz.Lib.Among
import Galaxz.Goals.Guarantees
import Galaxz.Jobs.Proofs.CancelProofs
import Galaxz.Goals.Proofs.CancellationProofs
import Galaxz.Goals.Proofs.RerunProofs
import Galaxz.Goals.Proofs.LimitProofs
import Galaxz.Jobs.Worker
import Galaxz.Jobs.Proofs.RefusalProofs
import Galaxz.Jobs.Proofs.ExecutionProofs
import Galaxz.Jobs.Proofs.FleetProofs
import Galaxz.Goals.Deployment
import Galaxz.Goals.Proofs.LineageProofs
import Galaxz.Goals.Proofs.LineageRequestProofs
import Galaxz.Goals.Proofs.DeploymentProofs
