import U2os.Majordomo.Actions.Approval
import U2os.Majordomo.Actions.AtMostOnce
import U2os.Majordomo.Actions.Audit
import U2os.Majordomo.Events.Delivery
import U2os.Server.Agent.GoalWakes
import U2os.Server.Packages.UnitOutcomes
import U2os.Server.Agent.Authority
import U2os.Server.Events.SseHub
import U2os.Server.Packages.AutomationEvents
import U2os.Mcp.Jobs.OneEmail
import U2os.Mcp.Jobs.OneSubmit
import U2os.Server.Agent.Transcript
import U2os.Server.Backup.RecoveryReviews
import U2os.Server.Vault.Idempotence
import U2os.Server.Packages.Template
import U2os.Server.Packages.Restart
import U2os.Majordomo.Memory.Handle
import U2os.Server.Packages.VersionLines
import U2os.Server.Packages.DrainCalls
import U2os.Server.Packages.DrainPass
import U2os.Server.Vault.Classification
import U2os.Server.Vault.Isolation
import U2os.Server.Vault.Rendered
import U2os.Majordomo.Vault.Parity
import U2os.Majordomo.Actions.Backoff
import U2os.Majordomo.Actions.Submit
import U2os.Majordomo.Scheduler.Throttle
import U2os.Majordomo.Scheduler.DueSlot
import U2os.Server.Triggers.Isolation
import U2os.Server.Triggers.TimerDiscipline
import U2os.Server.Policy.RememberApproval
import U2os.Server.Packages.NextCronTime
import U2os.Server.Packages.LoadOrder
import U2os.Server.Packages.SchemaMeaning
import U2os.Server.Agent.ContextPrivacyFilter
import U2os.Server.Packages.Permissions
import U2os.Server.Vault.ConfigSecrets
import U2os.Server.Devices.Presence
import U2os.Server.Integrations.GoogleOauth
import U2os.Server.Integrations.MimeReading
import U2os.Server.Agent.FilteredObservations
import U2os.Server.Integrations.GoogleWrites
import U2os.Majordomo.Git.Forget
import U2os.Majordomo.Memory.Links
import U2os.Majordomo.Git.History
import U2os.Server.Backup.ArchiveReader
