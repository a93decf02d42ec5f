import OoreBuild.Lib.Text
import OoreBuild.Lib.Glob
import OoreBuild.Lib.F64
import OoreBuild.Lib.Table
import OoreBuild.Lib.OrderedMap
import OoreBuild.Expression
import OoreBuild.Trigger
import OoreBuild.TriggerAgreement
import OoreBuild.Config
import OoreBuild.Release
import OoreBuild.Rollout
import OoreBuild.Build
import OoreBuild.Webhook
import OoreBuild.WebhookBuilds
import OoreBuild.BuildCreation
import OoreBuild.BuildCreation
import OoreBuild.Approval
import OoreBuild.Lib.Run
import OoreBuild.Resolver
import OoreBuild.Expansion
import OoreBuild.Spending
import OoreBuild.Validate
import OoreBuild.Lower
import OoreBuild.Trailing
import OoreBuild.LowerSim
import OoreBuild.Uploads
import OoreBuild.Accepted
import OoreBuild.Lib.Interleave
import OoreBuild.StepRetry
import OoreBuild.Jobs
import OoreBuild.JobSteps
import OoreBuild.JobInvariants
import OoreBuild.JobLimits
import OoreBuild.JobHolders
import OoreBuild.RetryFamilies
import OoreBuild.Environments
import OoreBuild.Promotions
import OoreBuild.PromotionSteps
import OoreBuild.PromotionInvariants
import OoreBuild.PromotionOnce
import OoreBuild.Deletions
import OoreBuild.BuildLogs
import OoreBuild.Deliveries
import OoreBuild.RunnerLogs
import OoreBuild.LogStreams
import OoreBuild.Retention
import OoreBuild.BuildNumbers
import OoreBuild.KeptReleases
import OoreBuild.Publish
import OoreBuild.PublishRetries
import OoreBuild.Artifacts
import OoreBuild.ArtifactUploads
import OoreBuild.Cron
import OoreBuild.Schedules
import OoreBuild.AppStore
import OoreBuild.AppStoreMonitor
import OoreBuild.AppStoreSettled
import OoreBuild.ReportMasking
import OoreBuild.BaselineOrigins
import OoreBuild.Notifications
import OoreBuild.NotificationScan
import OoreBuild.NotificationSends
import OoreBuild.SendLeases
import OoreBuild.CheckReports
import OoreBuild.AutoAdd
import OoreBuild.BackupRestore
import OoreBuild.RestoreRecovery
import OoreBuild.CronFields
import OoreBuild.RetentionLimits
import OoreBuild.PlayRollout
import OoreBuild.Lib.F64Order
import OoreBuild.ReleaseSchedule
import OoreBuild.ScheduleWalk
import OoreBuild.PlainResolver
import OoreBuild.ResolverRefines
import OoreBuild.PlanSpec
import OoreBuild.PlanUploads
import OoreBuild.PlanSelection
import OoreBuild.PlanNarrows
import OoreBuild.PlanFields
import OoreBuild.PublishEffect
import OoreBuild.WithoutPublish
import OoreBuild.RefreshOrder
import OoreBuild.Lib.Sql
import OoreBuild.RunnerQueue
import OoreBuild.RetentionRuns
import OoreBuild.PrintedSecrets
import OoreBuild.BuildCommands
import OoreBuild.PlayPublish
import OoreBuild.SecretScopes
import OoreBuild.Lib.Utf8
import OoreBuild.Lib.Wire
import OoreBuild.AabManifest
import OoreBuild.EncodedManifests
import OoreBuild.Lib.Properties
import OoreBuild.GradleSigning
import OoreBuild.Lib.GlobLanguage
import OoreBuild.PatternLanguages
import OoreBuild.SecretSpans
import OoreBuild.StepNames
import OoreBuild.ArtifactSizes
import OoreBuild.SizeBudgets
import OoreBuild.SizeChecks
import OoreBuild.XmlText
import OoreBuild.TestEvents
import OoreBuild.JunitTokens
import OoreBuild.TestReports
import OoreBuild.Lib.Upsert
import OoreBuild.TestResults
import OoreBuild.LocalTokens
import OoreBuild.TestHistory
import OoreBuild.LocalTokenRuns
import OoreBuild.UserRoles
import OoreBuild.ProjectMembers
import OoreBuild.SetupRuns
import OoreBuild.EventStreams
import OoreBuild.ClientIp
import OoreBuild.ClaimBarrier
