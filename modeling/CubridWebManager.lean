import CubridWebManager.Account.Credentials
import CubridWebManager.ApiClient.ReconnectQueue
import CubridWebManager.ApiClient.RefreshWaiters
import CubridWebManager.ApiClient.ReloginBreaker
import CubridWebManager.BrokerList.Entries
import CubridWebManager.BrokerStatus.Bulk
import CubridWebManager.BulkActions.RestartReport
import CubridWebManager.CmConf.Agreement
import CubridWebManager.CmsTask.OwnTask
import CubridWebManager.CmsToken.SessionExpiry
import CubridWebManager.Concurrency.DatabaseActionLock
import CubridWebManager.Concurrency.HostQueue
import CubridWebManager.Concurrency.MapWithConcurrency
import CubridWebManager.Conf.AutostartReaders
import CubridWebManager.Conf.BrokerCollisions
import CubridWebManager.Conf.EditServerList
import CubridWebManager.Conf.EngineAgreement
import CubridWebManager.Conf.HaModeReaders
import CubridWebManager.Conf.ParamLookup
import CubridWebManager.Conf.ParseCInt
import CubridWebManager.Conf.RenameRepair
import CubridWebManager.Conf.RenameSection
import CubridWebManager.CopyVolumes.ChecksAgree
import CubridWebManager.DatabaseCore.Padlock
import CubridWebManager.DatabaseUser.UpdateUser
import CubridWebManager.Desktop.AppProtocol
import CubridWebManager.Exvol.RoundTrip
import CubridWebManager.HostConfig.ConfWrites
import CubridWebManager.HostConfig.EditsReach
import CubridWebManager.HostGroups.UnknownIds
import CubridWebManager.HostImport.PrefsRoundTrip
import CubridWebManager.HostTree.HaMerge
import CubridWebManager.HostTree.ListedHosts
import CubridWebManager.JobPolls.Registry
import CubridWebManager.JobPolls.TrackedOutcome
import CubridWebManager.JobPolls.TrayKept
import CubridWebManager.Jobs.ActionExclusion
import CubridWebManager.Jobs.DisjointDatabases
import CubridWebManager.Jobs.FailedWorker
import CubridWebManager.Jobs.StalePurge
import CubridWebManager.Layout.Tabs
import CubridWebManager.Lib.CConstant
import CubridWebManager.Lib.Conditionals
import CubridWebManager.Lib.JsLiteral
import CubridWebManager.Lib.Literals
import CubridWebManager.Lib.PercentDecoding
import CubridWebManager.Lib.PosixPath
import CubridWebManager.Lib.Strtol
import CubridWebManager.Lifecycle.AllDatabases
import CubridWebManager.Lifecycle.SelectedDatabases
import CubridWebManager.ListViews.ClientLists
import CubridWebManager.Locks.LockViews
import CubridWebManager.Metrics.BrokerRates
import CubridWebManager.ParamCatalog.BoundsAgree
import CubridWebManager.ParamCatalog.BrokerKeyGuards
import CubridWebManager.ParamCatalog.ConfValues
import CubridWebManager.ParamCatalog.ConstExpr
import CubridWebManager.ParamCatalog.ConstExprValue
import CubridWebManager.ParamCatalog.ConstTokens
import CubridWebManager.ParamCatalog.EngineVersions
import CubridWebManager.ParamCatalog.Initializers
import CubridWebManager.ParamCatalog.TsOutput
import CubridWebManager.Polling.PollingRefresh
import CubridWebManager.Preprocess.Condition
import CubridWebManager.Preprocess.Directives
import CubridWebManager.Preprocess.StripComments
import CubridWebManager.QueryPlan.OneLineTokens
import CubridWebManager.QueryPlan.PlanEdits
import CubridWebManager.Redaction.MaintenanceText
import CubridWebManager.Redaction.SanitizeForLog
import CubridWebManager.Session.ForgetProfile
import CubridWebManager.Session.LoginSound
import CubridWebManager.Session.NewestToken
import CubridWebManager.Session.TokenTarget
import CubridWebManager.SharedReads.Freshness
import CubridWebManager.Statdump.ClientWatcher
import CubridWebManager.Statdump.Lease
import CubridWebManager.Storage.MasterKeyMigration
import CubridWebManager.Token.LogoutRotation
import CubridWebManager.Token.Maintenance
import CubridWebManager.Token.ReuseRevocation
import CubridWebManager.Token.Rotation
import CubridWebManager.UpdateCheck.Releases
import CubridWebManager.ViewCaches.HostIsolation
import CubridWebManager.ViewCaches.LoginCleanup
