import Throne.Core.Rpc.Lifecycle
import Throne.Stats.ConnectionLister
import Throne.Engine.Tests.SpeedTraffic
import Throne.Scanner.Rescan
import Throne.Scanner.Progress
import Throne.Database.IpListSafety
import Throne.Api.ChannelSafety
import Throne.Api.ChannelBuffer
import Throne.Core.Scan.EngineReports
import Throne.Configs.Sub.RefreshListing
import Throne.Configs.Sub.UpdateQueue
import Throne.Database.DeletedIds
import Throne.Database.RestoreConsistent
import Throne.Sys.KillSwitchRuns
import Throne.Sys.KillSwitchWaiters
import Throne.Engine.Connection.AnsweredOnce
import Throne.Engine.Supervisor.HandledOnce
import Throne.Api.Remote.AllowList
import Throne.Engine.Services.SettingsPut
import Throne.Core.Xray.GateSafe
import Throne.Configs.Sub.RouteRefreshSafe
import Throne.Configs.TunIPv6Safe
import Throne.Configs.DirectShortcuts
import Throne.Configs.AutoSelectorChain
import Throne.Core.SysDns.SystemDnsRuns
import Throne.Core.SysRelay.RelayRestored
import Throne.Engine.Services.BackupRuns
import Throne.Api.Remote.FeedRuns
import Throne.Scanner.RefreshSafe
import Throne.Stats.AutoSelectorHealth
import Throne.Core.Scan.TargetsShuffle
import Throne.Engine.Headless.ResumeCounts
import Throne.Stats.TrafficStatsManager
import Throne.Global.OtpMigration
import Throne.Global.OtpSecrets
import Throne.Database.SortQueueRuns
import Throne.Global.OtpLink
import Throne.Database.Reposition
import Throne.Scanner.IpListCoverExact
import Throne.Configs.Sub.RouteReplace
import Throne.Database.Entities.SimpleRulesText
import Throne.Database.Entities.SimpleRulesToggle
import Throne.Core.Scan.SessionShared
import Throne.Configs.AutoSelectorPool
import Throne.Scanner.IpListExport
import Throne.Configs.XrayDnsStrip
import Throne.Global.DnsProbe
import Throne.Global.ValidationIp
import Throne.Api.Remote.LogFeed
import Throne.Configs.ExcludedRanges
import Throne.Engine.AutoSelector.RankingOnce
import Throne.Configs.DnsAddressText
import Throne.Core.Guard.PolicyExact
import Throne.Configs.HeaderPairs
import Throne.Database.Entities.RouteRuleRepair
