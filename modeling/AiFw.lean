import AiFw.Lib.Text
import AiFw.Lib.Reconcile
import AiFw.Lib.Results
import AiFw.Lib.Separated
import AiFw.Lib.KeyedMap
import AiFw.Lib.ByAge
import AiFw.Lib.Runs
import AiFw.Lib.ListOrder
import AiFw.Lib.StrikeWindow
import AiFw.Lib.TextSearch
import AiFw.Lib.Table
import AiFw.Lib.ByteSearch
import AiFw.Lib.Numerals
import AiFw.Lib.Buckets
import AiFw.Lib.Lexing
import AiFw.Lib.Binary64
import AiFw.Lib.Streak
import AiFw.Lib.Dyadic
import AiFw.Lib.Mentions
import AiFw.Net.Network
import AiFw.Net.IpText
import AiFw.Ids.FlowTable
import AiFw.Ids.FlowAccounting
import AiFw.Ids.FlowSides
import AiFw.Ids.FlowBudget
import AiFw.Ids.Ruleset
import AiFw.Ids.Matching
import AiFw.Ids.Prefilter
import AiFw.Ids.Threshold
import AiFw.Ids.Engine
import AiFw.Ids.CandidateLoop
import AiFw.Ids.LimitHits
import AiFw.Ids.AlertTable
import AiFw.Ids.AlertStores
import AiFw.Pf.Lexer
import AiFw.Pf.Grammar
import AiFw.Pf.Types
import AiFw.Pf.Rule
import AiFw.Pf.RuleColumns
import AiFw.Pf.RuleStorage
import AiFw.Pf.RuleReorder
import AiFw.Pf.RuleText
import AiFw.Pf.Match
import AiFw.Pf.MatchLoss
import AiFw.Pf.SameHosts
import AiFw.Pf.Schedule
import AiFw.Pf.StateListing
import AiFw.Pf.StateParse
import AiFw.Opnsense.Importer
import AiFw.Opnsense.NatInjection
import AiFw.Opnsense.NatWidth
import AiFw.Opnsense.Plan
import AiFw.Opnsense.PlanAgreement
import AiFw.Opnsense.XmlText
import AiFw.Pf.Anchor
import AiFw.Pf.Watcher
import AiFw.Pf.BlockLogging
import AiFw.Pf.NatRule
import AiFw.Pf.NatColumns
import AiFw.Pf.AddressJson
import AiFw.Pf.NatLines
import AiFw.Pf.NatOrder
import AiFw.Pf.RateLimit
import AiFw.Pf.Overload
import AiFw.Ai.Response
import AiFw.Ai.BlockExpiry
import AiFw.Metrics.Series
import AiFw.Metrics.Consolidation
import AiFw.Wan.Gateway
import AiFw.Wan.Failover
import AiFw.Wan.Policy
import AiFw.Wan.PolicyText
import AiFw.Wan.PolicyHealth
import AiFw.Wan.Selection
import AiFw.Wan.PolicyMatch
import AiFw.Wan.Instance
import AiFw.Wan.Leak
import AiFw.Wan.Escape
import AiFw.Wan.PolicyStore
import AiFw.Wan.Preflight
import AiFw.Wan.Coalescer
import AiFw.Wan.RouteWatch
import AiFw.Wan.RouteReload
import AiFw.Geo.Cidr
import AiFw.Geo.Aggregate
import AiFw.Geo.Merging
import AiFw.Geo.Coverage
import AiFw.Geo.Canonical
import AiFw.Geo.Index
import AiFw.Auth.Tokens
import AiFw.Auth.TokenRace
import AiFw.Auth.TokenFamily
import AiFw.Config.Versions
import AiFw.Aliases.Coverage
import AiFw.Aliases.Engine
import AiFw.Aliases.Mirror
import AiFw.Aliases.Namespace
import AiFw.Auth.Sessions
import AiFw.Auth.LogoutExpiry
import AiFw.Auth.LogoutTasks
import AiFw.Auth.LogoutRace
import AiFw.Auth.LoginGuessing
import AiFw.Auth.LoginLimiter
import AiFw.Auth.RecoveryCodes
import AiFw.Auth.Totp
import AiFw.Auth.TotpStandard
import AiFw.Auth.TotpStore
import AiFw.Vpn.IpsecEngine
import AiFw.Vpn.NextPeerIp
import AiFw.Vpn.Rendered
import AiFw.Vpn.Rollback
import AiFw.Vpn.SwanctlFiles
import AiFw.Vpn.Tunnel
import AiFw.Vpn.TunnelRows
import AiFw.Config.ApplyRace
import AiFw.Lib.Blocks
import AiFw.Backup.CommitConfirm
import AiFw.Ipc.Framing
import AiFw.Ha.Cluster
import AiFw.Ha.HealthProber
import AiFw.Ha.Demotion
import AiFw.Dns.Blocklist
import AiFw.Dns.ZoneCurrent
import AiFw.Lib.MasterFile
import AiFw.Dns.Rpz
import AiFw.Dns.RuleCount
import AiFw.Dns.Wildcards
import AiFw.Lib.Reload
import AiFw.Lib.Views
import AiFw.Backup.IdsReplica
import AiFw.Backup.Records
import AiFw.Backup.FirewallConfig
import AiFw.Backup.Export
import AiFw.Backup.Replica
import AiFw.Backup.SnapshotCache
import AiFw.Backup.SnapshotRace
import AiFw.Backup.Apply
import AiFw.Vpn.WgPeers
import AiFw.Update.Version
import AiFw.Backup.Survival
import AiFw.Backup.Revert
import AiFw.Backup.RowsBack
import AiFw.Backup.TablesBack
import AiFw.Backup.KeyTables
import AiFw.Backup.WireguardBack
import AiFw.Backup.ClusterBack
import AiFw.Backup.RoundTrip
import AiFw.Pf.Calendar
import AiFw.Ids.AlertRetention
import AiFw.Ids.Suricata
import AiFw.Ids.RulesetManager
import AiFw.Vpn.PeerIdentities
import AiFw.Lib.Settings
import AiFw.Vpn.SwanctlConf
import AiFw.Ids.ContentWindow
import AiFw.Ids.ContentPrinting
import AiFw.Ids.RuleSlices
import AiFw.Ids.Bidirectional
import AiFw.Ids.AddressLists
import AiFw.Ids.TlsIsolation
import AiFw.Ids.DnsParser
import AiFw.Ids.SmtpParser
import AiFw.Ids.YaraConditions
import AiFw.Ids.SigmaRule
import AiFw.Ids.StoredSids
import AiFw.Auth.SingleUse
import AiFw.Auth.Permission
import AiFw.Auth.Roles
import AiFw.Auth.UserCache
import AiFw.Ipc.Client
import AiFw.Ids.BpfCapture
import AiFw.Acme.CertPem
import AiFw.Acme.Renewals
import AiFw.Lib.FromBack
import AiFw.Host.LogTail
import AiFw.Lib.LineEdits
import AiFw.Host.TextLines
import AiFw.Host.SystemFiles
import AiFw.Pf.MainConf
