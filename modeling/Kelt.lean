import Kelt.Lib.Dict
import Kelt.Lib.IpAddress
import Kelt.Lib.AllowList
import Kelt.NetPol.Evaluator
import Kelt.NetPol.Additivity
import Kelt.Env.RunnerEnv
import Kelt.Env.WriteKeys
import Kelt.Piece.Execute
import Kelt.Lib.Prefix
import Kelt.Piece.RunOrder
import Kelt.Env.Files
import Kelt.Env.FileHistory
import Kelt.Env.Cli
import Kelt.Env.RoundTrip
import Kelt.Env.PlainFile
import Kelt.Env.Writers
import Kelt.Lib.FileLock
import Kelt.Piece.OpsDir
import Kelt.Piece.Processes
import Kelt.Piece.LockExclusion
import Kelt.Piece.LockReports
import Kelt.Piece.LockTruth
import Kelt.Env.Readers
import Kelt.Iam.SecretFile
import Kelt.Iam.Rotation
import Kelt.Iam.RotationTruth
import Kelt.Lib.PyInt
import Kelt.Subscribers.Schema
import Kelt.Subscribers.Snapshot
import Kelt.Subscribers.Service
import Kelt.Subscribers.Startup
import Kelt.Subscribers.Keys
import Kelt.Subscribers.Routes
import Kelt.Subscribers.Reconcile
import Kelt.Subscribers.Requests
import Kelt.Subscribers.Updates
import Kelt.Subscribers.Restart
import Kelt.Subscribers.Stored
import Kelt.Audit.Record
import Kelt.Audit.Retention
import Kelt.Planes.Filter
import Kelt.Planes.Agreement
import Kelt.Lib.KeyedMerge
import Kelt.Apps.Deploy
import Kelt.Apps.Redeploy
import Kelt.Apps.Rejection
import Kelt.Ueransim.Frame
import Kelt.Piece.Listing
import Kelt.Ueransim.Toggle
import Kelt.Lib.Layers
import Kelt.Northbound.Config
import Kelt.Northbound.ConfigEffect
import Kelt.Northbound.Files
import Kelt.Northbound.FileMap
import Kelt.Piece.ReadBack
import Kelt.Auth.Jwks
import Kelt.Auth.Token
import Kelt.Auth.Actor
import Kelt.Lib.Rank
import Kelt.Probe.Tunnels
import Kelt.Probe.PlanRun
import Kelt.Probe.PlanThreads
import Kelt.Frontend.ResourceCache
import Kelt.Lib.JsValue
import Kelt.Northbound.SchemaMigration
import Kelt.Lib.JsConvert
import Kelt.Northbound.MappingStudio
import Kelt.Northbound.StudioRoundTrip
import Kelt.Frontend.BackendState
import Kelt.Northbound.Versions
import Kelt.Lib.FileTree
import Kelt.Probe.ResultPaths
import Kelt.Apps.Ownership
import Kelt.Experiments.Campaign
import Kelt.Experiments.PausedUnits
import Kelt.Northbound.ContractCache
import Kelt.Frontend.SelfUpdate
import Kelt.Northbound.DirStore
import Kelt.Subscribers.Import
import Kelt.Audit.Select
import Kelt.Piece.Prune
import Kelt.Ue.Events
import Kelt.Probe.Expand
import Kelt.Logs.Follow
import Kelt.Lib.FirstMatch
import Kelt.NetHealth.NatRules
import Kelt.NetHealth.Egress
import Kelt.Probe.Measure
import Kelt.Probe.Verdict
import Kelt.Probe.QueueRuns
import Kelt.Lib.Http
import Kelt.Probe.WebuiProxy
import Kelt.Lib.JsonText
import Kelt.Lib.Restart
import Kelt.Probe.LayoutMigration
import Kelt.Probe.LayoutRestarts
import Kelt.Northbound.ImageRef
import Kelt.Experiments.Pcap
import Kelt.Experiments.Gtpu
import Kelt.Experiments.Segments
import Kelt.Experiments.Retransmissions
import Kelt.Experiments.SequenceRanges
import Kelt.Lib.Steps
import Kelt.Experiments.Windows
import Kelt.Experiments.Rtt
import Kelt.Experiments.Hops
import Kelt.Experiments.Stats
import Kelt.Experiments.OpenLoop
import Kelt.Experiments.ExposureTable
import Kelt.Experiments.Footprint
import Kelt.Experiments.FootprintCheck
import Kelt.Experiments.StreamClient
import Kelt.Apps.Updates
import Kelt.NetPol.FlowCheck
import Kelt.Northbound.Upgrade
import Kelt.Lib.Places
import Kelt.Ue.ActiveUes
import Kelt.Lib.Regex
import Kelt.Ue.LogPatterns
import Kelt.Ue.LogForms
import Kelt.Frontend.Session
import Kelt.Lib.Base64
import Kelt.Lib.Framing
import Kelt.Lib.ShellWords
import Kelt.Logs.Backlog
import Kelt.NetHealth.LastRun
import Kelt.Overlay.Bridges
import Kelt.Probe.LiveTests
import Kelt.Ran.Chain
import Kelt.Ran.Page
import Kelt.Ran.World
import Kelt.Remote.Commands
