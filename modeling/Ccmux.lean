import Ccmux.Lib.Machine
import Ccmux.Chat.TurnProgress
import Ccmux.Chat.DeliveryRun
import Ccmux.Chat.CursorRun
import Ccmux.Chat.Coalesce
import Ccmux.Chat.PassRace
import Ccmux.Chat.Format
import Ccmux.Chat.MessageOperation
import Ccmux.Runtime.Input
import Ccmux.Chat.NativeRuntime
import Ccmux.Agent.Codex.OwnedInput
import Ccmux.Chat.NativeRun
import Ccmux.Chat.NativeInvariant
import Ccmux.Chat.NativeHandOver
import Ccmux.Chat.NativeRepair
import Ccmux.Chat.Tracks
import Ccmux.Chat.Resubmit
import Ccmux.Chat.Rebuild
import Ccmux.Lib.Tally
import Ccmux.Usage.Schema
import Ccmux.Usage.Accumulation
import Ccmux.Usage.Aggregate
import Ccmux.Usage.Contribution
import Ccmux.Usage.Store
import Ccmux.Usage.Neighbors
import Ccmux.Usage.Recompute
import Ccmux.Usage.QueryCaches
import Ccmux.Lib.Lines
import Ccmux.Transcript.Normalize
import Ccmux.Usage.Normalize
import Ccmux.Transcript.Stats
import Ccmux.Transcript.Scan
import Ccmux.Transcript.Effects
import Ccmux.Transcript.ScanRun
import Ccmux.Transcript.Index
import Ccmux.Util.Jsonl
import Ccmux.Util.JsonlRun
import Ccmux.Chat.Envelope
import Ccmux.Fleet.Outbox
import Ccmux.Chat.FleetLog
import Ccmux.Chat.LogFeed
import Ccmux.Util.JsonlGrowth
import Ccmux.Chat.LogFeedRun
import Ccmux.Chat.MessageOperationStore
import Ccmux.Chat.MessageOperationRun
import Ccmux.Chat.Undeliverable
import Ccmux.Chat.UndeliverableRun
import Ccmux.Lib.Keys
import Ccmux.Chat.InboundHold
import Ccmux.Fleet.Address
import Ccmux.Fleet.Flush
import Ccmux.Fleet.FlushRun
import Ccmux.Chat.Admission
import Ccmux.Fleet.Retry
import Ccmux.Fleet.RetryRun
import Ccmux.Chat.CommunicationBasis
import Ccmux.Chat.BasisRun
import Ccmux.Events.Feed
import Ccmux.Events.FeedRun
import Ccmux.Events.FeedFollow
import Ccmux.Session.Registry
import Ccmux.Control.CreateReceipts
import Ccmux.Control.Create
import Ccmux.Control.CreateBooks
import Ccmux.Control.CreateCallers
import Ccmux.Control.CreateRun
import Ccmux.Session.Promotion
import Ccmux.Session.PromotionRun
import Ccmux.Session.SleepRun
import Ccmux.Runtime.MailboxRun
import Ccmux.Runtime.ResponseRun
import Ccmux.External.ResidentPublisher
import Ccmux.Events.ObserveRun
import Ccmux.Context.PumpRun
import Ccmux.Agent.Claude.PickupRun
import Ccmux.Agent.Claude.OwnerRun
import Ccmux.Attachments.UploadRun
import Ccmux.Attachments.Upload
import Ccmux.Steering.ServiceRun
import Ccmux.Release.BundleRun
import Ccmux.Util.BootGuard
import Ccmux.Agent.Codex.AdmissionRun
import Ccmux.Delegation.ResolveRun
import Ccmux.Agent.OpenCode.InputRun
import Ccmux.Chat.CoalesceRun
import Ccmux.Chat.SendLetter
import Ccmux.Lib.Text
import Ccmux.Agent.Claude.MenuRun
import Ccmux.Lib.Utf16
import Ccmux.Content.BufferRun
import Ccmux.Chat.StopHook
import Ccmux.Lib.Matching
import Ccmux.Chat.External
import Ccmux.Lib.JsonText
import Ccmux.Chat.FrameSize
import Ccmux.Lib.Number
import Ccmux.Chat.CursorText
import Ccmux.Fleet.PeerDelta
import Ccmux.Lib.Window
import Ccmux.Agent.Codex.RequestsRun
import Ccmux.Runtime.BoundariesRun
import Ccmux.Quota.View
import Ccmux.Lib.Base64
import Ccmux.Lib.Paging
import Ccmux.Usage.Reply
import Ccmux.Usage.Paging
import Ccmux.Transcript.Range
import Ccmux.Transcript.Window
import Ccmux.Runtime.OomPriority
import Ccmux.Agent.Launch.SessionEnv
import Ccmux.External.MessageScan
import Ccmux.Context.Search
import Ccmux.Chat.Framing
import Ccmux.Agent.Launch.RuleSet
import Ccmux.Agent.OpenCode.ProjectionRun
import Ccmux.Lib.CursorWalk
import Ccmux.Context.History
import Ccmux.Context.CompleteHistory
import Ccmux.Context.OpenCodeHistory
import Ccmux.Context.OpenCodeHistoryRun
import Ccmux.Context.ClaudeHistory
import Ccmux.Context.HistoryRun
import Ccmux.Commands.Flags
import Ccmux.Agent.Codex.Cursor
import Ccmux.Chat.Auth
import Ccmux.Context.ForkRun
import Ccmux.Fleet.Transport
import Ccmux.Chat.AdmitOnce
import Ccmux.Agent.Claude.Projection
import Ccmux.Util.ReadLines
import Ccmux.Content.Limits
import Ccmux.Content.SnapshotSize
import Ccmux.Policy.Resolve
import Ccmux.Agent.Claude.WritersRun
import Ccmux.Agent.ChatPane
import Ccmux.Control.TerminalPromptRun
