import Silta.Lib.Lts
import Silta.Lib.Table
import Silta.Lib.Crash
import Silta.Lib.Latest
import Silta.Lib.Fair
import Silta.Lib.Base64
import Silta.Lib.Lines
import Silta.Lib.Slices
import Silta.Lib.Packing
import Silta.Lib.Newest
import Silta.Lib.FileTree
import Silta.Protocol
import Silta.Messages
import Silta.Config
import Silta.Routing
import Silta.RoomAccess
import Silta.Validation
import Silta.RoutingOrder
import Silta.Backlog
import Silta.BacklogRuns
import Silta.Registry
import Silta.Delivery
import Silta.Socket
import Silta.Stream
import Silta.Rotation
import Silta.RotationProtocol
import Silta.ProtocolSteps
import Silta.Attempt
import Silta.State
import Silta.Supervisor
import Silta.RunEnd
import Silta.ExitRace
import Silta.Refusal
import Silta.Lifetimes
import Silta.RunTriples
import Silta.EffectOrder
import Silta.RotationWaits
import Silta.RotationIdle
import Silta.RotationCount
import Silta.Copies
import Silta.RotationTruth
import Silta.MemoryWalk
import Silta.Snapshot
import Silta.CleanCopy
import Silta.ChannelGate
import Silta.OneShot
import Silta.Replay
import Silta.MarksFile
import Silta.ReplayWindow
import Silta.Alert
import Silta.AlertHistory
import Silta.Typing
import Silta.Handle
import Silta.Connections
import Silta.Handed
import Silta.InOrder
import Silta.PluginQueues
import Silta.Commands
import Silta.Transfer
import Silta.Text
import Silta.Chunks
import Silta.Places
import Silta.ChunkContent
import Silta.BlankChunks
import Silta.FencedBlocks
import Silta.Fences
import Silta.Receiver
import Silta.FilePaths
import Silta.FileNames
import Silta.Inbox
import Silta.ClientMessages
import Silta.JsonText
import Silta.JsonEnds
import Silta.JsonObjects
import Silta.Wire
import Silta.LineReader
import Silta.Journal
import Silta.JournalCut
import Silta.TaskSummary
import Silta.ClientLines
import Silta.Announced
import Silta.History
import Silta.SearchHits
import Silta.Reply
import Silta.Handshake
import Silta.Backup
import Silta.Timestamps
import Silta.ArrivalLedger
import Silta.SpoolFiles
import Silta.Lib.Deeds
import Silta.Outgoing
import Silta.OutgoingRules
import Silta.Posts
import Silta.ChannelTag
import Silta.LineCut
import Silta.Passage
import Silta.Heard
import Silta.DeviceStore
import Silta.Contract
import Silta.Recollection
import Silta.Requests
import Silta.StateFiles
import Silta.Notices
