import Snowcone.Foundations.Bytes
import Snowcone.Foundations.CMemory
import Snowcone.Foundations.Loops
import Snowcone.Foundations.Decimal
import Snowcone.IrcParsing.Parser
import Snowcone.IrcParsing.Reference
import Snowcone.IrcParsing.Refinement
import Snowcone.IrcParsing.Grammar
import Snowcone.IrcParsing.Correctness
import Snowcone.IrcParsing.Dump
import Snowcone.IrcParsing.DumpReadsBack
import Snowcone.Session.LineBuffer
import Snowcone.Session.Stream
import Snowcone.Session.Thread
import Snowcone.Session.Delivery
import Snowcone.Components.OrderedMap
import Snowcone.Components.OrderedMapRefinement
import Snowcone.Sending.Send
import Snowcone.Sending.SendCorrectness
import Snowcone.Sending.SplitStatusmsg
import Snowcone.Base64.Codec
import Snowcone.Base64.RoundTrip
import Snowcone.Base64.Canonical
import Snowcone.Base64.Buffers
import Snowcone.Sasl.Authenticate
import Snowcone.Sasl.Reassembly
import Snowcone.Foundations.Coroutine
import Snowcone.Foundations.Runs
import Snowcone.Tasks.Execute
import Snowcone.Tasks.Passwords
import Snowcone.Tasks.ExecuteResumes
import Snowcone.Foundations.LuaPattern
import Snowcone.Foundations.LuaPatternText
import Snowcone.Foundations.LuaValue
import Snowcone.Sasl.Scram
import Snowcone.Sasl.ScramMessages
import Snowcone.Sasl.SaslTask
import Snowcone.Sasl.ServerVerification
import Snowcone.Sasl.Server
import Snowcone.Sasl.HonestExchange
import Snowcone.Connecting.Connect
import Snowcone.Connecting.Client
import Snowcone.Connecting.Modes
import Snowcone.Connecting.Recovery
import Snowcone.Connecting.StaleCallbacks
import Snowcone.Connecting.Quitting
import Snowcone.Network.Connection
import Snowcone.Network.Websocket
import Snowcone.Network.Socks
import Snowcone.Network.SocksConversation
import Snowcone.Network.SocksRequests
import Snowcone.EventLoop.Timer
import Snowcone.EventLoop.Input
import Snowcone.Configuration.Schema
import Snowcone.Configuration.SchemaMeaning
import Snowcone.Configuration.ConfigurationSchema
import Snowcone.Configuration.Guarantee
import Snowcone.Configuration.SchemaKinds
import Snowcone.Configuration.Validation
import Snowcone.Dashboard.MatchDsl
import Snowcone.Dashboard.MatchGrammar
import Snowcone.Dashboard.MatchParsing
import Snowcone.Dashboard.ParseSnote
import Snowcone.Dashboard.SnoteFields
import Snowcone.Foundations.Utf8
import Snowcone.Foundations.LuaSequence
import Snowcone.Editing.Editor
import Snowcone.Editing.EditorInvariant
import Snowcone.Foundations.WeakTable
import Snowcone.Membership.Handlers
import Snowcone.Membership.Presence
import Snowcone.Membership.Tables
import Snowcone.Membership.Tracking
import Snowcone.Membership.NamesReply
import Snowcone.Membership.MembershipTracked
import Snowcone.Membership.StatusPrefixes
import Snowcone.Foundations.Action
import Snowcone.Tasks.WaitIrc
import Snowcone.Tasks.WaitIrcResumes
import Snowcone.Chat.Client
import Snowcone.Chat.Sends
import Snowcone.Chat.Messages
import Snowcone.Chat.Histories
import Snowcone.Chat.Renaming
import Snowcone.Chat.NickFollows
import Snowcone.Registration.CapRequests
import Snowcone.Registration.Monitors
import Snowcone.Registration.SaslMechs
import Snowcone.Bouncer.Networks
import Snowcone.Modes.State
import Snowcone.Modes.ListReplies
import Snowcone.Modes.ModeMessages
import Snowcone.Modes.Isupport
import Snowcone.Sending.Quote
import Snowcone.Batches.Messages
import Snowcone.Batches.Replay
import Snowcone.Batches.Interception
import Snowcone.Sending.Redaction
import Snowcone.Sasl.PlainLogs
import Snowcone.Foundations.BitPrefix
import Snowcone.Dashboard.MaskTracker
import Snowcone.Foundations.BreadthFirst
import Snowcone.Dashboard.Links
import Snowcone.Components.OrderedMapEntries
import Snowcone.Dashboard.Users
import Snowcone.Dashboard.UserMasks
import Snowcone.Dashboard.Bans
import Snowcone.Dashboard.BanStandings
import Snowcone.Editing.EditorText
import Snowcone.Editing.EditorKills
import Snowcone.Editing.HexInput
import Snowcone.Editing.EditorCodes
import Snowcone.Editing.Completion
import Snowcone.Dashboard.OrderMask
import Snowcone.Foundations.BitSets
import Snowcone.Sending.UploadFilterdb
import Snowcone.Foundations.BestOf
import Snowcone.Chat.JumpToActivity
import Snowcone.Chat.LogServer
import Snowcone.Chat.LogPages
import Snowcone.Foundations.Destutter
import Snowcone.Editing.EnteredLines
import Snowcone.Foundations.LuaGsub
import Snowcone.Dashboard.ParseDuration
import Snowcone.Configuration.Override
import Snowcone.Components.RotatingWindow
import Snowcone.Components.LiveWindow
import Snowcone.Components.ScrolledWindow
import Snowcone.Drawing.IrcFormatting
import Snowcone.Drawing.VisibleText
import Snowcone.Configuration.SchemaDecides
import Snowcone.Editing.HistoryWalks
import Snowcone.Registration.NegotiationAgrees
import Snowcone.Registration.Challenge
import Snowcone.Tasks.Prompts
import Snowcone.Tasks.PromptHistories
import Snowcone.Tasks.PromptSteps
import Snowcone.Tasks.PromptsAnswered
import Snowcone.Tasks.DispatchLoop
import Snowcone.Tasks.DispatchBodies
import Snowcone.Tasks.DispatchTurns
