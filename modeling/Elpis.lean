import Elpis.Lib.Table
import Elpis.Lib.Tags
import Elpis.Lib.Tx
import Elpis.Lib.Run
import Elpis.Lib.Digraph
import Elpis.Js.Text
import Elpis.Mind.Schema
import Elpis.Mind.Read
import Elpis.Mind.Statements
import Elpis.Mind.Store
import Elpis.Mind.Board
import Elpis.Mind.Specs
import Elpis.Mind.Refinement
import Elpis.Mind.Safety
import Elpis.Mind.Leases
import Elpis.Worker.Mailbox
import Elpis.Worker.Spawn
import Elpis.Worker.System
import Elpis.Worker.Flights
import Elpis.Worker.Slices
import Elpis.Worker.Safety
import Elpis.Kernel.Journal
import Elpis.Lib.Effect
import Elpis.Kernel.Episode
import Elpis.Kernel.Protocol
import Elpis.Kernel.Recovery
import Elpis.Kernel.Transcript
import Elpis.Sandbox.Lifecycle
import Elpis.Llm.Compactor
import Elpis.Llm.Summaries
import Elpis.Sandbox.RunIds
import Elpis.Llm.Checkpoint
import Elpis.Llm.Pairs
import Elpis.Llm.Sanitize
import Elpis.Agent.Outbound
import Elpis.Agent.Killswitch
import Elpis.Agent.Scheduler
import Elpis.Agent.RunWake
import Elpis.Sandbox.Manager
import Elpis.Sandbox.Holdings
import Elpis.Sandbox.Detach
import Elpis.Sandbox.Release
import Elpis.Resident.Resources
import Elpis.Resident.Loop
import Elpis.Resident.Rules
import Elpis.Resident.Pairing
import Elpis.Resident.Recovery
import Elpis.Resident.Replay
import Elpis.Resident.Loaded
import Elpis.Resident.Vouching
import Elpis.Bg.Registry
import Elpis.Bg.Futures
import Elpis.Bg.Settlement
import Elpis.Kernel.Provenance
import Elpis.Kernel.RunHandles
import Elpis.Gateway.CredentialStore
import Elpis.Gateway.CredentialEffects
import Elpis.Gateway.CredentialRuns
import Elpis.Gateway.ResidentStore
import Elpis.Gateway.Handover
import Elpis.Gateway.HandoverRuns
import Elpis.Gateway.Protocol
import Elpis.Gateway.Session
import Elpis.Gateway.Link
import Elpis.Gateway.LinkRuns
import Elpis.Gateway.ProviderCredentials
import Elpis.Gateway.OAuthRefresh
import Elpis.Gateway.LlmProxy
import Elpis.Gateway.LlmProxyCodec
import Elpis.Console.Mirror
import Elpis.Console.Thread
import Elpis.Console.ThreadFrames
import Elpis.Console.ThreadHolds
import Elpis.Console.ThreadRuns
import Elpis.Context.Graph
import Elpis.Context.GraphSteps
import Elpis.Context.Continuation
import Elpis.Secretary.Store
import Elpis.Secretary.Conversation
import Elpis.Secretary.ConversationRuns
import Elpis.Secretary.Session
import Elpis.Secretary.Spawn
import Elpis.Secretary.SpawnRuns
import Elpis.Memory.Frontmatter
import Elpis.Memory.FrontmatterKept
import Elpis.Js.Order
import Elpis.Memory.Consolidator
import Elpis.Memory.Consolidation
import Elpis.Agent.Polls
import Elpis.Mind.Quiet
import Elpis.Mind.Service
import Elpis.Mind.Closing
import Elpis.Mind.ServiceRuns
import Elpis.Worker.Artifacts
import Elpis.Sandbox.Heredocs
import Elpis.Worker.ArtifactRuns
import Elpis.Sandbox.HeredocsAgree
import Elpis.Worker.Supervisor
import Elpis.Worker.SupervisorRuns
import Elpis.Lib.Sql
import Elpis.Mind.IdMigration
import Elpis.Mind.IdImages
import Elpis.Mind.IdKept
import Elpis.Gateway.History
import Elpis.Gateway.CredentialInstalls
import Elpis.Worker.Posts
import Elpis.Js.Value
import Elpis.Llm.Anthropic
import Elpis.Llm.Responses
import Elpis.Inbound.Envelope
import Elpis.Inbound.Forgery
import Elpis.Inbound.Attributes
import Elpis.Js.Record
import Elpis.Sandbox.Metadata
import Elpis.Llm.Provenance
import Elpis.Store.Sessions
import Elpis.Store.ReadBack
import Elpis.Lib.Nested
import Elpis.Resident.GatewayLink
import Elpis.Resident.GatewayLinkModes
import Elpis.Resident.GatewayLinkSteps
import Elpis.Mind.Principals
import Elpis.Agent.Rearm
import Elpis.Lib.Pages
import Elpis.Lib.JsonText
import Elpis.Lib.JsonPrint
import Elpis.Mind.Listing
import Elpis.Memory.Chunks
import Elpis.Sandbox.Read
import Elpis.Gateway.Authorize
import Elpis.Sandbox.HeredocDisplay
import Elpis.Lib.Stride
import Elpis.Llm.Xxhash
import Elpis.Lib.Reach
import Elpis.Mind.Graph
import Elpis.Llm.Projection
import Elpis.Sandbox.Preview
import Elpis.Sandbox.Literals
import Elpis.Lib.Substring
import Elpis.Sandbox.Editor
import Elpis.Llm.Stamp
import Elpis.Lib.Double
import Elpis.Lib.JsonNumber
import Elpis.Sandbox.Wake
import Elpis.Resident.GatewayLinkRuns
import Elpis.Store.Migrations
import Elpis.Lib.Alive
import Elpis.Agent.PollsAgree
import Elpis.Sandbox.ManagerAgree
