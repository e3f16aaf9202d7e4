import CommerceAgent.Commerce.Consistency
import CommerceAgent.Commerce.Replay
import CommerceAgent.Commerce.Plans
import CommerceAgent.Commerce.Funnel
import CommerceAgent.Tasks.Calls
import CommerceAgent.Tasks.Approvals
import CommerceAgent.Tasks.Pending
import CommerceAgent.Tasks.Redelivery
import CommerceAgent.Effects.Observation
import CommerceAgent.Tasks.Acknowledged
import CommerceAgent.Tasks.Stranding
import CommerceAgent.Tasks.Settlement
import CommerceAgent.Tasks.Creation
import CommerceAgent.Tasks.Executions
import CommerceAgent.Tasks.EventReplay
import CommerceAgent.Tasks.EventNumbers
import CommerceAgent.Agent.Budget
import CommerceAgent.Agent.Conversation
import CommerceAgent.Agent.Scope
import CommerceAgent.Agent.Evidence
import CommerceAgent.Agent.Exposure
import CommerceAgent.Agent.Calculator
import CommerceAgent.Agent.Repetition
import CommerceAgent.Agent.Selection
import CommerceAgent.Rag.Search
import CommerceAgent.Rag.Excerpt
import CommerceAgent.Api.Isolation
import CommerceAgent.Agent.Loop
import CommerceAgent.Agent.ProductContext
import CommerceAgent.Tasks.EventWire
import CommerceAgent.Tasks.Conservation
import CommerceAgent.Agent.Recollection
import CommerceAgent.Rag.Evidence
