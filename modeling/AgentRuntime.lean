import AgentRuntime.Domain.PolicyBounds
import AgentRuntime.Evaluation.SchemaSubset
import AgentRuntime.Evaluation.Equality
import AgentRuntime.Evaluation.RegressionVerdicts
import AgentRuntime.Redis.RateLimiter
import AgentRuntime.Api.BodyLimit
import AgentRuntime.Lifecycle.Conformance
import AgentRuntime.Lifecycle.Trail
import AgentRuntime.Lifecycle.Backoff
import AgentRuntime.Lifecycle.Lineage
import AgentRuntime.Lifecycle.Delivery
import AgentRuntime.Lifecycle.Summary
import AgentRuntime.Concurrency.Deadlock
import AgentRuntime.Concurrency.Idempotence
import AgentRuntime.Concurrency.ProviderCalls
import AgentRuntime.Security.KeyLifecycle
import AgentRuntime.Security.Retention
import AgentRuntime.Security.AuditRetention
import AgentRuntime.Messaging.Message
import AgentRuntime.Security.Noninterference
