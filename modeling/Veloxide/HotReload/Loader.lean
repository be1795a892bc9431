import Veloxide.Library.JsonText
import Veloxide.Sdk.Dag

namespace Veloxide

open ByteCodec Serde
open Sdk.Dag (built parallelCalls)

/-- How foreign types stand in JSON: floating-point numbers, and semantic versions. -/
class ForeignFormats where
  ofF64 : F64 → Json
  toF64 : Json → Except String F64
  toVersion : Json → Except String WorkflowVersion

namespace Sdk

section

def kindName : NodeKind → String
  | .pure => "pure"
  | .managedEffect => "managed_effect"
  | .wait => "wait"
  | .signal => "signal"
  | .unsafeNode => "unsafe"
  | .router => "router"

def guaranteeName : GuaranteeClass → String
  | .exactOnce => "exact_once"
  | .atLeastOnce => "at_least_once"
  | .bestEffort => "best_effort"

def EdgeSpec.toJson (edge : EdgeSpec) : Json :=
  .object [("from", .string edge.source.value), ("to", .string edge.target.value)]

variable [ForeignFormats]

def retryPolicyJson (policy : RetryPolicy) : Json :=
  .object [("max_attempts", Json.u64 policy.maxAttempts.toUInt64), ("backoff_ms", Json.u64 policy.backoffMs),
    ("backoff_multiplier", ForeignFormats.ofF64 policy.backoffMultiplier),
    ("max_backoff_ms", Json.u64 policy.maxBackoffMs)]

def NodeSpec.toJson (node : NodeSpec) : Json :=
  .object [("name", .string node.name.value), ("kind", .string (kindName node.kind)),
    ("retry_policy", (node.retryPolicy.map retryPolicyJson).getD .null)]

def WorkflowSpec.toJson (spec : WorkflowSpec) : Json :=
  .object [("workflow_name", .string spec.workflowName.value), ("nodes", .array (spec.nodes.map NodeSpec.toJson)),
    ("edges", .array (spec.edges.map EdgeSpec.toJson)), ("guarantee_class", .string (guaranteeName spec.guaranteeClass))]

def WorkflowSpec.toJsonBytes [JsonCodec] (spec : WorkflowSpec) : Bytes := JsonCodec.bytes spec.toJson

end

end Sdk

namespace HotReload

inductive LoadError
  | deserializationFailed (message : String)
  | refused (source : WorkflowDefinitionError)

section

def decodeName (typeName : String) (value : Json) : Except String (Text (validateName typeName)) := do
  let text ← toStr value
  (Text.parse (validateName typeName) text).mapError ParseError.toText

def decodeCompensation : Json → Except String CompensationPolicy :=
  toUnitVariant [("None", .none), ("Manual", .manual), ("Automatic", .automatic)]

def decodeCondition : Json → Except String EdgeCondition :=
  toUnitVariant [("Always", .always), ("OnSuccess", .onSuccess), ("OnFailure", .onFailure)]

def decodeEdge (value : Json) : Except String Edge := do
  let fields ← record "Edge" ["source_node", "target_node", "condition"] value
  let sourceNode ← present fields "source_node" (decodeName "NodeName")
  let targetNode ← present fields "target_node" (decodeName "NodeName")
  let condition ← present fields "condition" decodeCondition
  let sourceNode ← sourceNode.okOr (missingField "source_node")
  let targetNode ← targetNode.okOr (missingField "target_node")
  let condition ← condition.okOr (missingField "condition")
  return { sourceNode, targetNode, condition }

variable [ForeignFormats]

def decodeRetryPolicy (value : Json) : Except String RetryPolicy := do
  let fields ← recordWithDefaults "RetryPolicy"
    ["max_attempts", "backoff_ms", "backoff_multiplier", "max_backoff_ms"] 3 value
  let maxAttempts ← present fields "max_attempts" toU8
  let backoffMs ← present fields "backoff_ms" toU64
  let backoffMultiplier ← present fields "backoff_multiplier" ForeignFormats.toF64
  let maxBackoffMs ← present fields "max_backoff_ms" toU64
  let maxAttempts ← maxAttempts.okOr (missingField "max_attempts")
  let backoffMs ← backoffMs.okOr (missingField "backoff_ms")
  let backoffMultiplier ← backoffMultiplier.okOr (missingField "backoff_multiplier")
  return { maxAttempts, backoffMs, backoffMultiplier, maxBackoffMs := maxBackoffMs.getD 0xFFFFFFFFFFFFFFFF }

def decodeNode (value : Json) : Except String DagNode := do
  let fields ← recordWithDefaults "DagNode" ["node_name", "retry_policy", "compensation_policy"] 2 value
  let nodeName ← present fields "node_name" (decodeName "NodeName")
  let retryPolicy ← present fields "retry_policy" decodeRetryPolicy
  let compensationPolicy ← present fields "compensation_policy" (toOption decodeCompensation)
  let nodeName ← nodeName.okOr (missingField "node_name")
  let retryPolicy ← retryPolicy.okOr (missingField "retry_policy")
  return { nodeName, retryPolicy, compensationPolicy := compensationPolicy.getD none }

def decodeWorkflow (value : Json) : Except String UnvalidatedWorkflow := do
  let fields ← recordWithDefaults "UnvalidatedWorkflow" ["workflow_name", "nodes", "edges", "version"] 3 value
  let workflowName ← present fields "workflow_name" (decodeName "WorkflowName")
  let nodes ← present fields "nodes" (toSeq decodeNode)
  let edges ← present fields "edges" (toSeq decodeEdge)
  let version ← present fields "version" (toOption ForeignFormats.toVersion)
  let workflowName ← workflowName.okOr (missingField "workflow_name")
  let nodes ← nodes.okOr (missingField "nodes")
  let edges ← edges.okOr (missingField "edges")
  return { workflowName, nodes, edges, version := version.getD none }

variable [JsonCodec] [JsonCodec.Streaming]

def parseWorkflowDefinition (hash : HashOrder NodeName) (jsonBytes : Bytes) : Except LoadError WorkflowDefinition := do
  let value ← (JsonCodec.Streaming.firstValue jsonBytes).mapError .deserializationFailed
  let unvalidated ← (decodeWorkflow value).mapError .deserializationFailed
  (Workflow.validateUnvalidated hash unvalidated).mapError .refused

end

section

variable [ForeignFormats] {fields : List (String × Json)}

theorem node_name_of_decodeNode {node : DagNode} (hd : decodeNode (.object fields) = .ok node) :
    ∃ value, Json.lookup fields "node_name" = some value := by
  simp only [decodeNode, recordWithDefaults, record, Except.bind_eq_ok] at hd
  obtain ⟨_, same, nodeName, read, _, _, _, _, name, hn, _⟩ := hd
  cases same
  rw [Option.okOr_eq_ok.mp hn] at read
  obtain ⟨value, hf, _⟩ := exists_of_present read
  exact ⟨value, hf⟩

theorem nodes_of_decodeWorkflow {flow : UnvalidatedWorkflow} (hd : decodeWorkflow (.object fields) = .ok flow) :
    ∃ value, Json.lookup fields "nodes" = some value ∧ toSeq decodeNode value = .ok flow.nodes := by
  simp only [decodeWorkflow, recordWithDefaults, record, Except.bind_eq_ok] at hd
  obtain ⟨_, same, _, _, nodes, read, _, _, _, _, _, _, _, hl, _, _, made⟩ := hd
  cases same
  cases made
  rw [Option.okOr_eq_ok.mp hl] at read
  exact exists_of_present read

theorem decodeNode_emitted (node : Sdk.NodeSpec) {value : Json} (same : node.toJson.Same value)
    (result : DagNode) : decodeNode value ≠ .ok result := by
  intro hd
  rw [Sdk.NodeSpec.toJson] at same
  cases same with
  | @object _ fields hr =>
    obtain ⟨value, hf⟩ := node_name_of_decodeNode hd
    have hm : Json.lookup fields "node_name" = none := lookup_none_related hr rfl
    rw [hm] at hf
    cases hf

theorem decodeWorkflow_emitted (spec : Sdk.WorkflowSpec) (hn : spec.nodes ≠ []) {value : Json}
    (same : spec.toJson.Same value) (result : UnvalidatedWorkflow) : decodeWorkflow value ≠ .ok result := by
  intro hd
  obtain ⟨first, rest, ho⟩ := List.exists_cons_of_ne_nil hn
  rw [Sdk.WorkflowSpec.toJson, ho] at same
  cases same with
  | @object _ fields hr =>
    obtain ⟨listed, hf, read⟩ := nodes_of_decodeWorkflow hd
    obtain ⟨other, ht, same⟩ := @lookup_related _ fields "nodes" _ hr rfl
    rw [ht] at hf
    cases hf
    cases same with
    | array hi =>
      cases hi with
      | cons here _ =>
        obtain ⟨node, _, hd⟩ := (Except.mapM_eq_ok.mp read).exists_of_mem List.mem_cons_self
        exact decodeNode_emitted first here node hd

theorem parse_emitted [JsonCodec] [JsonCodec.Streaming] (hash : HashOrder NodeName) (spec : Sdk.WorkflowSpec)
    (hn : spec.nodes ≠ []) :
    ∃ msg, parseWorkflowDefinition hash spec.toJsonBytes = .error (.deserializationFailed msg) := by
  obtain ⟨value, read, same⟩ := JsonCodec.ofSlice_bytes spec.toJson
  have hf := JsonCodec.Streaming.firstValue_of_ofSlice read
  rw [parseWorkflowDefinition, Sdk.WorkflowSpec.toJsonBytes, hf]
  cases hd : decodeWorkflow value with
  | ok flow => exact absurd hd (decodeWorkflow_emitted spec hn same flow)
  | error msg =>
    refine ⟨msg, ?_⟩
    show ((decodeWorkflow value).mapError LoadError.deserializationFailed >>= _) = _
    rw [hd]
    rfl

end

section

variable [ForeignFormats] [JsonCodec] [JsonCodec.Streaming]

/-- Every graph that is built is refused by the loader, whatever its nodes and edges. -/
theorem built_graph_refused (calls : List Sdk.Dag.Call) (fuel : Nat) (workflowName : String) (spec : Sdk.WorkflowSpec)
    (succeeds : (built calls).build fuel workflowName = some (.ok spec)) (hash : HashOrder NodeName) :
    ∃ message, parseWorkflowDefinition hash spec.toJsonBytes = .error (.deserializationFailed message) :=
  parse_emitted hash spec (Sdk.Dag.nodes_of_build succeeds)

end

section Sample

attribute [local instance] Json.Text.codec Json.Text.streaming

@[reducible] def sampleFormats : ForeignFormats where
  ofF64 _ := .null
  toF64 value := .error (invalidType value "f64")
  toVersion value := .error (invalidType value "semver version")

attribute [local instance] sampleFormats

theorem built_graph_refused_sample : ∃ spec, (built (parallelCalls 1)).build 2 "flow" = some (.ok spec) ∧
    ∃ message, parseWorkflowDefinition (.unchanged NodeName) spec.toJsonBytes =
      .error (.deserializationFailed message) := by
  have hs : (built (parallelCalls 1)).build 2 "flow" =
      some (.ok ((built (parallelCalls 1)).emitSpec Sdk.Dag.flow)) := by decide +kernel
  exact ⟨_, hs, built_graph_refused _ _ _ _ hs (.unchanged NodeName)⟩

/-- A graph of two nodes and one edge, which the loader does not accept. -/
theorem built_graph_not_loaded : (built (parallelCalls 1)).edges.Nodup ∧
    (∀ index, ∃ edge ∈ (built (parallelCalls 1)).edges, edge.1 = index ∨ edge.2 = index) ∧
    ∃ spec, (built (parallelCalls 1)).build 2 "flow" = some (.ok spec) ∧
      ¬ ∃ definition, parseWorkflowDefinition (.unchanged NodeName) spec.toJsonBytes = .ok definition := by
  have hs : (built (parallelCalls 1)).build 2 "flow" =
      some (.ok ((built (parallelCalls 1)).emitSpec Sdk.Dag.flow)) := by decide +kernel
  refine ⟨by decide +kernel, by decide +kernel, _, hs, ?_⟩
  obtain ⟨msg, hr⟩ := parse_emitted (.unchanged NodeName) _ (Sdk.Dag.nodes_of_build hs)
  intro hl
  obtain ⟨definition, ha⟩ := hl
  rw [hr] at ha
  cases ha

end Sample

end HotReload

end Veloxide
