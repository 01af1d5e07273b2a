import PeerDeploy.Base.Serde
import PeerDeploy.Common.Wire

/-!
# Gossip messages on the wire

What the derived `Serialize` and `Deserialize` do with the messages that share the topics of a
realm: the commands, the status of a node, and the job records that answer a query
(`crates/common/src/lib.rs:8–142,192–213,455–646`). A `usize` has 64 bits.
-/

namespace PeerDeploy.Common

open PeerDeploy.Base PeerDeploy.Base.Serde

namespace SignedManifest

/-- The fields in the order of their declaration. -/
def members (signed : SignedManifest) : List (String × Json) :=
  [("alg", .str signed.alg), ("owner_pub_bs58", .str signed.ownerPubBs58),
    ("version", .num signed.version), ("manifest_toml", .str signed.manifestToml),
    ("signature_b64", .str signed.signatureB64)]

/-- `crates/common/src/lib.rs:192–199`. -/
def toJson (signed : SignedManifest) : Json := .obj signed.members

/-- `crates/common/src/lib.rs:192–199`. -/
def ofJson : Json → Option SignedManifest :=
  record ["alg", "owner_pub_bs58", "version", "manifest_toml", "signature_b64"] fun fields ↦ do
    let alg ← required Json.asText fields "alg"
    let ownerPubBs58 ← required Json.asText fields "owner_pub_bs58"
    let version ← required (Json.asUnsigned 64) fields "version"
    let manifestToml ← required Json.asText fields "manifest_toml"
    let signatureB64 ← required Json.asText fields "signature_b64"
    return { alg, ownerPubBs58, version, manifestToml, signatureB64 }

end SignedManifest

namespace AgentUpgrade

/-- The fields in the order of their declaration. -/
def members (pkg : AgentUpgrade) : List (String × Json) :=
  [("alg", .str pkg.alg), ("owner_pub_bs58", .str pkg.ownerPubBs58), ("version", .num pkg.version),
    ("target_platform", Json.nullable .str pkg.targetPlatform),
    ("target_peer_ids", Json.list .str pkg.targetPeerIds),
    ("target_tags", Json.list .str pkg.targetTags),
    ("binary_sha256_hex", .str pkg.binarySha256Hex), ("binary_b64", .str pkg.binaryB64),
    ("signature_b64", .str pkg.signatureB64)]

/-- `crates/common/src/lib.rs:201–213`. -/
def toJson (pkg : AgentUpgrade) : Json := .obj pkg.members

/-- `crates/common/src/lib.rs:201–213`. -/
def ofJson : Json → Option AgentUpgrade :=
  record ["alg", "owner_pub_bs58", "version", "target_platform", "target_peer_ids", "target_tags",
      "binary_sha256_hex", "binary_b64", "signature_b64"] fun fields ↦ do
    let alg ← required Json.asText fields "alg"
    let ownerPubBs58 ← required Json.asText fields "owner_pub_bs58"
    let version ← required (Json.asUnsigned 64) fields "version"
    let targetPlatform ← defaulted (asOption Json.asText) none fields "target_platform"
    let targetPeerIds ← required (Json.asList Json.asText) fields "target_peer_ids"
    let targetTags ← required (Json.asList Json.asText) fields "target_tags"
    let binarySha256Hex ← required Json.asText fields "binary_sha256_hex"
    let binaryB64 ← required Json.asText fields "binary_b64"
    let signatureB64 ← required Json.asText fields "signature_b64"
    return {
      alg, ownerPubBs58, version, targetPlatform, targetPeerIds, targetTags, binarySha256Hex,
      binaryB64, signatureB64 }

end AgentUpgrade

/-! ### Job specifications -/

namespace JobType

/-- `crates/common/src/lib.rs:473–479`. -/
def toJson : JobType → Json
  | .oneShot => .str "one-shot"
  | .recurring => .str "recurring"
  | .service => .str "service"

/-- `crates/common/src/lib.rs:473–479`. -/
def ofJson (value : Json) : Option JobType :=
  match variantName value with
  | some "one-shot" => some .oneShot
  | some "recurring" => some .recurring
  | some "service" => some .service
  | _ => none

end JobType

namespace JobRuntime

/-- The tag, and the fields of the variant in the order of their declaration. -/
def members : JobRuntime → List (String × Json)
  | .wasm source sha256Hex memoryMb fuel epochMs mounts =>
    [("type", .str "wasm"), ("source", .str source),
      ("sha256_hex", Json.nullable .str sha256Hex), ("memory_mb", .num memoryMb),
      ("fuel", .num fuel), ("epoch_ms", .num epochMs),
      ("mounts", Json.nullable (Json.list MountSpec.toJson) mounts)]
  | .native binary sha256Hex args env =>
    [("type", .str "native"), ("binary", .str binary),
      ("sha256_hex", Json.nullable .str sha256Hex), ("args", Json.list .str args),
      ("env", Serde.map .str env)]
  | .qemu binary sha256Hex args env targetPlatform qemuBinary =>
    [("type", .str "qemu"), ("binary", .str binary),
      ("sha256_hex", Json.nullable .str sha256Hex), ("args", Json.list .str args),
      ("env", Serde.map .str env), ("target_platform", Json.nullable .str targetPlatform),
      ("qemu_binary", Json.nullable .str qemuBinary)]

/-- `crates/common/src/lib.rs:481–535`. -/
def toJson (runtime : JobRuntime) : Json := .obj runtime.members

/-- `crates/common/src/lib.rs:484–499,537–545`. -/
def wasmOfJson : Json → Option JobRuntime :=
  record ["source", "sha256_hex", "memory_mb", "fuel", "epoch_ms", "mounts"] fun fields ↦ do
    let source ← required Json.asText fields "source"
    let sha256Hex ← defaulted (asOption Json.asText) none fields "sha256_hex"
    let memoryMb ← defaulted (Json.asUnsigned 64) 64 fields "memory_mb"
    let fuel ← defaulted (Json.asUnsigned 64) 0 fields "fuel"
    let epochMs ← defaulted (Json.asUnsigned 64) 100 fields "epoch_ms"
    let mounts ← defaulted (asOption (Json.asList MountSpec.ofJson)) none fields "mounts"
    return .wasm source sha256Hex memoryMb fuel epochMs mounts

/-- `crates/common/src/lib.rs:500–514`. -/
def nativeOfJson : Json → Option JobRuntime :=
  record ["binary", "sha256_hex", "args", "env"] fun fields ↦ do
    let binary ← required Json.asText fields "binary"
    let sha256Hex ← defaulted (asOption Json.asText) none fields "sha256_hex"
    let args ← defaulted (Json.asList Json.asText) [] fields "args"
    let env ← defaulted (asMap Json.asText) [] fields "env"
    return .native binary sha256Hex args env

/-- `crates/common/src/lib.rs:515–535`. -/
def qemuOfJson : Json → Option JobRuntime :=
  record ["binary", "sha256_hex", "args", "env", "target_platform", "qemu_binary"] fun fields ↦ do
    let binary ← required Json.asText fields "binary"
    let sha256Hex ← defaulted (asOption Json.asText) none fields "sha256_hex"
    let args ← defaulted (Json.asList Json.asText) [] fields "args"
    let env ← defaulted (asMap Json.asText) [] fields "env"
    let targetPlatform ← defaulted (asOption Json.asText) none fields "target_platform"
    let qemuBinary ← defaulted (asOption Json.asText) none fields "qemu_binary"
    return .qemu binary sha256Hex args env targetPlatform qemuBinary

/-- `crates/common/src/lib.rs:481–535`. -/
def ofJson (value : Json) : Option JobRuntime :=
  match tagged "type" value with
  | some ("wasm", fields) => wasmOfJson fields
  | some ("native", fields) => nativeOfJson fields
  | some ("qemu", fields) => qemuOfJson fields
  | _ => none

end JobRuntime

namespace ArtifactSpec

/-- The fields in the order of their declaration. -/
def members (artifact : ArtifactSpec) : List (String × Json) :=
  [("path", .str artifact.path), ("name", Json.nullable .str artifact.name)]

/-- `crates/common/src/lib.rs:575–582`. -/
def toJson (artifact : ArtifactSpec) : Json := .obj artifact.members

/-- `crates/common/src/lib.rs:575–582`. -/
def ofJson : Json → Option ArtifactSpec :=
  record ["path", "name"] fun fields ↦ do
    let path ← required Json.asText fields "path"
    let name ← defaulted (asOption Json.asText) none fields "name"
    return { path, name }

end ArtifactSpec

namespace PreStageSpec

/-- The fields in the order of their declaration. -/
def members (item : PreStageSpec) : List (String × Json) :=
  [("source", .str item.source), ("dest", .str item.dest)]

/-- `crates/common/src/lib.rs:584–590`. -/
def toJson (item : PreStageSpec) : Json := .obj item.members

/-- `crates/common/src/lib.rs:584–590`. -/
def ofJson : Json → Option PreStageSpec :=
  record ["source", "dest"] fun fields ↦ do
    let source ← required Json.asText fields "source"
    let dest ← required Json.asText fields "dest"
    return { source, dest }

end PreStageSpec

namespace JobExecution

/-- The fields in the order of their declaration. -/
def members (execution : JobExecution) : List (String × Json) :=
  [("working_dir", Json.nullable .str execution.workingDir),
    ("timeout_minutes", Json.nullable .num execution.timeoutMinutes),
    ("artifacts", Json.nullable (Json.list ArtifactSpec.toJson) execution.artifacts),
    ("pre_stage", Json.list PreStageSpec.toJson execution.preStage)]

/-- `crates/common/src/lib.rs:547–563`. -/
def toJson (execution : JobExecution) : Json := .obj execution.members

/-- `crates/common/src/lib.rs:547–563`. -/
def ofJson : Json → Option JobExecution :=
  record ["working_dir", "timeout_minutes", "artifacts", "pre_stage"] fun fields ↦ do
    let workingDir ← defaulted (asOption Json.asText) none fields "working_dir"
    let timeoutMinutes ← defaulted (asOption (Json.asUnsigned 64)) none fields "timeout_minutes"
    let artifacts ← defaulted (asOption (Json.asList ArtifactSpec.ofJson)) none fields "artifacts"
    let preStage ← defaulted (Json.asList PreStageSpec.ofJson) [] fields "pre_stage"
    return { workingDir, timeoutMinutes, artifacts, preStage }

end JobExecution

namespace JobTargeting

/-- The fields in the order of their declaration. -/
def members (targeting : JobTargeting) : List (String × Json) :=
  [("platform", Json.nullable .str targeting.platform), ("tags", Json.list .str targeting.tags),
    ("node_ids", Json.list .str targeting.nodeIds)]

/-- `crates/common/src/lib.rs:565–573`. -/
def toJson (targeting : JobTargeting) : Json := .obj targeting.members

/-- `crates/common/src/lib.rs:565–573`. -/
def ofJson : Json → Option JobTargeting :=
  record ["platform", "tags", "node_ids"] fun fields ↦ do
    let platform ← defaulted (asOption Json.asText) none fields "platform"
    let tags ← defaulted (Json.asList Json.asText) [] fields "tags"
    let nodeIds ← defaulted (Json.asList Json.asText) [] fields "node_ids"
    return { platform, tags, nodeIds }

end JobTargeting

namespace JobSpec

/-- The fields in the order of their declaration. -/
def members (spec : JobSpec) : List (String × Json) :=
  [("name", .str spec.name), ("job_type", spec.jobType.toJson),
    ("schedule", Json.nullable .str spec.schedule), ("runtime", spec.runtime.toJson),
    ("execution", spec.execution.toJson),
    ("targeting", Json.nullable JobTargeting.toJson spec.targeting)]

/-- `crates/common/src/lib.rs:455–467`. -/
def toJson (spec : JobSpec) : Json := .obj spec.members

/-- `crates/common/src/lib.rs:455–471`. -/
def ofJson : Json → Option JobSpec :=
  record ["name", "job_type", "schedule", "runtime", "execution", "targeting"] fun fields ↦ do
    let name ← required Json.asText fields "name"
    let jobType ← defaulted JobType.ofJson .oneShot fields "job_type"
    let schedule ← defaulted (asOption Json.asText) none fields "schedule"
    let runtime ← required JobRuntime.ofJson fields "runtime"
    let execution ← required JobExecution.ofJson fields "execution"
    let targeting ← defaulted (asOption JobTargeting.ofJson) none fields "targeting"
    return { name, jobType, schedule, runtime, execution, targeting }

end JobSpec

/-! ### Job records -/

namespace JobStatus

/-- `crates/common/src/lib.rs:606–614`. -/
def toJson : JobStatus → Json
  | .pending => .str "pending"
  | .running => .str "running"
  | .completed => .str "completed"
  | .failed => .str "failed"
  | .cancelled => .str "cancelled"

/-- `crates/common/src/lib.rs:606–614`. -/
def ofJson (value : Json) : Option JobStatus :=
  match variantName value with
  | some "pending" => some .pending
  | some "running" => some .running
  | some "completed" => some .completed
  | some "failed" => some .failed
  | some "cancelled" => some .cancelled
  | _ => none

end JobStatus

namespace JobLogEntry

/-- The fields in the order of their declaration. -/
def members (entry : JobLogEntry) : List (String × Json) :=
  [("timestamp", .num entry.timestamp), ("level", .str entry.level),
    ("message", .str entry.message)]

/-- `crates/common/src/lib.rs:641–646`. -/
def toJson (entry : JobLogEntry) : Json := .obj entry.members

/-- `crates/common/src/lib.rs:641–646`. -/
def ofJson : Json → Option JobLogEntry :=
  record ["timestamp", "level", "message"] fun fields ↦ do
    let timestamp ← required (Json.asUnsigned 64) fields "timestamp"
    let level ← required Json.asText fields "level"
    let message ← required Json.asText fields "message"
    return { timestamp, level, message }

end JobLogEntry

namespace JobArtifact

/-- The fields in the order of their declaration. -/
def members (artifact : JobArtifact) : List (String × Json) :=
  [("name", .str artifact.name), ("stored_path", .str artifact.storedPath),
    ("size_bytes", Json.nullable .num artifact.sizeBytes),
    ("sha256_hex", Json.nullable .str artifact.sha256Hex)]

/-- `crates/common/src/lib.rs:592–602`. -/
def toJson (artifact : JobArtifact) : Json := .obj artifact.members

/-- `crates/common/src/lib.rs:592–602`. -/
def ofJson : Json → Option JobArtifact :=
  record ["name", "stored_path", "size_bytes", "sha256_hex"] fun fields ↦ do
    let name ← required Json.asText fields "name"
    let storedPath ← required Json.asText fields "stored_path"
    let sizeBytes ← defaulted (asOption (Json.asUnsigned 64)) none fields "size_bytes"
    let sha256Hex ← defaulted (asOption Json.asText) none fields "sha256_hex"
    return { name, storedPath, sizeBytes, sha256Hex }

end JobArtifact

namespace JobInstance

/-- The fields in the order of their declaration. -/
def members (job : JobInstance) : List (String × Json) :=
  [("id", .str job.id), ("origin_node_id", .str job.originNodeId), ("spec", job.spec.toJson),
    ("status", job.status.toJson), ("submitted_at", .num job.submittedAt),
    ("updated_at", .num job.updatedAt), ("started_at", Json.nullable .num job.startedAt),
    ("completed_at", Json.nullable .num job.completedAt),
    ("exit_code", Json.nullable Json.int job.exitCode),
    ("error_message", Json.nullable .str job.errorMessage),
    ("assigned_node", Json.nullable .str job.assignedNode),
    ("logs", Json.list JobLogEntry.toJson job.logs),
    ("last_scheduled_at", Json.nullable .num job.lastScheduledAt),
    ("schedule_next_at", Json.nullable .num job.scheduleNextAt),
    ("artifacts", Json.list JobArtifact.toJson job.artifacts)]

/-- `crates/common/src/lib.rs:616–639`. -/
def toJson (job : JobInstance) : Json := .obj job.members

/-- `crates/common/src/lib.rs:616–639`. -/
def ofJson : Json → Option JobInstance :=
  record ["id", "origin_node_id", "spec", "status", "submitted_at", "updated_at", "started_at",
      "completed_at", "exit_code", "error_message", "assigned_node", "logs", "last_scheduled_at",
      "schedule_next_at", "artifacts"] fun fields ↦ do
    let id ← required Json.asText fields "id"
    let originNodeId ← defaulted Json.asText "" fields "origin_node_id"
    let spec ← required JobSpec.ofJson fields "spec"
    let status ← required JobStatus.ofJson fields "status"
    let submittedAt ← required (Json.asUnsigned 64) fields "submitted_at"
    let updatedAt ← defaulted (Json.asUnsigned 64) 0 fields "updated_at"
    let startedAt ← optional (Json.asUnsigned 64) fields "started_at"
    let completedAt ← optional (Json.asUnsigned 64) fields "completed_at"
    let exitCode ← optional (Json.asSigned 32) fields "exit_code"
    let errorMessage ← optional Json.asText fields "error_message"
    let assignedNode ← optional Json.asText fields "assigned_node"
    let logs ← required (Json.asList JobLogEntry.ofJson) fields "logs"
    let lastScheduledAt ← defaulted (asOption (Json.asUnsigned 64)) none fields "last_scheduled_at"
    let scheduleNextAt ← defaulted (asOption (Json.asUnsigned 64)) none fields "schedule_next_at"
    let artifacts ← defaulted (Json.asList JobArtifact.ofJson) [] fields "artifacts"
    return {
      id, originNodeId, spec, status, submittedAt, updatedAt, startedAt, completedAt, exitCode,
      errorMessage, assignedNode, logs, lastScheduledAt, scheduleNextAt, artifacts }

end JobInstance

/-! ### Commands and the status -/

namespace Command

/-- The name of the variant, and its fields in the order of their declaration. -/
def payload : Command → String × Json
  | .hello sender => ("Hello", .obj [("from", .str sender)])
  | .run wasmPath memoryMaxMb fuel epochMs =>
    ("Run", .obj [("wasm_path", .str wasmPath), ("memory_max_mb", .num memoryMaxMb),
      ("fuel", .num fuel), ("epoch_ms", .num epochMs)])
  | .statusQuery => ("StatusQuery", .null)
  | .metricsQuery => ("MetricsQuery", .null)
  | .logsQuery component tail =>
    ("LogsQuery", .obj [("component", Json.nullable .str component), ("tail", .num tail)])
  | .applyManifest signed => ("ApplyManifest", signed.toJson)
  | .upgradeAgent pkg => ("UpgradeAgent", pkg.toJson)
  | .pushComponent pkg => ("PushComponent", pkg.toJson)
  | .submitJob originNodeId jobId spec =>
    ("SubmitJob", .obj [("origin_node_id", .str originNodeId), ("job_id", .str jobId),
      ("spec", spec.toJson)])
  | .queryJobs statusFilter limit =>
    ("QueryJobs", .obj [("status_filter", Json.nullable .str statusFilter), ("limit", .num limit)])
  | .queryJobStatus jobId => ("QueryJobStatus", .obj [("job_id", .str jobId)])
  | .cancelJob jobId => ("CancelJob", .obj [("job_id", .str jobId)])
  | .queryJobLogs jobId tail => ("QueryJobLogs", .obj [("job_id", .str jobId), ("tail", .num tail)])
  | .announcePeers peers => ("AnnouncePeers", .obj [("peers", Json.list .str peers)])
  | .storagePut digest bytesB64 =>
    ("StoragePut", .obj [("digest", .str digest), ("bytes_b64", .str bytesB64)])
  | .storagePutChunk digest chunkIndex totalChunks bytesB64 =>
    ("StoragePutChunk", .obj [("digest", .str digest), ("chunk_index", .num chunkIndex),
      ("total_chunks", .num totalChunks), ("bytes_b64", .str bytesB64)])
  | .storageHave digest size => ("StorageHave", .obj [("digest", .str digest), ("size", .num size)])
  | .storageGet digest => ("StorageGet", .obj [("digest", .str digest)])
  | .storageData digest bytesB64 =>
    ("StorageData", .obj [("digest", .str digest), ("bytes_b64", .str bytesB64)])
  | .jobAccepted jobId assignedNode messageId =>
    ("JobAccepted", .obj [("job_id", .str jobId), ("assigned_node", .str assignedNode),
      ("message_id", .str messageId)])
  | .jobStarted jobId assignedNode messageId =>
    ("JobStarted", .obj [("job_id", .str jobId), ("assigned_node", .str assignedNode),
      ("message_id", .str messageId)])
  | .jobCompleted jobId assignedNode exitCode messageId =>
    ("JobCompleted", .obj [("job_id", .str jobId), ("assigned_node", .str assignedNode),
      ("exit_code", Json.int exitCode), ("message_id", .str messageId)])
  | .jobFailed jobId assignedNode error messageId =>
    ("JobFailed", .obj [("job_id", .str jobId), ("assigned_node", .str assignedNode),
      ("error", .str error), ("message_id", .str messageId)])
  | .jobStatusAck jobId status sender messageId =>
    ("JobStatusAck", .obj [("job_id", .str jobId), ("status", .str status), ("from", .str sender),
      ("message_id", .str messageId)])
  | .jobSyncRequest nodeId => ("JobSyncRequest", .obj [("node_id", .str nodeId)])
  | .syncJobs nodeId jobs =>
    ("SyncJobs", .obj [("node_id", .str nodeId), ("jobs", Json.list JobInstance.toJson jobs)])
  | .updateRoles targetPeerIds roles =>
    ("UpdateRoles", .obj [("target_peer_ids", Json.list .str targetPeerIds),
      ("roles", Json.list .str roles)])

/-- `crates/common/src/lib.rs:8–126`. A variant without data is its name. -/
def toJson (command : Command) : Json :=
  match command with
  | .statusQuery | .metricsQuery => .str command.payload.1
  | _ => .obj [command.payload]

end Command

namespace Status

/-- The fields in the order of their declaration. -/
def members (status : Status) : List (String × Json) :=
  [("node_id", .str status.nodeId), ("msg", .str status.msg),
    ("agent_version", .num status.agentVersion),
    ("components_desired", .num status.componentsDesired),
    ("components_running", .num status.componentsRunning),
    ("cpu_percent", .num status.cpuPercent), ("mem_percent", .num status.memPercent),
    ("tags", Json.list .str status.tags), ("drift", Json.int status.drift),
    ("trusted_owner_pub_bs58", Json.nullable .str status.trustedOwnerPubBs58),
    ("links", .num status.links)]

/-- `crates/common/src/lib.rs:128–142`. -/
def toJson (status : Status) : Json := .obj status.members

/-- `crates/common/src/lib.rs:128–142`. -/
def ofJson : Json → Option Status :=
  record ["node_id", "msg", "agent_version", "components_desired", "components_running",
      "cpu_percent", "mem_percent", "tags", "drift", "trusted_owner_pub_bs58", "links"]
      fun fields ↦ do
    let nodeId ← required Json.asText fields "node_id"
    let msg ← required Json.asText fields "msg"
    let agentVersion ← required (Json.asUnsigned 64) fields "agent_version"
    let componentsDesired ← required (Json.asUnsigned 64) fields "components_desired"
    let componentsRunning ← required (Json.asUnsigned 64) fields "components_running"
    let cpuPercent ← required (Json.asUnsigned 64) fields "cpu_percent"
    let memPercent ← required (Json.asUnsigned 64) fields "mem_percent"
    let tags ← required (Json.asList Json.asText) fields "tags"
    let drift ← required (Json.asSigned 64) fields "drift"
    let trustedOwnerPubBs58 ←
      defaulted (asOption Json.asText) none fields "trusted_owner_pub_bs58"
    let links ← defaulted (Json.asUnsigned 64) 0 fields "links"
    return {
      nodeId, msg, agentVersion, componentsDesired, componentsRunning, cpuPercent, memPercent,
      tags, drift, trustedOwnerPubBs58, links }

end Status

end PeerDeploy.Common
