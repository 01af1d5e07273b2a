import PeerDeploy.Common.Messages

/-!
# What a gossip message is taken for

The messages of a realm carry no kind: the event loop tries the reader of a status first, then
that of a command (`crates/agent/src/p2p/mod.rs:854–859`), and the command line reads lists of
job records from the same topic (`crates/agent/src/cmd/job.rs:530–545`).
-/

namespace PeerDeploy.Common

open PeerDeploy.Base PeerDeploy.Base.Serde

/-! ### Deployments -/

/-- A signed manifest is read back if its version is a `u64`. -/
theorem SignedManifest.ofJson_toJson {signed : SignedManifest} (h : signed.version < 2 ^ 64) :
    ofJson signed.toJson = some signed := by
  have hkeys : (signed.members.map Prod.fst).Nodup :=
    (by decide : ["alg", "owner_pub_bs58", "version", "manifest_toml", "signature_b64"].Nodup)
  rw [toJson, ofJson, record, required_text hkeys "alg" signed.alg (by simp [members]),
    required_text hkeys "owner_pub_bs58" signed.ownerPubBs58 (by simp [members]),
    required_number hkeys "version" h (by simp [members]),
    required_text hkeys "manifest_toml" signed.manifestToml (by simp [members]),
    required_text hkeys "signature_b64" signed.signatureB64 (by simp [members])]
  rfl

/-- So is an upgrade package. -/
theorem AgentUpgrade.ofJson_toJson {pkg : AgentUpgrade} (h : pkg.version < 2 ^ 64) :
    ofJson pkg.toJson = some pkg := by
  have hkeys : (pkg.members.map Prod.fst).Nodup :=
    (by decide : ["alg", "owner_pub_bs58", "version", "target_platform", "target_peer_ids",
      "target_tags", "binary_sha256_hex", "binary_b64", "signature_b64"].Nodup)
  rw [toJson, ofJson, record, required_text hkeys "alg" pkg.alg (by simp [members]),
    required_text hkeys "owner_pub_bs58" pkg.ownerPubBs58 (by simp [members]),
    required_number hkeys "version" h (by simp [members]),
    defaulted_maybeText hkeys "target_platform" pkg.targetPlatform (by simp [members]),
    required_texts hkeys "target_peer_ids" pkg.targetPeerIds (by simp [members]),
    required_texts hkeys "target_tags" pkg.targetTags (by simp [members]),
    required_text hkeys "binary_sha256_hex" pkg.binarySha256Hex (by simp [members]),
    required_text hkeys "binary_b64" pkg.binaryB64 (by simp [members]),
    required_text hkeys "signature_b64" pkg.signatureB64 (by simp [members])]
  rfl

/-! ### Job specifications -/

/-- A kind of job is read back. -/
theorem JobType.ofJson_toJson (jobType : JobType) : ofJson jobType.toJson = some jobType := by
  cases jobType <;> rfl

namespace JobRuntime

/-- The numbers have the widths of their types, and the environment is a map. -/
def Fits : JobRuntime → Prop
  | .wasm _ _ memoryMb fuel epochMs _ => memoryMb < 2 ^ 64 ∧ fuel < 2 ^ 64 ∧ epochMs < 2 ^ 64
  | .native _ _ _ env | .qemu _ _ _ env _ _ => IsMap env

-- The fields of a variant, without its tag.
private def fields (runtime : JobRuntime) : List (String × Json) := runtime.members.tail

private def kind : JobRuntime → String
  | .wasm .. => "wasm"
  | .native .. => "native"
  | .qemu .. => "qemu"

private theorem tagged_type {name : String} {fields : List (String × Json)}
    (h : ∀ entry ∈ fields, entry.1 ≠ "type") :
    tagged "type" (.obj (("type", .str name) :: fields)) = some (name, .obj fields) := by
  have hnone : fields.filter (·.1 == "type") = [] := by
    rw [List.filter_eq_nil_iff]
    intro entry hentry
    simpa using h entry hentry
  have hall : fields.filter (·.1 != "type") = fields := by
    rw [List.filter_eq_self]
    intro entry hentry
    simpa using h entry hentry
  simp [tagged, Json.member, hnone, hall]

private theorem tagged_toJson (runtime : JobRuntime) :
    tagged "type" runtime.toJson = some (runtime.kind, .obj runtime.fields) := by
  cases runtime with
  | wasm => exact tagged_type (by simp)
  | native => exact tagged_type (by simp)
  | qemu => exact tagged_type (by simp)

private theorem wasmOfJson_fields (source : String) (sha256Hex : Option String)
    {memoryMb fuel epochMs : Nat} (mounts : Option (List MountSpec)) (hmemory : memoryMb < 2 ^ 64)
    (hfuel : fuel < 2 ^ 64) (hepoch : epochMs < 2 ^ 64) :
    wasmOfJson (.obj (fields (.wasm source sha256Hex memoryMb fuel epochMs mounts))) =
      some (.wasm source sha256Hex memoryMb fuel epochMs mounts) := by
  have hkeys : ((fields (.wasm source sha256Hex memoryMb fuel epochMs mounts)).map
      Prod.fst).Nodup :=
    (by decide : ["source", "sha256_hex", "memory_mb", "fuel", "epoch_ms", "mounts"].Nodup)
  rw [wasmOfJson, record, required_text hkeys "source" source (by simp [fields, members]),
    defaulted_maybeText hkeys "sha256_hex" sha256Hex (by simp [fields, members]),
    defaulted_number hkeys "memory_mb" 64 hmemory (by simp [fields, members]),
    defaulted_number hkeys "fuel" 0 hfuel (by simp [fields, members]),
    defaulted_number hkeys "epoch_ms" 100 hepoch (by simp [fields, members]),
    defaulted_maybeList hkeys "mounts" MountSpec.toJson mounts
      (fun _ _ mount _ ↦ mount.ofJson_toJson) (by simp [fields, members])]
  rfl

private theorem nativeOfJson_fields (binary : String) (sha256Hex : Option String)
    (args : List String) {env : List (String × String)} (henv : IsMap env) :
    nativeOfJson (.obj (fields (.native binary sha256Hex args env))) =
      some (.native binary sha256Hex args env) := by
  have hkeys : ((fields (.native binary sha256Hex args env)).map Prod.fst).Nodup :=
    (by decide : ["binary", "sha256_hex", "args", "env"].Nodup)
  rw [nativeOfJson, record, required_text hkeys "binary" binary (by simp [fields, members]),
    defaulted_maybeText hkeys "sha256_hex" sha256Hex (by simp [fields, members]),
    defaulted_texts hkeys "args" args [] (by simp [fields, members]),
    defaulted_textMap hkeys "env" henv (by simp [fields, members])]
  rfl

private theorem qemuOfJson_fields (binary : String) (sha256Hex : Option String)
    (args : List String) {env : List (String × String)} (targetPlatform qemuBinary : Option String)
    (henv : IsMap env) :
    qemuOfJson (.obj (fields (.qemu binary sha256Hex args env targetPlatform qemuBinary))) =
      some (.qemu binary sha256Hex args env targetPlatform qemuBinary) := by
  have hkeys : ((fields (.qemu binary sha256Hex args env targetPlatform qemuBinary)).map
      Prod.fst).Nodup :=
    (by decide : ["binary", "sha256_hex", "args", "env", "target_platform", "qemu_binary"].Nodup)
  rw [qemuOfJson, record, required_text hkeys "binary" binary (by simp [fields, members]),
    defaulted_maybeText hkeys "sha256_hex" sha256Hex (by simp [fields, members]),
    defaulted_texts hkeys "args" args [] (by simp [fields, members]),
    defaulted_textMap hkeys "env" henv (by simp [fields, members]),
    defaulted_maybeText hkeys "target_platform" targetPlatform (by simp [fields, members]),
    defaulted_maybeText hkeys "qemu_binary" qemuBinary (by simp [fields, members])]
  rfl

/-- A runtime is read back. -/
theorem ofJson_toJson {runtime : JobRuntime} (h : runtime.Fits) :
    ofJson runtime.toJson = some runtime := by
  unfold ofJson
  rw [tagged_toJson]
  cases runtime with
  | wasm source sha256Hex memoryMb fuel epochMs mounts =>
    exact wasmOfJson_fields source sha256Hex mounts h.1 h.2.1 h.2.2
  | native binary sha256Hex args env => exact nativeOfJson_fields binary sha256Hex args h
  | qemu binary sha256Hex args env targetPlatform qemuBinary =>
    exact qemuOfJson_fields binary sha256Hex args targetPlatform qemuBinary h

end JobRuntime

/-- An artifact to keep is read back. -/
theorem ArtifactSpec.ofJson_toJson (artifact : ArtifactSpec) :
    ofJson artifact.toJson = some artifact := by
  have hkeys : (artifact.members.map Prod.fst).Nodup := (by decide : ["path", "name"].Nodup)
  rw [toJson, ofJson, record, required_text hkeys "path" artifact.path (by simp [members]),
    defaulted_maybeText hkeys "name" artifact.name (by simp [members])]
  rfl

/-- So is a file to stage. -/
theorem PreStageSpec.ofJson_toJson (item : PreStageSpec) : ofJson item.toJson = some item := by
  have hkeys : (item.members.map Prod.fst).Nodup := (by decide : ["source", "dest"].Nodup)
  rw [toJson, ofJson, record, required_text hkeys "source" item.source (by simp [members]),
    required_text hkeys "dest" item.dest (by simp [members])]
  rfl

/-- An execution block is read back if its timeout is a `u64`. -/
theorem JobExecution.ofJson_toJson {execution : JobExecution}
    (h : ∀ n ∈ execution.timeoutMinutes, n < 2 ^ 64) :
    ofJson execution.toJson = some execution := by
  have hkeys : (execution.members.map Prod.fst).Nodup :=
    (by decide : ["working_dir", "timeout_minutes", "artifacts", "pre_stage"].Nodup)
  rw [toJson, ofJson, record,
    defaulted_maybeText hkeys "working_dir" execution.workingDir (by simp [members]),
    defaulted_maybeNumber hkeys "timeout_minutes" h (by simp [members]),
    defaulted_maybeList hkeys "artifacts" ArtifactSpec.toJson execution.artifacts
      (fun _ _ artifact _ ↦ artifact.ofJson_toJson) (by simp [members]),
    defaulted_list hkeys "pre_stage" [] PreStageSpec.toJson execution.preStage
      (fun item _ ↦ item.ofJson_toJson) (by simp [members])]
  rfl

/-- A targeting block is read back. -/
theorem JobTargeting.ofJson_toJson (targeting : JobTargeting) :
    ofJson targeting.toJson = some targeting := by
  have hkeys : (targeting.members.map Prod.fst).Nodup :=
    (by decide : ["platform", "tags", "node_ids"].Nodup)
  rw [toJson, ofJson, record,
    defaulted_maybeText hkeys "platform" targeting.platform (by simp [members]),
    defaulted_texts hkeys "tags" targeting.tags [] (by simp [members]),
    defaulted_texts hkeys "node_ids" targeting.nodeIds [] (by simp [members])]
  rfl

/-- The numbers of a specification have the widths of their types. -/
structure JobSpec.Fits (spec : JobSpec) : Prop where
  runtime : spec.runtime.Fits
  timeoutMinutes : ∀ n ∈ spec.execution.timeoutMinutes, n < 2 ^ 64

/-- A specification is read back. -/
theorem JobSpec.ofJson_toJson {spec : JobSpec} (h : spec.Fits) :
    ofJson spec.toJson = some spec := by
  have hkeys : (spec.members.map Prod.fst).Nodup :=
    (by decide : ["name", "job_type", "schedule", "runtime", "execution", "targeting"].Nodup)
  have htype : defaulted JobType.ofJson .oneShot (.named spec.members) "job_type" =
      some spec.jobType := by
    have hmem : ("job_type", spec.jobType.toJson) ∈ spec.members := by simp [members]
    exact defaulted_member hkeys hmem spec.jobType.ofJson_toJson
  have hruntime : required JobRuntime.ofJson (.named spec.members) "runtime" =
      some spec.runtime := by
    have hmem : ("runtime", spec.runtime.toJson) ∈ spec.members := by simp [members]
    exact required_member hkeys hmem (JobRuntime.ofJson_toJson h.runtime)
  have hexecution : required JobExecution.ofJson (.named spec.members) "execution" =
      some spec.execution := by
    have hmem : ("execution", spec.execution.toJson) ∈ spec.members := by simp [members]
    exact required_member hkeys hmem (JobExecution.ofJson_toJson h.timeoutMinutes)
  have htargeting : defaulted (asOption JobTargeting.ofJson) none (.named spec.members)
      "targeting" = some spec.targeting := by
    have hmem : ("targeting", Json.nullable JobTargeting.toJson spec.targeting) ∈
        spec.members := by
      simp [members]
    exact defaulted_member hkeys hmem (asOption_nullable (by simp [JobTargeting.toJson])
      fun targeting _ ↦ targeting.ofJson_toJson)
  rw [toJson, ofJson, record, required_text hkeys "name" spec.name (by simp [members]), htype,
    defaulted_maybeText hkeys "schedule" spec.schedule (by simp [members]), hruntime, hexecution,
    htargeting]
  rfl

/-! ### Job records -/

/-- A status is read back. -/
theorem JobStatus.ofJson_toJson (status : JobStatus) : ofJson status.toJson = some status := by
  cases status <;> rfl

/-- A log entry is read back if its time is a `u64`. -/
theorem JobLogEntry.ofJson_toJson {entry : JobLogEntry} (h : entry.timestamp < 2 ^ 64) :
    ofJson entry.toJson = some entry := by
  have hkeys : (entry.members.map Prod.fst).Nodup :=
    (by decide : ["timestamp", "level", "message"].Nodup)
  rw [toJson, ofJson, record, required_number hkeys "timestamp" h (by simp [members]),
    required_text hkeys "level" entry.level (by simp [members]),
    required_text hkeys "message" entry.message (by simp [members])]
  rfl

/-- An artifact is read back if its size is a `u64`. -/
theorem JobArtifact.ofJson_toJson {artifact : JobArtifact}
    (h : ∀ n ∈ artifact.sizeBytes, n < 2 ^ 64) : ofJson artifact.toJson = some artifact := by
  have hkeys : (artifact.members.map Prod.fst).Nodup :=
    (by decide : ["name", "stored_path", "size_bytes", "sha256_hex"].Nodup)
  rw [toJson, ofJson, record, required_text hkeys "name" artifact.name (by simp [members]),
    required_text hkeys "stored_path" artifact.storedPath (by simp [members]),
    defaulted_maybeNumber hkeys "size_bytes" h (by simp [members]),
    defaulted_maybeText hkeys "sha256_hex" artifact.sha256Hex (by simp [members])]
  rfl

namespace JobInstance

/-- The numbers of a record have the widths of their types. -/
structure Fits (job : JobInstance) : Prop where
  spec : job.spec.Fits
  submittedAt : job.submittedAt < 2 ^ 64
  updatedAt : job.updatedAt < 2 ^ 64
  startedAt : ∀ n ∈ job.startedAt, n < 2 ^ 64
  completedAt : ∀ n ∈ job.completedAt, n < 2 ^ 64
  exitCode : ∀ code ∈ job.exitCode, -2 ^ 31 ≤ code ∧ code < 2 ^ 31
  logs : ∀ entry ∈ job.logs, entry.timestamp < 2 ^ 64
  lastScheduledAt : ∀ n ∈ job.lastScheduledAt, n < 2 ^ 64
  scheduleNextAt : ∀ n ∈ job.scheduleNextAt, n < 2 ^ 64
  artifacts : ∀ artifact ∈ job.artifacts, ∀ n ∈ artifact.sizeBytes, n < 2 ^ 64

/-- A record is read back. -/
theorem ofJson_toJson {job : JobInstance} (h : job.Fits) : ofJson job.toJson = some job := by
  have hkeys : (job.members.map Prod.fst).Nodup :=
    (by decide : ["id", "origin_node_id", "spec", "status", "submitted_at", "updated_at",
      "started_at", "completed_at", "exit_code", "error_message", "assigned_node", "logs",
      "last_scheduled_at", "schedule_next_at", "artifacts"].Nodup)
  have hspec : required JobSpec.ofJson (.named job.members) "spec" = some job.spec := by
    have hmem : ("spec", job.spec.toJson) ∈ job.members := by simp [members]
    exact required_member hkeys hmem (JobSpec.ofJson_toJson h.spec)
  have hstatus : required JobStatus.ofJson (.named job.members) "status" = some job.status := by
    have hmem : ("status", job.status.toJson) ∈ job.members := by simp [members]
    exact required_member hkeys hmem job.status.ofJson_toJson
  have hcode : optional (Json.asSigned 32) (.named job.members) "exit_code" =
      some job.exitCode := by
    have hmem : ("exit_code", Json.nullable Json.int job.exitCode) ∈ job.members := by
      simp [members]
    refine optional_member hkeys hmem (fun code ↦ ?_) fun code hin ↦ ?_
    · cases code <;> simp [Json.int]
    · exact Json.asSigned_int (h.exitCode code hin).1 (h.exitCode code hin).2
  rw [toJson, ofJson, record, required_text hkeys "id" job.id (by simp [members]),
    defaulted_text hkeys "origin_node_id" job.originNodeId "" (by simp [members]), hspec, hstatus,
    required_number hkeys "submitted_at" h.submittedAt (by simp [members]),
    defaulted_number hkeys "updated_at" 0 h.updatedAt (by simp [members]),
    optional_number hkeys "started_at" h.startedAt (by simp [members]),
    optional_number hkeys "completed_at" h.completedAt (by simp [members]), hcode,
    optional_text hkeys "error_message" job.errorMessage (by simp [members]),
    optional_text hkeys "assigned_node" job.assignedNode (by simp [members]),
    required_list hkeys "logs" JobLogEntry.toJson job.logs
      (fun entry hin ↦ JobLogEntry.ofJson_toJson (h.logs entry hin)) (by simp [members]),
    defaulted_maybeNumber hkeys "last_scheduled_at" h.lastScheduledAt (by simp [members]),
    defaulted_maybeNumber hkeys "schedule_next_at" h.scheduleNextAt (by simp [members]),
    defaulted_list hkeys "artifacts" [] JobArtifact.toJson job.artifacts
      (fun artifact hin ↦ JobArtifact.ofJson_toJson (h.artifacts artifact hin))
      (by simp [members])]
  rfl

end JobInstance

/-! ### The status of a node -/

namespace Status

/-- The numbers of a status have the widths of their types. -/
structure Fits (status : Status) : Prop where
  agentVersion : status.agentVersion < 2 ^ 64
  componentsDesired : status.componentsDesired < 2 ^ 64
  componentsRunning : status.componentsRunning < 2 ^ 64
  cpuPercent : status.cpuPercent < 2 ^ 64
  memPercent : status.memPercent < 2 ^ 64
  drift : -2 ^ 63 ≤ status.drift ∧ status.drift < 2 ^ 63
  links : status.links < 2 ^ 64

/-- A status is read back. -/
theorem ofJson_toJson {status : Status} (h : status.Fits) :
    ofJson status.toJson = some status := by
  have hkeys : (status.members.map Prod.fst).Nodup :=
    (by decide : ["node_id", "msg", "agent_version", "components_desired", "components_running",
      "cpu_percent", "mem_percent", "tags", "drift", "trusted_owner_pub_bs58", "links"].Nodup)
  have hdrift : required (Json.asSigned 64) (.named status.members) "drift" =
      some status.drift := by
    have hmem : ("drift", Json.int status.drift) ∈ status.members := by simp [members]
    exact required_member hkeys hmem (Json.asSigned_int h.drift.1 h.drift.2)
  rw [toJson, ofJson, record, required_text hkeys "node_id" status.nodeId (by simp [members]),
    required_text hkeys "msg" status.msg (by simp [members]),
    required_number hkeys "agent_version" h.agentVersion (by simp [members]),
    required_number hkeys "components_desired" h.componentsDesired (by simp [members]),
    required_number hkeys "components_running" h.componentsRunning (by simp [members]),
    required_number hkeys "cpu_percent" h.cpuPercent (by simp [members]),
    required_number hkeys "mem_percent" h.memPercent (by simp [members]),
    required_texts hkeys "tags" status.tags (by simp [members]), hdrift,
    defaulted_maybeText hkeys "trusted_owner_pub_bs58" status.trustedOwnerPubBs58
      (by simp [members]),
    defaulted_number hkeys "links" 0 h.links (by simp [members])]
  rfl

end Status

/-! ### Commands -/

namespace Command

/-- The reader of each variant; `crates/common/src/lib.rs:8–126`. -/
def readers : List (String × (Json → Option Command)) :=
  [("Hello", record ["from"] fun fields ↦ do
      return .hello (← required Json.asText fields "from")),
    ("Run", record ["wasm_path", "memory_max_mb", "fuel", "epoch_ms"] fun fields ↦ do
      let wasmPath ← required Json.asText fields "wasm_path"
      let memoryMaxMb ← required (Json.asUnsigned 64) fields "memory_max_mb"
      let fuel ← required (Json.asUnsigned 64) fields "fuel"
      let epochMs ← required (Json.asUnsigned 64) fields "epoch_ms"
      return .run wasmPath memoryMaxMb fuel epochMs),
    ("StatusQuery", unit .statusQuery),
    ("MetricsQuery", unit .metricsQuery),
    ("LogsQuery", record ["component", "tail"] fun fields ↦ do
      let component ← optional Json.asText fields "component"
      let tail ← required (Json.asUnsigned 64) fields "tail"
      return .logsQuery component tail),
    ("ApplyManifest", fun payload ↦ (SignedManifest.ofJson payload).map .applyManifest),
    ("UpgradeAgent", fun payload ↦ (AgentUpgrade.ofJson payload).map .upgradeAgent),
    ("PushComponent", fun payload ↦ (PushPackage.ofJson payload).map .pushComponent),
    ("SubmitJob", record ["origin_node_id", "job_id", "spec"] fun fields ↦ do
      let originNodeId ← required Json.asText fields "origin_node_id"
      let jobId ← required Json.asText fields "job_id"
      let spec ← required JobSpec.ofJson fields "spec"
      return .submitJob originNodeId jobId spec),
    ("QueryJobs", record ["status_filter", "limit"] fun fields ↦ do
      let statusFilter ← optional Json.asText fields "status_filter"
      let limit ← required (Json.asUnsigned 64) fields "limit"
      return .queryJobs statusFilter limit),
    ("QueryJobStatus", record ["job_id"] fun fields ↦ do
      return .queryJobStatus (← required Json.asText fields "job_id")),
    ("CancelJob", record ["job_id"] fun fields ↦ do
      return .cancelJob (← required Json.asText fields "job_id")),
    ("QueryJobLogs", record ["job_id", "tail"] fun fields ↦ do
      let jobId ← required Json.asText fields "job_id"
      let tail ← required (Json.asUnsigned 64) fields "tail"
      return .queryJobLogs jobId tail),
    ("AnnouncePeers", record ["peers"] fun fields ↦ do
      return .announcePeers (← required (Json.asList Json.asText) fields "peers")),
    ("StoragePut", record ["digest", "bytes_b64"] fun fields ↦ do
      let digest ← required Json.asText fields "digest"
      let bytesB64 ← required Json.asText fields "bytes_b64"
      return .storagePut digest bytesB64),
    ("StoragePutChunk", record ["digest", "chunk_index", "total_chunks", "bytes_b64"]
      fun fields ↦ do
        let digest ← required Json.asText fields "digest"
        let chunkIndex ← required (Json.asUnsigned 32) fields "chunk_index"
        let totalChunks ← required (Json.asUnsigned 32) fields "total_chunks"
        let bytesB64 ← required Json.asText fields "bytes_b64"
        return .storagePutChunk digest chunkIndex totalChunks bytesB64),
    ("StorageHave", record ["digest", "size"] fun fields ↦ do
      let digest ← required Json.asText fields "digest"
      let size ← required (Json.asUnsigned 64) fields "size"
      return .storageHave digest size),
    ("StorageGet", record ["digest"] fun fields ↦ do
      return .storageGet (← required Json.asText fields "digest")),
    ("StorageData", record ["digest", "bytes_b64"] fun fields ↦ do
      let digest ← required Json.asText fields "digest"
      let bytesB64 ← required Json.asText fields "bytes_b64"
      return .storageData digest bytesB64),
    ("JobAccepted", record ["job_id", "assigned_node", "message_id"] fun fields ↦ do
      let jobId ← required Json.asText fields "job_id"
      let assignedNode ← required Json.asText fields "assigned_node"
      let messageId ← required Json.asText fields "message_id"
      return .jobAccepted jobId assignedNode messageId),
    ("JobStarted", record ["job_id", "assigned_node", "message_id"] fun fields ↦ do
      let jobId ← required Json.asText fields "job_id"
      let assignedNode ← required Json.asText fields "assigned_node"
      let messageId ← required Json.asText fields "message_id"
      return .jobStarted jobId assignedNode messageId),
    ("JobCompleted", record ["job_id", "assigned_node", "exit_code", "message_id"] fun fields ↦ do
      let jobId ← required Json.asText fields "job_id"
      let assignedNode ← required Json.asText fields "assigned_node"
      let exitCode ← required (Json.asSigned 32) fields "exit_code"
      let messageId ← required Json.asText fields "message_id"
      return .jobCompleted jobId assignedNode exitCode messageId),
    ("JobFailed", record ["job_id", "assigned_node", "error", "message_id"] fun fields ↦ do
      let jobId ← required Json.asText fields "job_id"
      let assignedNode ← required Json.asText fields "assigned_node"
      let error ← required Json.asText fields "error"
      let messageId ← required Json.asText fields "message_id"
      return .jobFailed jobId assignedNode error messageId),
    ("JobStatusAck", record ["job_id", "status", "from", "message_id"] fun fields ↦ do
      let jobId ← required Json.asText fields "job_id"
      let status ← required Json.asText fields "status"
      let sender ← required Json.asText fields "from"
      let messageId ← required Json.asText fields "message_id"
      return .jobStatusAck jobId status sender messageId),
    ("JobSyncRequest", record ["node_id"] fun fields ↦ do
      return .jobSyncRequest (← required Json.asText fields "node_id")),
    ("SyncJobs", record ["node_id", "jobs"] fun fields ↦ do
      let nodeId ← required Json.asText fields "node_id"
      let jobs ← required (Json.asList JobInstance.ofJson) fields "jobs"
      return .syncJobs nodeId jobs),
    ("UpdateRoles", record ["target_peer_ids", "roles"] fun fields ↦ do
      let targetPeerIds ← required (Json.asList Json.asText) fields "target_peer_ids"
      let roles ← required (Json.asList Json.asText) fields "roles"
      return .updateRoles targetPeerIds roles)]
where
  /-- A variant without data. -/
  unit (command : Command) : Json → Option Command
    | .null => some command
    | _ => none

/-- `crates/common/src/lib.rs:8–126`. -/
def ofJson (value : Json) : Option Command := do
  let (name, payload) ← variant value
  let read ← readers.lookup name
  read payload

/-- The numbers of a command, and of what it carries, have the widths of their types. -/
def Fits : Command → Prop
  | .run _ memoryMaxMb fuel epochMs => memoryMaxMb < 2 ^ 64 ∧ fuel < 2 ^ 64 ∧ epochMs < 2 ^ 64
  | .logsQuery _ n | .queryJobs _ n | .queryJobLogs _ n | .storageHave _ n => n < 2 ^ 64
  | .applyManifest signed => signed.version < 2 ^ 64
  | .upgradeAgent pkg => pkg.version < 2 ^ 64
  | .pushComponent pkg => pkg.unsigned.Fits
  | .submitJob _ _ spec => spec.Fits
  | .storagePutChunk _ chunkIndex totalChunks _ => chunkIndex < 2 ^ 32 ∧ totalChunks < 2 ^ 32
  | .jobCompleted _ _ exitCode _ => -2 ^ 31 ≤ exitCode ∧ exitCode < 2 ^ 31
  | .syncJobs _ jobs => ∀ job ∈ jobs, job.Fits
  | _ => True

private theorem variant_toJson (command : Command) :
    variant command.toJson = some command.payload := by
  cases command <;> rfl

private theorem ofJson_eq (command : Command) :
    ofJson command.toJson =
      (readers.lookup command.payload.1).bind fun read ↦ read command.payload.2 := by
  rw [ofJson, variant_toJson]
  rfl

/-- A command is read back. -/
theorem ofJson_toJson {command : Command} (h : command.Fits) :
    ofJson command.toJson = some command := by
  rw [ofJson_eq]
  cases command <;>
    simp only [payload, readers, List.lookup_cons, String.reduceBEq, Option.bind_some]
  case statusQuery | metricsQuery => rfl
  case hello | queryJobStatus | cancelJob | storagePut | storageGet | storageData | jobAccepted |
      jobStarted | jobFailed | jobStatusAck | jobSyncRequest =>
    simp [record, required, Source.find, Json.member, Json.asText]
  case announcePeers | updateRoles =>
    simp [record, required, Source.find, Json.member, Json.asList_texts]
  case run =>
    simp [record, required, Source.find, Json.member, Json.asText, Json.asUnsigned_num h.1,
      Json.asUnsigned_num h.2.1, Json.asUnsigned_num h.2.2]
  case storagePutChunk =>
    simp [record, required, Source.find, Json.member, Json.asText, Json.asUnsigned_num h.1,
      Json.asUnsigned_num h.2]
  case queryJobLogs | storageHave =>
    simp [record, required, Source.find, Json.member, Json.asText, Json.asUnsigned_num h]
  case logsQuery o n | queryJobs o n =>
    have ho : asOption Json.asText (Json.nullable .str o) = some o :=
      asOption_nullable (by simp) fun _ _ ↦ rfl
    simp [record, required, Serde.optional, Source.find, Json.member, ho, Json.asUnsigned_num h]
  case jobCompleted jobId assignedNode exitCode messageId =>
    have hcode : Json.asSigned 32 (Json.int exitCode) = some exitCode :=
      Json.asSigned_int h.1 h.2
    simp [record, required, Source.find, Json.member, Json.asText, hcode]
  case applyManifest => rw [SignedManifest.ofJson_toJson h, Option.map_some]
  case upgradeAgent => rw [AgentUpgrade.ofJson_toJson h, Option.map_some]
  case pushComponent => rw [PushPackage.ofJson_toJson h, Option.map_some]
  case submitJob =>
    simp [record, required, Source.find, Json.member, Json.asText, JobSpec.ofJson_toJson h]
  case syncJobs nodeId jobs =>
    have hjobs : Json.asList JobInstance.ofJson (Json.list JobInstance.toJson jobs) = some jobs :=
      Json.asList_list fun job hin ↦ JobInstance.ofJson_toJson (h job hin)
    simp [record, required, Source.find, Json.member, Json.asText, hjobs]

end Command

/-! ### Telling the messages apart -/

/-- What is published on the topics of a realm. -/
inductive Message where
  | status (status : Status)
  | command (command : Command)
  /-- The reply to a query for one job; `crates/agent/src/p2p/mod.rs:1308–1311,1317–1320`. -/
  | job (job : JobInstance)
  /-- The reply to a query for jobs; `crates/agent/src/p2p/mod.rs:1301–1306`. -/
  | jobs (jobs : List JobInstance)
  deriving DecidableEq

namespace Message

/-- The value that is serialised. -/
def toJson : Message → Json
  | .status st => st.toJson
  | .command cmd => cmd.toJson
  | .job record => record.toJson
  | .jobs list => Json.list JobInstance.toJson list

/-- The numbers have the widths of their types. -/
def Fits : Message → Prop
  | .status st => st.Fits
  | .command cmd => cmd.Fits
  | .job record => record.Fits
  | .jobs list => ∀ record ∈ list, record.Fits

end Message

/-- What the event loop makes of a message; `crates/agent/src/p2p/mod.rs:854–859`. -/
inductive Received where
  | status (status : Status)
  | command (command : Command)
  | ignored
  deriving DecidableEq

/-- `crates/agent/src/p2p/mod.rs:854–859`. -/
def receive (data : Bytes) : Received :=
  match (deserializeMessage data).bind Status.ofJson with
  | some st => .status st
  | none =>
    match (deserializeMessage data).bind Command.ofJson with
    | some cmd => .command cmd
    | none => .ignored

/-- The list of jobs that the command line takes; `crates/agent/src/cmd/job.rs:538–545`. -/
def receiveJobs (data : Bytes) : Option (List JobInstance) :=
  (deserializeMessage data).bind (Json.asList JobInstance.ofJson)

/-- What a sender means to say to the event loop. -/
def Message.received : Message → Received
  | .status st => .status st
  | .command cmd => .command cmd
  | .job _ | .jobs _ => .ignored

private theorem command_toJson (command : Command) :
    command.toJson = .str command.payload.1 ∨ command.toJson = .obj [command.payload] := by
  cases command <;> simp [Command.toJson]

private theorem payload_name (command : Command) : "node_id" ≠ command.payload.1 := by
  cases command <;> simp [Command.payload]

private theorem required_jobs (keys : List String) (key : String) (jobs : List JobInstance) :
    required Json.asText (.positional keys (jobs.map JobInstance.toJson)) key = none := by
  rw [required, Source.find, List.getElem?_map]
  cases jobs[keys.idxOf key]? with
  | none => rfl
  | some job => rfl

private theorem status_ofJson_obj {members : List (String × Json)}
    (h : "node_id" ∉ members.map Prod.fst) : Status.ofJson (.obj members) = none := by
  rw [Status.ofJson, record, required_missing h]
  rfl

private theorem status_ofJson_toJson {m : Message} (h : ∀ st, m ≠ .status st) :
    Status.ofJson m.toJson = none := by
  cases m with
  | status st => exact absurd rfl (h st)
  | command cmd =>
    rw [Message.toJson]
    rcases command_toJson cmd with hjson | hjson
    · rw [hjson]
      rfl
    · rw [hjson]
      exact status_ofJson_obj (by simpa using payload_name cmd)
  | job job =>
    have hmissing : "node_id" ∉ job.members.map Prod.fst := by simp [JobInstance.members]
    exact status_ofJson_obj hmissing
  | jobs jobs =>
    unfold Message.toJson Json.list Status.ofJson record
    simp only [required_jobs]
    exact ite_self none

private theorem command_ofJson_toJson {m : Message} (h : ∀ cmd, m ≠ .command cmd) :
    Command.ofJson m.toJson = none := by
  cases m with
  | status st => rfl
  | command cmd => exact absurd rfl (h cmd)
  | job job => rfl
  | jobs jobs => rfl

private theorem asList_toJson {m : Message} (h : ∀ jobs, m ≠ .jobs jobs) :
    Json.asList JobInstance.ofJson m.toJson = none := by
  cases m with
  | status st => rfl
  | command cmd =>
    rw [Message.toJson]
    rcases command_toJson cmd with hjson | hjson
    · rw [hjson]
      rfl
    · rw [hjson]
      rfl
  | job job => rfl
  | jobs jobs => exact absurd rfl (h jobs)

/-- What the event loop makes of the bytes of a message. -/
theorem receive_serializeMessage {m : Message} (h : m.Fits) :
    receive (serializeMessage m.toJson) = m.received := by
  rw [receive, deserializeMessage_serializeMessage, Option.bind_some, Option.bind_some]
  cases m with
  | status st => rw [Message.toJson, Status.ofJson_toJson h, Message.received]
  | command cmd =>
    rw [status_ofJson_toJson (by simp), Message.toJson, Command.ofJson_toJson h, Message.received]
  | job job =>
    rw [status_ofJson_toJson (by simp), command_ofJson_toJson (by simp), Message.received]
  | jobs jobs =>
    rw [status_ofJson_toJson (by simp), command_ofJson_toJson (by simp), Message.received]

private theorem receiveJobs_serializeMessage {m : Message} (h : m.Fits) (jobs : List JobInstance) :
    receiveJobs (serializeMessage m.toJson) = some jobs ↔ m = .jobs jobs := by
  rw [receiveJobs, deserializeMessage_serializeMessage, Option.bind_some]
  by_cases hjobs : ∃ sent, m = .jobs sent
  · obtain ⟨sent, rfl⟩ := hjobs
    rw [Message.toJson, Json.asList_list fun job hin ↦ JobInstance.ofJson_toJson (h job hin)]
    simp
  · rw [asList_toJson fun sent hm ↦ hjobs ⟨sent, hm⟩]
    constructor
    · intro hnone
      cases hnone
    · intro hm
      exact absurd ⟨jobs, hm⟩ hjobs

private theorem eq_of_serializeMessage_eq {a b : Message} (ha : a.Fits) (hb : b.Fits)
    (h : serializeMessage a.toJson = serializeMessage b.toJson) : a = b := by
  have hreceived : a.received = b.received := by
    rw [← receive_serializeMessage ha, h, receive_serializeMessage hb]
  have hjobs (jobs : List JobInstance) : a = .jobs jobs ↔ b = .jobs jobs := by
    rw [← receiveJobs_serializeMessage ha, h, receiveJobs_serializeMessage hb]
  cases a with
  | status st => cases b <;> simp_all [Message.received]
  | command cmd => cases b <;> simp_all [Message.received]
  | jobs jobs => exact ((hjobs jobs).mp rfl).symm
  | job job =>
    cases b with
    | status st => cases hreceived
    | command cmd => cases hreceived
    | jobs jobs => exact (hjobs jobs).mpr rfl
    | job other =>
      have hjson := congrArg deserializeMessage h
      rw [deserializeMessage_serializeMessage, deserializeMessage_serializeMessage,
        Option.some_inj] at hjson
      have hread := @JobInstance.ofJson_toJson job ha
      rw [show job.toJson = other.toJson from hjson, JobInstance.ofJson_toJson hb] at hread
      rw [Option.some.inj hread]

/-- A message is taken for what was sent, by the one reader that is meant for it, and no two
messages have the same bytes. -/
theorem messages_read_as_sent {m : Message} (h : m.Fits) :
    receive (serializeMessage m.toJson) = m.received ∧
    (∀ jobs, receiveJobs (serializeMessage m.toJson) = some jobs ↔ m = .jobs jobs) ∧
      ∀ other : Message, other.Fits → serializeMessage other.toJson = serializeMessage m.toJson →
        other = m :=
  ⟨receive_serializeMessage h, receiveJobs_serializeMessage h,
    fun _ hother hbytes ↦ eq_of_serializeMessage_eq hother h hbytes⟩

-- A job for an emulator.
private def armJob : JobSpec where
  name := "render"
  runtime := .qemu "cas:0a" none ["--fast"] [("LANG", "C"), ("TZ", "UTC")] (some "linux/arm") none
  execution := { timeoutMinutes := some 5, preStage := [⟨"cas:0b", "/work/in"⟩] }
  targeting := some { tags := ["arm"] }

/-- It is submitted as it was written. -/
theorem messages_read_as_sent_armJob :
    receive (serializeMessage (Command.submitJob "n" "n-1" armJob).toJson) =
        .command (.submitJob "n" "n-1" armJob) ∧
      ∀ jobs, receiveJobs (serializeMessage (Command.submitJob "n" "n-1" armJob).toJson) ≠
        some jobs := by
  have henv : IsMap [("LANG", "C"), ("TZ", "UTC")] :=
    ⟨((∅ : Std.ExtTreeMap String String).insert "LANG" "C").insert "TZ" "UTC", by decide⟩
  have hfits : (Message.command (.submitJob "n" "n-1" armJob)).Fits :=
    { runtime := henv
      timeoutMinutes := by
        intro n hn
        cases hn
        decide }
  obtain ⟨hread, hjobs, -⟩ := messages_read_as_sent hfits
  exact ⟨hread, fun jobs h ↦ nomatch (hjobs jobs).mp h⟩

end PeerDeploy.Common
