import PeerDeploy.Common.Job
import Std.Data.ExtTreeMap

/-!
# Deployment payloads and the gossip command

Data model of `crates/common/src/lib.rs:8–142,192–377`: manifests, upgrade and push
packages, and the commands that agents exchange. Bytes are lists of octets; machine
integers that the agents only compare are natural numbers.
-/

namespace PeerDeploy.Common

/-- An octet string. -/
abbrev Bytes := List UInt8

/-- `str::as_bytes`: the UTF-8 encoding of a text. -/
def asBytes (text : String) : Bytes := text.toUTF8.data.toList

/-- The encoding of a text is read back. -/
theorem fromUTF8_asBytes (text : String) :
    String.fromUTF8? ⟨(asBytes text).toArray⟩ = some text := by
  have hbytes : (⟨(asBytes text).toArray⟩ : ByteArray) = text.toUTF8 := by simp [asBytes]
  have hvalid : text.toUTF8.IsValidUTF8 := text.isValidUTF8
  rw [hbytes, String.fromUTF8?, dif_pos hvalid]
  rfl

/-- `crates/common/src/lib.rs:357–361`. -/
inductive Protocol where
  | tcp
  | udp
  deriving DecidableEq, Repr

/-- `crates/common/src/lib.rs:349–355`. -/
structure ServicePort where
  name : Option String
  port : Nat
  protocol : Protocol
  deriving DecidableEq, Repr

/-- The gateway binding policy of a component; `crates/common/src/lib.rs:373–377`. -/
inductive Visibility where
  | localBind
  | publicBind
  deriving DecidableEq, Repr

/-- `crates/common/src/lib.rs:245–262`. -/
structure ComponentSpec where
  source : String
  sha256Hex : String
  memoryMaxMb : Option Nat := none
  fuel : Option Nat := none
  epochMs : Option Nat := none
  replicas : Option Nat := none
  mounts : Option (List MountSpec) := none
  ports : Option (List ServicePort) := none
  visibility : Option Visibility := none
  targetPeerIds : List String := []
  targetTags : List String := []
  start : Bool := true
  deriving DecidableEq, Repr

/-- `crates/common/src/lib.rs:240–243`. -/
structure Manifest where
  components : Std.ExtTreeMap String ComponentSpec

/-- Does a component apply to a node? A missing peer id or role list rejects nothing;
`crates/common/src/lib.rs:264–286`. -/
def ComponentSpec.matchesTarget (spec : ComponentSpec) (peerId : Option String)
    (roles : Option (List String)) : Bool :=
  (spec.targetPeerIds.isEmpty || (peerId.all fun id ↦ spec.targetPeerIds.contains id)) &&
    (spec.targetTags.isEmpty ||
      (roles.all fun list ↦ spec.targetTags.any fun tag ↦ list.contains tag))

/-- `crates/common/src/lib.rs:192–199`. The signature covers `manifestToml` only. -/
structure SignedManifest where
  alg : String
  ownerPubBs58 : String
  version : Nat
  manifestToml : String
  signatureB64 : String
  deriving DecidableEq, Repr

/-- `crates/common/src/lib.rs:201–213`. The signature covers the binary bytes only. -/
structure AgentUpgrade where
  alg : String
  ownerPubBs58 : String
  version : Nat
  targetPlatform : Option String := none
  targetPeerIds : List String := []
  targetTags : List String := []
  binarySha256Hex : String
  binaryB64 : String
  signatureB64 : String
  deriving DecidableEq, Repr

/-- `crates/common/src/lib.rs:215–231`. -/
structure PushUnsigned where
  alg : String
  ownerPubBs58 : String
  componentName : String
  targetPeerIds : List String := []
  targetTags : List String := []
  memoryMaxMb : Option Nat := none
  fuel : Option Nat := none
  epochMs : Option Nat := none
  replicas : Nat := 1
  start : Bool := true
  binarySha256Hex : String
  mounts : Option (List MountSpec) := none
  ports : Option (List ServicePort) := none
  visibility : Option Visibility := none
  deriving DecidableEq, Repr

/-- `crates/common/src/lib.rs:233–238`. The signature covers the JSON of `unsigned`. -/
structure PushPackage where
  unsigned : PushUnsigned
  binaryB64 : String
  signatureB64 : String
  deriving DecidableEq, Repr

/-- The commands gossiped between agents; `crates/common/src/lib.rs:8–126`. -/
inductive Command where
  | hello (sender : String)
  | run (wasmPath : String) (memoryMaxMb fuel epochMs : Nat)
  | statusQuery
  | metricsQuery
  | logsQuery (component : Option String) (tail : Nat)
  | applyManifest (signed : SignedManifest)
  | upgradeAgent (pkg : AgentUpgrade)
  | pushComponent (pkg : PushPackage)
  | submitJob (originNodeId jobId : String) (spec : JobSpec)
  | queryJobs (statusFilter : Option String) (limit : Nat)
  | queryJobStatus (jobId : String)
  | cancelJob (jobId : String)
  | queryJobLogs (jobId : String) (tail : Nat)
  | announcePeers (peers : List String)
  | storagePut (digest bytesB64 : String)
  | storagePutChunk (digest : String) (chunkIndex totalChunks : Nat) (bytesB64 : String)
  | storageHave (digest : String) (size : Nat)
  | storageGet (digest : String)
  | storageData (digest bytesB64 : String)
  | jobAccepted (jobId assignedNode messageId : String)
  | jobStarted (jobId assignedNode messageId : String)
  | jobCompleted (jobId assignedNode : String) (exitCode : Int) (messageId : String)
  | jobFailed (jobId assignedNode error messageId : String)
  | jobStatusAck (jobId status sender messageId : String)
  | jobSyncRequest (nodeId : String)
  | syncJobs (nodeId : String) (jobs : List JobInstance)
  | updateRoles (targetPeerIds roles : List String)
  deriving DecidableEq, Repr

/-- What a node says of itself at every heartbeat; `crates/common/src/lib.rs:128–142`. -/
structure Status where
  nodeId : String
  msg : String
  agentVersion : Nat
  componentsDesired : Nat
  componentsRunning : Nat
  cpuPercent : Nat
  memPercent : Nat
  tags : List String
  drift : Int
  trustedOwnerPubBs58 : Option String := none
  links : Nat := 0
  deriving DecidableEq, Repr

end PeerDeploy.Common
