import PeerDeploy.Base.Path
import PeerDeploy.Base.Text
import PeerDeploy.Deploy.BinaryTarget

/-!
# What an agent keeps about its deployment

The files below the data directory that `crates/agent/src/p2p/state.rs` reads and writes,
the supervisor's desired map, and the libraries that the deployment handlers call. A file
write is one step that succeeds or fails as a whole; the small files whose write errors the
source ignores are taken to be written.
-/

namespace PeerDeploy.Deploy

open PeerDeploy.Common PeerDeploy.Base

/-- The libraries that the handlers call. -/
structure Externals where
  base64Decode : String → Except String Bytes
  bs58Decode : String → Except String Bytes
  /-- The error of `VerifyingKey::from_bytes`, if the 32 bytes are no key. -/
  keyError : Bytes → Option String
  /-- `VerifyingKey::verify`: key, data, signature. -/
  ed25519Verify : Bytes → Bytes → Bytes → Bool
  sha256Hex : Bytes → String
  tomlParse : String → Except String Manifest
  tomlWrite : Manifest → Option String
  /-- `serde_json::to_vec` of the unsigned part of a push package. -/
  pushJson : PushUnsigned → Bytes

/-- What stays the same while an agent runs. -/
structure Env extends Externals where
  dataDir : String
  host : HostPlatform
  localPeerId : String
  ephemeral : Bool := false

/-- `crates/agent/src/p2p/state.rs:96–102`. -/
structure NodeAnnotation where
  nodeAlias : Option String := none
  notes : Option String := none
  deriving DecidableEq, Repr

/-- `crates/agent/src/p2p/state.rs:81–94`. -/
structure AgentState where
  manifestVersion : Nat := 0
  agentVersion : Nat := 0
  previousAgentVersion : Nat := 0
  roles : List String := []
  nodeAnnotations : Std.ExtTreeMap String NodeAnnotation := ∅

/-- An entry of the desired map; `crates/agent/src/supervisor.rs:17–21`. -/
structure DesiredComponent where
  name : String
  path : String
  spec : ComponentSpec
  deriving DecidableEq, Repr

/-- Files, desired map, metric and result channel: what the handlers share. -/
structure Site where
  /-- Text of `owner.pub`. -/
  ownerPub : Option String := none
  /-- Content of `state.json`. -/
  stateJson : Option AgentState := none
  /-- Text of `desired_manifest.toml`. -/
  desiredManifest : Option String := none
  /-- Files below `artifacts`, by canonical path. -/
  artifacts : Std.ExtTreeMap String Bytes := ∅
  /-- Versioned agent binaries, by path. -/
  binaries : Std.ExtTreeMap String Bytes := ∅
  /-- Target of the `current` link. -/
  current : Option String := none
  /-- The supervisor's desired map. -/
  desired : Std.ExtTreeMap String DesiredComponent := ∅
  /-- The `components_desired` metric. -/
  componentsDesired : Nat := 0
  /-- What the handlers have sent to the event loop. -/
  reports : List (Except String String) := []

/-- `crates/common/src/lib.rs:400–420`. -/
def verifyBytesEd25519 (x : Externals) (publicBs58 : String) (data signature : Bytes) :
    Except String Bool := do
  let withoutPrefix := (Text.stripPrefix "ed25519:" publicBs58).getD publicBs58
  let pkBytes ← x.bs58Decode withoutPrefix
  if pkBytes.length ≠ 32 then throw "bad pub len"
  if let some e := x.keyError pkBytes then throw e
  if signature.length ≠ 64 then throw "bad sig len"
  return x.ed25519Verify pkBytes data signature

/-- `verify_bytes_ed25519(..).unwrap_or(false)`. -/
def verifies (x : Externals) (publicBs58 : String) (data signature : Bytes) : Bool :=
  match verifyBytesEd25519 x publicBs58 data signature with
  | .ok valid => valid
  | .error _ => false

namespace Site

/-- `crates/agent/src/p2p/state.rs:37–42`. -/
def loadTrustedOwner (s : Site) : Option String :=
  (s.ownerPub.map Text.trim).filter (· ≠ "")

/-- `crates/agent/src/p2p/state.rs:44–47`. -/
def saveTrustedOwner (s : Site) (pubBs58 : String) : Site := { s with ownerPub := some pubBs58 }

/-- `crates/agent/src/p2p/state.rs:104–111`. -/
def loadState (s : Site) : AgentState := s.stateJson.getD {}

/-- `crates/agent/src/p2p/state.rs:113–118`. -/
def saveState (s : Site) (state : AgentState) : Site := { s with stateJson := some state }

/-- `crates/agent/src/p2p/state.rs:126–130`. -/
def saveRoles (s : Site) (roles : List String) : Site := s.saveState { s.loadState with roles }

/-- `crates/agent/src/p2p/state.rs:138–141`. -/
def saveDesiredManifest (s : Site) (toml : String) : Site :=
  { s with desiredManifest := some toml }

/-- `crates/agent/src/p2p/state.rs:145–176`. -/
def updatePersistentManifestWithComponent (x : Externals) (s : Site) (componentName : String)
    (spec : ComponentSpec) : Site :=
  let manifest : Manifest := match s.desiredManifest.map x.tomlParse with
    | some (.ok manifest) => manifest
    | _ => ⟨∅⟩
  match x.tomlWrite ⟨manifest.components.insert componentName spec⟩ with
  | some toml => s.saveDesiredManifest toml
  | none => s

/-- `crates/agent/src/supervisor.rs:121–132`. -/
def setDesired (s : Site) (desired : Std.ExtTreeMap String DesiredComponent) : Site :=
  { s with desired, componentsDesired := desired.size }

/-- `crates/agent/src/supervisor.rs:135–145`. -/
def upsertComponent (s : Site) (component : DesiredComponent) : Site :=
  s.setDesired (s.desired.insert component.name component)

/-- Send a result to the event loop. -/
def report (s : Site) (result : Except String String) : Site :=
  { s with reports := s.reports ++ [result] }

end Site

/-! ### Loading what was saved -/

/-- Persisting a component leaves the desired map and the artifacts alone. -/
theorem updatePersistent_keeps (x : Externals) (s : Site) (name : String) (spec : ComponentSpec) :
    (s.updatePersistentManifestWithComponent x name spec).desired = s.desired ∧
      (s.updatePersistentManifestWithComponent x name spec).artifacts = s.artifacts := by
  unfold Site.updatePersistentManifestWithComponent
  simp only
  split
  · exact ⟨rfl, rfl⟩
  · exact ⟨rfl, rfl⟩

/-- Saving a trusted owner again under its loaded text changes nothing about who is trusted. -/
theorem loadTrustedOwner_saveTrustedOwner {s : Site} {owner : String}
    (h : s.loadTrustedOwner = some owner) :
    (s.saveTrustedOwner owner).loadTrustedOwner = some owner := by
  obtain ⟨htrim, hne⟩ := Option.filter_eq_some_iff.mp h
  obtain ⟨text, -, rfl⟩ := Option.map_eq_some_iff.mp htrim
  simp only [Site.saveTrustedOwner, Site.loadTrustedOwner, Option.map_some, Text.trim_trim]
  exact Option.filter_eq_some_iff.mpr ⟨rfl, hne⟩

end PeerDeploy.Deploy
