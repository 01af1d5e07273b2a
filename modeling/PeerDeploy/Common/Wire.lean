import PeerDeploy.Base.Json
import PeerDeploy.Common.Command

/-!
# Push packages on the wire

`serialize_message` and `deserialize_message` (`crates/common/src/lib.rs:430–436`) and what
the derived `Serialize` and `Deserialize` do with a push package
(`crates/common/src/lib.rs:215–238,288–294,349–377`). The positional form of a struct, which
no agent sends, is not read.
-/

namespace PeerDeploy.Common

open PeerDeploy.Base

/-- `crates/common/src/lib.rs:430–432`, for a value given by its JSON. -/
def serializeMessage (value : Json) : Bytes := asBytes (String.ofList value.print)

/-- `crates/common/src/lib.rs:434–436`, up to the JSON of the value. Bytes that are no UTF-8 are
refused also in a member that no type takes. -/
def deserializeMessage (bytes : Bytes) : Option Json :=
  (String.fromUTF8? ⟨bytes.toArray⟩).bind fun text ↦ Json.parse text.toList

/-- What was serialised is read back. -/
theorem deserializeMessage_serializeMessage (value : Json) :
    deserializeMessage (serializeMessage value) = some value := by
  rw [deserializeMessage, serializeMessage, fromUTF8_asBytes, Option.bind_some,
    String.toList_ofList, Json.parse_print]

/-- The name of a variant without data. -/
def variantName : Json → Option String
  | .str name => some name
  | .obj [(name, .null)] => some name
  | _ => none

namespace MountSpec

/-- The fields in the order of their declaration. -/
def members (mount : MountSpec) : List (String × Json) :=
  [("host", .str mount.host), ("guest", .str mount.guest), ("ro", .bool mount.ro)]

/-- `crates/common/src/lib.rs:288–294`. -/
def toJson (mount : MountSpec) : Json := .obj mount.members

/-- `crates/common/src/lib.rs:288–294`. -/
def ofJson : Json → Option MountSpec
  | .obj members => do
    let host ← Json.required Json.asText members "host"
    let guest ← Json.required Json.asText members "guest"
    let ro ← Json.defaulted Json.asBool false members "ro"
    return { host, guest, ro }
  | _ => none

/-- A mount is read back. -/
theorem ofJson_toJson (mount : MountSpec) : ofJson mount.toJson = some mount := by
  have hkeys : (mount.members.map Prod.fst).Nodup :=
    (by decide : ["host", "guest", "ro"].Nodup)
  have hhost : Json.required Json.asText mount.members "host" = some mount.host :=
    Json.required_eq_some (.str mount.host) hkeys (by simp [members]) rfl
  have hguest : Json.required Json.asText mount.members "guest" = some mount.guest :=
    Json.required_eq_some (.str mount.guest) hkeys (by simp [members]) rfl
  have hro : Json.defaulted Json.asBool false mount.members "ro" = some mount.ro :=
    Json.defaulted_eq_some (.bool mount.ro) hkeys (by simp [members]) rfl
  rw [toJson, ofJson, hhost, hguest, hro]
  rfl

example : serializeMessage (toJson ⟨"/srv/\"www\"", "/www", true⟩) =
    asBytes "\x7b\"host\":\"/srv/\\\"www\\\"\",\"guest\":\"/www\",\"ro\":true\x7d" := by
  decide

end MountSpec

namespace Protocol

/-- `crates/common/src/lib.rs:357–361`. -/
def toJson : Protocol → Json
  | .tcp => .str "Tcp"
  | .udp => .str "Udp"

/-- `crates/common/src/lib.rs:357–361`. -/
def ofJson (value : Json) : Option Protocol :=
  match variantName value with
  | some "Tcp" => some .tcp
  | some "Udp" => some .udp
  | _ => none

end Protocol

namespace Visibility

/-- `crates/common/src/lib.rs:373–377`. -/
def toJson : Visibility → Json
  | .localBind => .str "Local"
  | .publicBind => .str "Public"

/-- `crates/common/src/lib.rs:373–377`. -/
def ofJson (value : Json) : Option Visibility :=
  match variantName value with
  | some "Local" => some .localBind
  | some "Public" => some .publicBind
  | _ => none

/-- A policy is not written as `null`. -/
theorem toJson_ne_null (visibility : Visibility) : visibility.toJson ≠ .null := by
  cases visibility <;> simp [toJson]

/-- A policy is read back. -/
theorem ofJson_toJson (visibility : Visibility) : ofJson visibility.toJson = some visibility := by
  cases visibility <;> rfl

end Visibility

namespace ServicePort

/-- The fields in the order of their declaration. -/
def members (port : ServicePort) : List (String × Json) :=
  [("name", Json.nullable .str port.name), ("port", .num port.port),
    ("protocol", port.protocol.toJson)]

/-- `crates/common/src/lib.rs:349–355`. -/
def toJson (port : ServicePort) : Json := .obj port.members

/-- `crates/common/src/lib.rs:349–355,363–365`. -/
def ofJson : Json → Option ServicePort
  | .obj members => do
    let name ← Json.optional Json.asText members "name"
    let port ← Json.required (Json.asUnsigned 16) members "port"
    let protocol ← Json.defaulted Protocol.ofJson .tcp members "protocol"
    return { name, port, protocol }
  | _ => none

/-- A port is read back if its number is a `u16`. -/
theorem ofJson_toJson {port : ServicePort} (h : port.port < 2 ^ 16) :
    ofJson port.toJson = some port := by
  have hkeys : (port.members.map Prod.fst).Nodup :=
    (by decide : ["name", "port", "protocol"].Nodup)
  have hname : Json.optional Json.asText port.members "name" = some port.name :=
    Json.optional_eq_some .str hkeys (by simp [members]) (by simp) (fun _ _ ↦ rfl)
  have hport : Json.required (Json.asUnsigned 16) port.members "port" = some port.port :=
    Json.required_eq_some (.num port.port) hkeys (by simp [members]) (Json.asUnsigned_num h)
  have hprotocol : Json.defaulted Protocol.ofJson .tcp port.members "protocol" =
      some port.protocol := by
    apply Json.defaulted_eq_some port.protocol.toJson hkeys (by simp [members])
    cases port.protocol <;> rfl
  rw [toJson, ofJson, hname, hport, hprotocol]
  rfl

end ServicePort

namespace PushUnsigned

/-- The fields in the order of their declaration. -/
def members (unsigned : PushUnsigned) : List (String × Json) :=
  [("alg", .str unsigned.alg),
    ("owner_pub_bs58", .str unsigned.ownerPubBs58),
    ("component_name", .str unsigned.componentName),
    ("target_peer_ids", Json.list .str unsigned.targetPeerIds),
    ("target_tags", Json.list .str unsigned.targetTags),
    ("memory_max_mb", Json.nullable .num unsigned.memoryMaxMb),
    ("fuel", Json.nullable .num unsigned.fuel),
    ("epoch_ms", Json.nullable .num unsigned.epochMs),
    ("replicas", .num unsigned.replicas),
    ("start", .bool unsigned.start),
    ("binary_sha256_hex", .str unsigned.binarySha256Hex),
    ("mounts", Json.nullable (Json.list MountSpec.toJson) unsigned.mounts),
    ("ports", Json.nullable (Json.list ServicePort.toJson) unsigned.ports),
    ("visibility", Json.nullable Visibility.toJson unsigned.visibility)]

/-- `crates/common/src/lib.rs:215–231`. -/
def toJson (unsigned : PushUnsigned) : Json := .obj unsigned.members

/-- `crates/common/src/lib.rs:215–231`. -/
def ofJson : Json → Option PushUnsigned
  | .obj members => do
    let alg ← Json.required Json.asText members "alg"
    let ownerPubBs58 ← Json.required Json.asText members "owner_pub_bs58"
    let componentName ← Json.required Json.asText members "component_name"
    let targetPeerIds ← Json.required (Json.asList Json.asText) members "target_peer_ids"
    let targetTags ← Json.required (Json.asList Json.asText) members "target_tags"
    let memoryMaxMb ← Json.optional (Json.asUnsigned 64) members "memory_max_mb"
    let fuel ← Json.optional (Json.asUnsigned 64) members "fuel"
    let epochMs ← Json.optional (Json.asUnsigned 64) members "epoch_ms"
    let replicas ← Json.required (Json.asUnsigned 32) members "replicas"
    let start ← Json.required Json.asBool members "start"
    let binarySha256Hex ← Json.required Json.asText members "binary_sha256_hex"
    let mounts ← Json.optional (Json.asList MountSpec.ofJson) members "mounts"
    let ports ← Json.optional (Json.asList ServicePort.ofJson) members "ports"
    let visibility ← Json.optional Visibility.ofJson members "visibility"
    return {
      alg, ownerPubBs58, componentName, targetPeerIds, targetTags, memoryMaxMb, fuel, epochMs,
      replicas, start, binarySha256Hex, mounts, ports, visibility }
  | _ => none

/-- The numbers have the widths of their types. -/
structure Fits (unsigned : PushUnsigned) : Prop where
  memoryMaxMb : ∀ n ∈ unsigned.memoryMaxMb, n < 2 ^ 64
  fuel : ∀ n ∈ unsigned.fuel, n < 2 ^ 64
  epochMs : ∀ n ∈ unsigned.epochMs, n < 2 ^ 64
  replicas : unsigned.replicas < 2 ^ 32
  ports : ∀ ports ∈ unsigned.ports, ∀ port ∈ ports, port.port < 2 ^ 16

/-- What an owner signs is read back, with every field. -/
theorem ofJson_toJson {unsigned : PushUnsigned} (h : unsigned.Fits) :
    ofJson unsigned.toJson = some unsigned := by
  have hkeys : (unsigned.members.map Prod.fst).Nodup :=
    (by decide : ["alg", "owner_pub_bs58", "component_name", "target_peer_ids", "target_tags",
      "memory_max_mb", "fuel", "epoch_ms", "replicas", "start", "binary_sha256_hex", "mounts",
      "ports", "visibility"].Nodup)
  have htext (key text : String) (hmem : (key, Json.str text) ∈ unsigned.members) :
      Json.required Json.asText unsigned.members key = some text :=
    Json.required_eq_some _ hkeys hmem rfl
  have hlist (key : String) (texts : List String)
      (hmem : (key, Json.list .str texts) ∈ unsigned.members) :
      Json.required (Json.asList Json.asText) unsigned.members key = some texts :=
    Json.required_eq_some _ hkeys hmem (Json.asList_texts texts)
  have hlimit (key : String) (limit : Option Nat)
      (hmem : (key, Json.nullable .num limit) ∈ unsigned.members) (hle : ∀ n ∈ limit, n < 2 ^ 64) :
      Json.optional (Json.asUnsigned 64) unsigned.members key = some limit :=
    Json.optional_eq_some .num hkeys hmem (by simp) fun n hn ↦ Json.asUnsigned_num (hle n hn)
  have hreplicas : Json.required (Json.asUnsigned 32) unsigned.members "replicas" =
      some unsigned.replicas :=
    Json.required_eq_some (.num unsigned.replicas) hkeys (by simp [members])
      (Json.asUnsigned_num h.replicas)
  have hstart : Json.required Json.asBool unsigned.members "start" = some unsigned.start :=
    Json.required_eq_some (.bool unsigned.start) hkeys (by simp [members]) rfl
  have hmounts : Json.optional (Json.asList MountSpec.ofJson) unsigned.members "mounts" =
      some unsigned.mounts :=
    Json.optional_eq_some (Json.list MountSpec.toJson) hkeys (by simp [members])
      (by simp [Json.list]) fun mounts _ ↦ Json.asList_list fun mount _ ↦ mount.ofJson_toJson
  have hports : Json.optional (Json.asList ServicePort.ofJson) unsigned.members "ports" =
      some unsigned.ports :=
    Json.optional_eq_some (Json.list ServicePort.toJson) hkeys (by simp [members])
      (by simp [Json.list]) fun ports hin ↦ Json.asList_list fun port hport ↦
        ServicePort.ofJson_toJson (h.ports ports hin port hport)
  have hvisibility : Json.optional Visibility.ofJson unsigned.members "visibility" =
      some unsigned.visibility :=
    Json.optional_eq_some Visibility.toJson hkeys (by simp [members])
      Visibility.toJson_ne_null fun visibility _ ↦ visibility.ofJson_toJson
  rw [toJson, ofJson, htext "alg" unsigned.alg (by simp [members]),
    htext "owner_pub_bs58" unsigned.ownerPubBs58 (by simp [members]),
    htext "component_name" unsigned.componentName (by simp [members]),
    hlist "target_peer_ids" unsigned.targetPeerIds (by simp [members]),
    hlist "target_tags" unsigned.targetTags (by simp [members]),
    hlimit "memory_max_mb" unsigned.memoryMaxMb (by simp [members]) h.memoryMaxMb,
    hlimit "fuel" unsigned.fuel (by simp [members]) h.fuel,
    hlimit "epoch_ms" unsigned.epochMs (by simp [members]) h.epochMs, hreplicas, hstart,
    htext "binary_sha256_hex" unsigned.binarySha256Hex (by simp [members]), hmounts, hports,
    hvisibility]
  rfl

/-- The signed bytes determine every field. -/
theorem eq_of_serializeMessage_eq {a b : PushUnsigned} (ha : a.Fits) (hb : b.Fits)
    (h : serializeMessage a.toJson = serializeMessage b.toJson) : a = b := by
  have hjson := deserializeMessage_serializeMessage a.toJson
  rw [h, deserializeMessage_serializeMessage] at hjson
  have hread := ofJson_toJson ha
  rw [← Option.some.inj hjson, ofJson_toJson hb] at hread
  exact (Option.some.inj hread).symm

end PushUnsigned

namespace PushPackage

/-- The fields in the order of their declaration. -/
def members (pkg : PushPackage) : List (String × Json) :=
  [("unsigned", pkg.unsigned.toJson), ("binary_b64", .str pkg.binaryB64),
    ("signature_b64", .str pkg.signatureB64)]

/-- `crates/common/src/lib.rs:233–238`. -/
def toJson (pkg : PushPackage) : Json := .obj pkg.members

/-- `crates/common/src/lib.rs:233–238`. -/
def ofJson : Json → Option PushPackage
  | .obj members => do
    let unsigned ← Json.required PushUnsigned.ofJson members "unsigned"
    let binaryB64 ← Json.required Json.asText members "binary_b64"
    let signatureB64 ← Json.required Json.asText members "signature_b64"
    return { unsigned, binaryB64, signatureB64 }
  | _ => none

/-- A package is read back. -/
theorem ofJson_toJson {pkg : PushPackage} (h : pkg.unsigned.Fits) :
    ofJson pkg.toJson = some pkg := by
  have hkeys : (pkg.members.map Prod.fst).Nodup :=
    (by decide : ["unsigned", "binary_b64", "signature_b64"].Nodup)
  have hunsigned : Json.required PushUnsigned.ofJson pkg.members "unsigned" = some pkg.unsigned :=
    Json.required_eq_some pkg.unsigned.toJson hkeys (by simp [members])
      (PushUnsigned.ofJson_toJson h)
  have hbinary : Json.required Json.asText pkg.members "binary_b64" = some pkg.binaryB64 :=
    Json.required_eq_some (.str pkg.binaryB64) hkeys (by simp [members]) rfl
  have hsignature : Json.required Json.asText pkg.members "signature_b64" =
      some pkg.signatureB64 :=
    Json.required_eq_some (.str pkg.signatureB64) hkeys (by simp [members]) rfl
  rw [toJson, ofJson, hunsigned, hbinary, hsignature]
  rfl

/-- `Command::PushComponent` with this package; `crates/common/src/lib.rs:8–126`. -/
def commandJson (pkg : PushPackage) : Json := .obj [("PushComponent", pkg.toJson)]

/-- The package of a `Command::PushComponent`. -/
def ofCommandJson : Json → Option PushPackage
  | .obj [("PushComponent", value)] => ofJson value
  | _ => none

/-- A push command arrives with the package that was sent. -/
theorem ofCommandJson_deserializeMessage {pkg : PushPackage} (h : pkg.unsigned.Fits) :
    (deserializeMessage (serializeMessage pkg.commandJson)).bind ofCommandJson = some pkg := by
  rw [deserializeMessage_serializeMessage]
  exact ofJson_toJson h

end PushPackage

end PeerDeploy.Common
