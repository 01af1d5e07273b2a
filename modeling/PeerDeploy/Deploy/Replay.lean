import PeerDeploy.Deploy.Versions

/-!
# Owners, what they issue, and an attacker who re-sends it

A signature covers the manifest text (`crates/agent/src/cmd/apply.rs:54`) or the binary
(`crates/agent/src/cmd/upgrade.rs:87`) and no other field of the message, the version
included. Here the holders of keys issue manifests and binaries, and the network delivers
any message at all to a node, except one whose signature verifies although the holder of the
key has never signed those bytes.
-/

namespace PeerDeploy.Deploy

open PeerDeploy.Common PeerDeploy.Base

/-- What the holder of a key has issued under a version. -/
structure Issue (α : Type) where
  key : Bytes
  version : Nat
  content : α
  deriving DecidableEq

/-- A node and all that has been signed, in order. -/
structure World where
  node : Node := {}
  manifests : List (Issue String) := []
  upgrades : List (Issue Bytes) := []
  /-- Key and bytes of the rest: push packages and invites. -/
  others : List (Bytes × Bytes) := []

/-- What can happen. -/
inductive WorldEvent where
  | issueManifest (issue : Issue String)
  | issueUpgrade (issue : Issue Bytes)
  | signOther (key data : Bytes)
  /-- A message reaches the node, or the node takes a step. -/
  | atNode (event : Event)

/-- The key bytes of an owner's text; `crates/common/src/lib.rs:405–409`. -/
def keyOf (x : Externals) (publicBs58 : String) : Option Bytes :=
  (x.bs58Decode ((Text.stripPrefix "ed25519:" publicBs58).getD publicBs58)).toOption

/-- The holder of the key has issued nothing under a higher version. -/
def inOrder {α : Type} (log : List (Issue α)) (issue : Issue α) : Bool :=
  log.all fun earlier ↦ earlier.key != issue.key || earlier.version ≤ issue.version

/-- The content was issued under the version by the owner of that text. -/
def Issued {α : Type} (x : Externals) (log : List (Issue α)) (owner : String) (version : Nat)
    (content : α) : Prop :=
  ∃ key, keyOf x owner = some key ∧ ⟨key, version, content⟩ ∈ log

/-- A message that verifies was issued as it says; past the check it has been verified and its
owner is the trusted one. -/
def TaskInv (x : Externals) (w : World) : Task → Prop
  | .apply task =>
    (ManifestVerified x task.signed → Issued x w.manifests task.signed.ownerPubBs58
      task.signed.version task.signed.manifestToml) ∧
    (task.pc ≠ .check → task.pc ≠ .rejected → ManifestVerified x task.signed ∧
      w.node.site.loadTrustedOwner = some task.signed.ownerPubBs58)
  | .upgrade task =>
    (UpgradeVerified x task.pkg → Issued x w.upgrades task.pkg.ownerPubBs58
      task.pkg.version (upgradeBinary x task.pkg)) ∧
    (task.pc ≠ .check → task.pc ≠ .rejected → UpgradeVerified x task.pkg ∧
      (task.pc ≠ .trusting → w.node.site.loadTrustedOwner = some task.pkg.ownerPubBs58))
  | _ => True

/-- A message for the node, and then steps of its handler. -/
def deliver (message : Event) (k steps : Nat) : List WorldEvent :=
  .atNode message :: List.replicate steps (.atNode (fetching k))

end PeerDeploy.Deploy
