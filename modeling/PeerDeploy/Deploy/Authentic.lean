import PeerDeploy.Base.Table
import PeerDeploy.Common.Wire
import PeerDeploy.Deploy.Owner

/-!
# Pushes from the owner's command line to the node

What `push` signs and sends (`crates/agent/src/cmd/push.rs:114–141`) and what
`handle_push_package` makes of it (`crates/agent/src/p2p/handlers/push.rs:67–161`). The node
verifies the signature over its own encoding of the decoded package.
-/

namespace PeerDeploy.Deploy

open PeerDeploy.Common PeerDeploy.Base

/-- The libraries that the owner's command line calls. -/
structure OwnerTools where
  hexDecode : String → Except String Bytes
  /-- `SigningKey::verifying_key`, from the secret to the public bytes. -/
  verifyingKey : Bytes → Bytes
  /-- `SigningKey::sign`: secret, data. -/
  sign : Bytes → Bytes → Bytes
  bs58Encode : Bytes → String
  base64Encode : Bytes → String

/-- `crates/common/src/lib.rs:144–149`. -/
structure OwnerKeypair where
  publicBs58 : String
  privateHex : String
  deriving DecidableEq, Repr

/-- `crates/common/src/lib.rs:174–189`. -/
def OwnerKeypair.fromPrivateHex (y : OwnerTools) (hexStr : String) :
    Except String OwnerKeypair := do
  let skBytes ← y.hexDecode hexStr
  if skBytes.length ≠ 32 then throw "bad key len"
  return { publicBs58 := "ed25519:" ++ y.bs58Encode (y.verifyingKey skBytes), privateHex := hexStr }

/-- `crates/common/src/lib.rs:379–398`. -/
def signBytesEd25519 (y : OwnerTools) (privateHex : String) (data : Bytes) :
    Except String Bytes := do
  if Text.trim privateHex = "" then
    throw ("owner private key missing; run `realm init` to generate a key, or ensure " ++
      "`owner.key.json` contains `private_hex`")
  let skBytes ← y.hexDecode privateHex
  if skBytes.length ≠ 32 then
    throw ("bad key len: expected 32-byte ed25519 private key; run `realm init` to regenerate")
  return y.sign skBytes data

/-- Sign and pack; `crates/agent/src/cmd/push.rs:114–136`. The key pair and the binary set three
fields, the command line sets the others. -/
def push (x : Externals) (y : OwnerTools) (kp : OwnerKeypair) (unsigned : PushUnsigned)
    (bin : Bytes) : Except String PushPackage := do
  let unsigned := { unsigned with
    alg := "ed25519", ownerPubBs58 := kp.publicBs58, binarySha256Hex := x.sha256Hex bin }
  let sig ← signBytesEd25519 y kp.privateHex (x.pushJson unsigned)
  return { unsigned, binaryB64 := y.base64Encode bin, signatureB64 := y.base64Encode sig }

/-- Take up to `n` steps. -/
def PushTask.finish (x : Env) (input : StepInput) : Nat → Site → PushTask → Site × PushPc
  | 0, s, task => (s, task.pc)
  | n + 1, s, task =>
    match task.advance x s input with
    | none => (s, task.pc)
    | some (s, pc) => PushTask.finish x input n s { task with pc }

/-- `crates/agent/src/p2p/handlers/push.rs:67–161` with no other handler in between: no push task
has more than four steps. -/
def handlePushPackage (x : Env) (s : Site) (pkg : PushPackage) (input : StepInput) :
    Site × PushPc :=
  PushTask.finish x input 4 s { pkg }

/-- The staged file of a package. -/
def pushPath (x : Env) (unsigned : PushUnsigned) : String :=
  artifactPath x.dataDir unsigned.componentName unsigned.binarySha256Hex

/-- The error that keeps the artifact from being staged; `push.rs:117–122`. -/
def stageFault (x : Env) (s : Site) (unsigned : PushUnsigned) (input : StepInput) :
    Option String :=
  match input.dirError with
  | some e => some e
  | none =>
    if s.artifacts.contains (Path.canonical (pushPath x unsigned)) then none else input.ioError

/-- How the libraries of both sides fit together. -/
structure PushLibraries (x : Externals) (y : OwnerTools) : Prop where
  json : ∀ unsigned, x.pushJson unsigned = serializeMessage unsigned.toJson
  base64 : ∀ bytes, x.base64Decode (y.base64Encode bytes) = .ok bytes
  bs58 : ∀ bytes, x.bs58Decode (y.bs58Encode bytes) = .ok bytes
  /-- Two digits for each byte, and no white space. -/
  hex : ∀ text bytes, y.hexDecode text = .ok bytes → text.toList.length = 2 * bytes.length ∧
    ∀ c ∈ text.toList, Text.isWhitespace c = false
  key : ∀ secret, secret.length = 32 → (y.verifyingKey secret).length = 32 ∧
    x.keyError (y.verifyingKey secret) = none
  sign : ∀ secret data, secret.length = 32 → (y.sign secret data).length = 64 ∧
    x.ed25519Verify (y.verifyingKey secret) data (y.sign secret data) = true

/-- Among the signatures in circulation, one that verifies under the owner's key is over bytes
that the owner has signed. -/
def Unforgeable (x : Externals) (owner : String) (circulating signed : Bytes → Prop) : Prop :=
  ∀ data sig, circulating sig → verifies x owner data sig = true → signed data

/-- The specification has the fields of the package. -/
structure Carries (spec : ComponentSpec) (unsigned : PushUnsigned) : Prop where
  sha256Hex : spec.sha256Hex = unsigned.binarySha256Hex
  memoryMaxMb : spec.memoryMaxMb = unsigned.memoryMaxMb
  fuel : spec.fuel = unsigned.fuel
  epochMs : spec.epochMs = unsigned.epochMs
  replicas : spec.replicas = some unsigned.replicas
  mounts : spec.mounts = unsigned.mounts
  ports : spec.ports = unsigned.ports
  visibility : spec.visibility = unsigned.visibility
  targetPeerIds : spec.targetPeerIds = unsigned.targetPeerIds
  targetTags : spec.targetTags = unsigned.targetTags
  start : spec.start = unsigned.start

/-- The package arrives as it was sent, with a signature over what the node encodes again; it
is accepted unless the artifact cannot be staged. -/
structure Arrives (x : Env) (y : OwnerTools) (kp : OwnerKeypair) (s : Site) (input : StepInput)
    (pkg : PushPackage) : Prop where
  decoded : (deserializeMessage (serializeMessage pkg.commandJson)).bind
    PushPackage.ofCommandJson = some pkg
  signed : ∃ sig,
    signBytesEd25519 y kp.privateHex (serializeMessage pkg.unsigned.toJson) = .ok sig ∧
      pkg.signatureB64 = y.base64Encode sig
  accepted : stageFault x s pkg.unsigned input = none →
    (handlePushPackage x s pkg input).2 = .accepted
  refused : ∀ e, stageFault x s pkg.unsigned input = some e →
    handlePushPackage x s pkg input = (s, .rejected (.io e))

/-- The owner signed exactly this package, the binary has the signed digest, the staged file is
the one that lay there before, unchanged, or else the binary, and the supervisor is handed the
signed fields. -/
structure Authentic (x : Env) (signed : Bytes → Prop) (owner : String) (s t : Site)
    (pkg : PushPackage) : Prop where
  owner : pkg.unsigned.ownerPubBs58 = owner
  signed : signed (serializeMessage pkg.unsigned.toJson)
  exact : ∀ unsigned : PushUnsigned, unsigned.Fits →
    serializeMessage unsigned.toJson = serializeMessage pkg.unsigned.toJson →
      unsigned = pkg.unsigned
  staged : ∃ bin, x.base64Decode pkg.binaryB64 = .ok bin ∧
    x.sha256Hex bin = pkg.unsigned.binarySha256Hex ∧
    t.artifacts[Path.canonical (pushPath x pkg.unsigned)]? =
      some (s.artifacts[Path.canonical (pushPath x pkg.unsigned)]?.getD bin)
  scheduled : pkg.unsigned.start = true → ∃ spec, Carries spec pkg.unsigned ∧
    t.desired[pkg.unsigned.componentName]? =
      some ⟨pkg.unsigned.componentName, pushPath x pkg.unsigned, spec⟩
  unscheduled : pkg.unsigned.start = false → t.desired = s.desired

/-! ### What the handler does -/

-- The site of an accepted push after its artifact is staged.
private def scheduled (x : Env) (s : Site) (unsigned : PushUnsigned) (path : String) : Site :=
  if unsigned.start then
    (s.upsertComponent ⟨unsigned.componentName, path, pushSpec unsigned⟩)
      |>.updatePersistentManifestWithComponent x.toExternals unsigned.componentName
        (pushSpec unsigned)
  else s

private theorem handle_of_stage {x : Env} {s t : Site} {pkg : PushPackage} {bin : Bytes}
    (input : StepInput) (h : pushCheck x s pkg = (t, .stage bin))
    (hdigest : x.sha256Hex bin = pkg.unsigned.binarySha256Hex) :
    handlePushPackage x s pkg input = match stageFault x t pkg.unsigned input with
      | some e => (t, .rejected (.io e))
      | none =>
        let place := Path.canonical (pushPath x pkg.unsigned)
        let u := if t.artifacts.contains place then t
          else { t with artifacts := t.artifacts.insert place bin }
        (scheduled x u pkg.unsigned (pushPath x pkg.unsigned), .accepted) := by
  have hstaged : PushTask.finish x input 4 s { pkg } =
      PushTask.finish x input 3 t { pkg, pc := .stage bin } := by
    rw [PushTask.finish, PushTask.advance]
    simp only [h]
  have hrest (u : Site) : PushTask.finish x input 2 u
      { pkg, pc := .schedule (pushPath x pkg.unsigned) } =
        (scheduled x u pkg.unsigned (pushPath x pkg.unsigned), .accepted) := by
    by_cases hstart : pkg.unsigned.start = true
    · simp [PushTask.finish, PushTask.advance, scheduled, hstart]
    · simp [PushTask.finish, PushTask.advance, scheduled, hstart]
  rw [handlePushPackage, hstaged, PushTask.finish, PushTask.advance]
  simp only [hdigest, stageFault, Site.stageFile]
  rw [show artifactPath x.dataDir pkg.unsigned.componentName pkg.unsigned.binarySha256Hex =
    pushPath x pkg.unsigned from rfl]
  cases hdir : input.dirError with
  | some e => rfl
  | none =>
    by_cases hfile : t.artifacts.contains (Path.canonical (pushPath x pkg.unsigned)) = true
    · simp only [hfile, if_true, hrest]
    · cases hio : input.ioError with
      | some e => simp [hfile, PushTask.finish, PushTask.advance]
      | none => simp only [hfile, Bool.false_eq_true, if_false, hrest]

private theorem handle_of_rejected {x : Env} {s t : Site} {pkg : PushPackage}
    {error : PushAcceptanceError} (input : StepInput)
    (h : pushCheck x s pkg = (t, .rejected error)) :
    handlePushPackage x s pkg input = (t, .rejected error) := by
  simp [handlePushPackage, PushTask.finish, PushTask.advance, h]

/-! ### From the owner to the node -/

/-- A key pair has the key of its secret. -/
theorem fromPrivateHex_eq_ok {y : OwnerTools} {hexStr : String} {kp : OwnerKeypair}
    (h : OwnerKeypair.fromPrivateHex y hexStr = .ok kp) :
    ∃ secret, y.hexDecode hexStr = .ok secret ∧ secret.length = 32 ∧
      kp = ⟨"ed25519:" ++ y.bs58Encode (y.verifyingKey secret), hexStr⟩ := by
  unfold OwnerKeypair.fromPrivateHex at h
  cases hsecret : y.hexDecode hexStr with
  | error e =>
    rw [hsecret] at h
    cases h
  | ok secret =>
    simp only [hsecret, bind, Except.bind, pure, Except.pure, throw, throwThe, MonadExceptOf.throw]
      at h
    by_cases hlen : secret.length = 32
    · rw [if_neg (by simp [hlen])] at h
      cases h
      exact ⟨secret, rfl, hlen, rfl⟩
    · rw [if_pos hlen] at h
      cases h

private theorem trim_ne_of_hex {x : Externals} {y : OwnerTools} (hlib : PushLibraries x y)
    {hexStr : String} {secret : Bytes} (h : y.hexDecode hexStr = .ok secret)
    (hlen : secret.length = 32) : Text.trim hexStr ≠ "" := by
  obtain ⟨hdigits, hspace⟩ := hlib.hex hexStr secret h
  rw [Text.trim_eq_self hspace]
  rintro rfl
  rw [hlen] at hdigits
  cases hdigits

/-- The owner signs with a secret of 32 bytes. -/
theorem sign_eq_ok {x : Externals} {y : OwnerTools} (hlib : PushLibraries x y)
    {hexStr : String} {secret : Bytes} (h : y.hexDecode hexStr = .ok secret)
    (hlen : secret.length = 32) (data : Bytes) :
    signBytesEd25519 y hexStr data = .ok (y.sign secret data) := by
  rw [signBytesEd25519, if_neg (trim_ne_of_hex hlib h hlen), h]
  simp only [bind, Except.bind]
  rw [if_neg (by simp [hlen])]
  rfl

/-- What the owner signs verifies under the owner's key. -/
theorem verify_eq_ok {x : Externals} {y : OwnerTools} (hlib : PushLibraries x y)
    {secret : Bytes} (hlen : secret.length = 32) (data : Bytes) :
    verifyBytesEd25519 x ("ed25519:" ++ y.bs58Encode (y.verifyingKey secret)) data
      (y.sign secret data) = .ok true := by
  obtain ⟨hkey, herror⟩ := hlib.key secret hlen
  obtain ⟨hsig, hverify⟩ := hlib.sign secret data hlen
  simp only [verifyBytesEd25519, Text.stripPrefix_append, Option.getD_some, hlib.bs58]
  simp only [bind, Except.bind, herror, hverify]
  rw [if_neg (by simp [hkey]), if_neg (by simp [hsig])]
  rfl

private theorem push_passes {x : Env} {y : OwnerTools} (hlib : PushLibraries x.toExternals y)
    {hexStr : String} {kp : OwnerKeypair} (hkp : OwnerKeypair.fromPrivateHex y hexStr = .ok kp)
    {s : Site} (htrust : s.loadTrustedOwner = some kp.publicBs58) (unsigned : PushUnsigned)
    (bin : Bytes) :
    ∃ pkg sig, push x.toExternals y kp unsigned bin = .ok pkg ∧
      pkg.unsigned = { unsigned with
        alg := "ed25519", ownerPubBs58 := kp.publicBs58, binarySha256Hex := x.sha256Hex bin } ∧
      signBytesEd25519 y kp.privateHex (x.pushJson pkg.unsigned) = .ok sig ∧
      pkg.signatureB64 = y.base64Encode sig ∧ pushCheck x s pkg = (s, .stage bin) := by
  obtain ⟨secret, hsecret, hlen, rfl⟩ := fromPrivateHex_eq_ok hkp
  let u : PushUnsigned := { unsigned with
    alg := "ed25519", ownerPubBs58 := "ed25519:" ++ y.bs58Encode (y.verifyingKey secret),
    binarySha256Hex := x.sha256Hex bin }
  have hsign := sign_eq_ok hlib hsecret hlen (x.pushJson u)
  have hverify := verify_eq_ok hlib hlen (x.pushJson u)
  refine ⟨⟨u, y.base64Encode bin, y.base64Encode (y.sign secret (x.pushJson u))⟩,
    y.sign secret (x.pushJson u), ?_, rfl, hsign, rfl, ?_⟩
  · rw [push]
    simp only
    rw [hsign]
    rfl
  · have howner : u.ownerPubBs58 = "ed25519:" ++ y.bs58Encode (y.verifyingKey secret) := rfl
    have hdigest : x.sha256Hex bin = u.binarySha256Hex := rfl
    simp only [pushCheck, hlib.base64, howner, hverify, Site.trustOnFirstUse, htrust]
    rw [if_neg (by simp [hdigest]), if_neg (by simp)]

private theorem arrives_of_push {x : Env} {y : OwnerTools} (hlib : PushLibraries x.toExternals y)
    {hexStr : String} {kp : OwnerKeypair} (hkp : OwnerKeypair.fromPrivateHex y hexStr = .ok kp)
    {s : Site} (htrust : s.loadTrustedOwner = some kp.publicBs58) {unsigned : PushUnsigned}
    (hfits : unsigned.Fits) (bin : Bytes) (input : StepInput) :
    ∃ pkg, push x.toExternals y kp unsigned bin = .ok pkg ∧ Arrives x y kp s input pkg := by
  obtain ⟨pkg, sig, hpush, hunsigned, hsign, hsig, hcheck⟩ :=
    push_passes hlib hkp htrust unsigned bin
  have hpkg : pkg.unsigned.Fits := by
    rw [hunsigned]
    exact ⟨hfits.memoryMaxMb, hfits.fuel, hfits.epochMs, hfits.replicas, hfits.ports⟩
  have hdigest : x.sha256Hex bin = pkg.unsigned.binarySha256Hex := by rw [hunsigned]
  have hhandle := handle_of_stage input hcheck hdigest
  refine ⟨pkg, hpush, PushPackage.ofCommandJson_deserializeMessage hpkg, ⟨sig, ?_, hsig⟩, ?_, ?_⟩
  · rw [← hlib.json]
    exact hsign
  · intro hfault
    rw [hhandle, hfault]
  · intro e hfault
    rw [hhandle, hfault]

/-! ### From the node back to the owner -/

private theorem carries_pushSpec (unsigned : PushUnsigned) : Carries (pushSpec unsigned) unsigned :=
  ⟨rfl, rfl, rfl, rfl, rfl, rfl, rfl, rfl, rfl, rfl, rfl⟩

private theorem desired_scheduled (x : Env) (s : Site) {unsigned : PushUnsigned} (path : String)
    (h : unsigned.start = true) :
    (scheduled x s unsigned path).desired =
      s.desired.insert unsigned.componentName
        ⟨unsigned.componentName, path, pushSpec unsigned⟩ := by
  rw [scheduled, if_pos h, (updatePersistent_keeps _ _ _ _).1]
  rfl

private theorem artifacts_scheduled (x : Env) (s : Site) (unsigned : PushUnsigned)
    (path : String) : (scheduled x s unsigned path).artifacts = s.artifacts := by
  unfold scheduled
  split
  · rw [(updatePersistent_keeps _ _ _ _).2]
    rfl
  · rfl

private theorem authentic_of_accepted {x : Env} (hjson : ∀ unsigned,
      x.pushJson unsigned = serializeMessage unsigned.toJson)
    {owner : String} {circulating signed : Bytes → Prop} {s t : Site} {pkg : PushPackage}
    {input : StepInput} (htrust : s.loadTrustedOwner = some owner)
    (hunforgeable : Unforgeable x.toExternals owner circulating signed)
    (hsig : ∀ sig, x.base64Decode pkg.signatureB64 = .ok sig → circulating sig)
    (hfits : pkg.unsigned.Fits) (h : handlePushPackage x s pkg input = (t, .accepted)) :
    Authentic x signed owner s t pkg := by
  rcases pushCheck_cases x s pkg with
    ⟨error, hcheck⟩ | ⟨u, sig, bin, hcheck, hdecode, hverify, hbin, hdigest, hfirst⟩
  · rw [handle_of_rejected input hcheck] at h
    cases h
  -- the owner check went through, so the package names the trusted owner
  obtain ⟨howner, rfl⟩ : pkg.unsigned.ownerPubBs58 = owner ∧ u = s := by
    rcases trusts_of_trustOnFirstUse hfirst with ⟨htrusted, hsame⟩ | ⟨hnone, -⟩
    · rw [htrust] at htrusted
      exact ⟨(Option.some.inj htrusted).symm, hsame⟩
    · rw [htrust] at hnone
      cases hnone
  rw [handle_of_stage input hcheck hdigest] at h
  split at h
  · cases h
  obtain ⟨rfl, -⟩ := Prod.mk.inj h
  refine ⟨howner, ?_, ?_, ⟨bin, hbin, hdigest, ?_⟩, ?_, ?_⟩
  · apply hunforgeable _ sig (hsig sig hdecode)
    rw [← hjson, ← howner, verifies, hverify]
  · intro unsigned hun he
    exact PushUnsigned.eq_of_serializeMessage_eq hun hfits he
  · simp only [artifacts_scheduled, Std.ExtTreeMap.contains_eq_isSome_getElem?]
    cases hfile : u.artifacts[Path.canonical (pushPath x pkg.unsigned)]? with
    | none =>
      rw [Option.isSome_none, if_neg (by decide), Table.getElem?_insert, if_pos rfl]
      rfl
    | some old =>
      rw [Option.isSome_some, if_pos rfl, hfile]
      rfl
  · intro hstart
    refine ⟨pushSpec pkg.unsigned, carries_pushSpec _, ?_⟩
    rw [desired_scheduled x _ _ hstart, Table.getElem?_insert, if_pos rfl]
  · intro hstart
    rw [scheduled, if_neg (by simp [hstart])]
    split
    · rfl
    · rfl

/-- What an owner pushes reaches every node that trusts the owner as it was signed, and is
accepted unless the artifact cannot be staged; and a node that trusts an owner accepts only
packages that this owner signed, field by field. -/
theorem push_authentic {x : Env} {y : OwnerTools} (hlib : PushLibraries x.toExternals y)
    (input : StepInput) :
    (∀ (hexStr : String) (kp : OwnerKeypair) (s : Site) (unsigned : PushUnsigned) (bin : Bytes),
      OwnerKeypair.fromPrivateHex y hexStr = .ok kp →
      s.loadTrustedOwner = some kp.publicBs58 → unsigned.Fits →
        ∃ pkg, push x.toExternals y kp unsigned bin = .ok pkg ∧ Arrives x y kp s input pkg) ∧
    (∀ (owner : String) (circulating signed : Bytes → Prop) (s t : Site) (pkg : PushPackage),
      s.loadTrustedOwner = some owner →
      Unforgeable x.toExternals owner circulating signed →
      (∀ sig, x.base64Decode pkg.signatureB64 = .ok sig → circulating sig) →
      pkg.unsigned.Fits → handlePushPackage x s pkg input = (t, .accepted) →
        Authentic x signed owner s t pkg) := by
  constructor
  · intro hexStr kp s unsigned bin hkp htrust hfits
    exact arrives_of_push hlib hkp htrust hfits bin input
  · intro owner circulating signed s t pkg htrust hunforgeable hsig hfits h
    exact authentic_of_accepted hlib.json htrust hunforgeable hsig hfits h

/-! ### A push that arrives, and two that the handler treats otherwise -/

/-- What the first owner pushes. -/
def pushedUnsigned : PushUnsigned where
  alg := "ed25519"
  ownerPubBs58 := "ed25519:AKnL4NNf3DGWZJS6cPknBuEGnVsV4A4m5tgebLHaRSZ9"
  componentName := "web"
  targetTags := ["edge"]
  memoryMaxMb := some 64
  epochMs := some 100
  binarySha256Hex := "93a44bbb96c751218e4c00d479e4c14358122a389acca16205b1e4d0dc5f9476"
  ports := some [⟨none, 8080, .tcp⟩]
  visibility := some .publicBind

/-- The signature of the first owner on it. -/
def pushSigA : Bytes :=
  [143, 211, 57, 27, 172, 41, 45, 188, 124, 98, 120, 28, 140, 197, 58, 245, 162, 227, 166, 11,
    90, 127, 163, 39, 22, 86, 176, 255, 133, 75, 153, 75, 18, 31, 177, 193, 157, 30, 31, 195, 69,
    135, 86, 47, 32, 151, 128, 218, 3, 72, 96, 38, 190, 192, 134, 18, 194, 93, 247, 76, 53, 38,
    63, 0]

/-- The package on the wire. -/
def pushedPackage : PushPackage where
  unsigned := pushedUnsigned
  binaryB64 := "AGFzbQEAAAA="
  signatureB64 :=
    "j9M5G6wpLbx8YngcjMU69aLjpgtaf6MnFlaw/4VLmUsSH7HBnR4fw0WHVi8gl4DaA0hgJr7AhhLCXfdMNSY/AA=="

/-- The secret of the first owner. -/
def secretA : Bytes := List.replicate 32 1

/-- Its text. -/
def secretHexA : String := "0101010101010101010101010101010101010101010101010101010101010101"

/-- A text for bytes that no run here decodes: a mark, and a character for each byte. -/
def markedText (mark : Char) (bytes : Bytes) : String :=
  String.ofList (mark :: bytes.map fun b ↦ Char.ofNat b.toNat)

/-- The bytes of such a text. -/
def markedBytes (mark : Char) (text : String) : Except String Bytes :=
  match text.toList with
  | c :: rest =>
    if c = mark then .ok (rest.map fun c ↦ UInt8.ofNat c.toNat) else .error "invalid character"
  | [] => .error "invalid length"

/-- The owner's libraries on the inputs of the push. -/
def pushTools : OwnerTools where
  hexDecode text := if text = secretHexA then .ok secretA else .error "Invalid string length"
  verifyingKey secret := if secret = secretA then keyA else secret
  sign secret data :=
    if secret = secretA ∧ data = serializeMessage pushedUnsigned.toJson then pushSigA
    else List.replicate 64 0
  bs58Encode bytes :=
    if bytes = keyA then "AKnL4NNf3DGWZJS6cPknBuEGnVsV4A4m5tgebLHaRSZ9" else markedText '0' bytes
  base64Encode bytes :=
    if bytes = pushSigA then pushedPackage.signatureB64
    else if bytes = emptyWasm then pushedPackage.binaryB64 else markedText '=' bytes

/-- The node's libraries on the same inputs. -/
def pushEnv : Env :=
  { sampleEnv with
    base64Decode := fun text ↦
      if text = pushedPackage.signatureB64 then .ok pushSigA
      else if text = pushedPackage.binaryB64 then .ok emptyWasm else markedBytes '=' text
    bs58Decode := fun text ↦
      if text = "AKnL4NNf3DGWZJS6cPknBuEGnVsV4A4m5tgebLHaRSZ9" then .ok keyA
      else markedBytes '0' text
    ed25519Verify := fun key data sig ↦
      (key, data, sig) == (keyA, serializeMessage pushedUnsigned.toJson, pushSigA) ||
        sig == List.replicate 64 0
    sha256Hex := fun bytes ↦
      if bytes = emptyWasm then pushedUnsigned.binarySha256Hex
      else "6e340b9cffb37a989ca544e6bb780a2c78901d3fb33738768511a30617afa01d"
    pushJson := fun unsigned ↦ serializeMessage unsigned.toJson }

/-- A node that trusts the first owner. -/
def trustingSite : Site :=
  { ownerPub := some "ed25519:AKnL4NNf3DGWZJS6cPknBuEGnVsV4A4m5tgebLHaRSZ9" }

/-- The text of some bytes stands for them. -/
theorem markedBytes_markedText (mark : Char) (bytes : Bytes) :
    markedBytes mark (markedText mark bytes) = .ok bytes := by
  have hbyte (b : UInt8) : UInt8.ofNat (Char.ofNat b.toNat).toNat = b := by
    have hall : ∀ n < 256, (Char.ofNat n).toNat = n := by decide +kernel
    rw [hall b.toNat b.toNat_lt, UInt8.ofNat_toNat]
  simp [markedBytes, markedText, hbyte, Function.comp_def]

/-- A text without the mark is no such text. -/
theorem markedText_ne {mark : Char} {text : String} (h : text.toList.head? ≠ some mark)
    (bytes : Bytes) : markedText mark bytes ≠ text := by
  rintro rfl
  exact h (by simp [markedText])

/-- The sample libraries fit together. -/
theorem pushLibraries_pushEnv : PushLibraries pushEnv.toExternals pushTools where
  json _ := rfl
  base64 bytes := by
    simp only [pushEnv, pushTools]
    split
    · next h => rw [h, if_pos rfl]
    · split
      · next h => rw [h, if_neg (by decide), if_pos rfl]
      · rw [if_neg (markedText_ne (by decide) bytes), if_neg (markedText_ne (by decide) bytes),
          markedBytes_markedText]
  bs58 bytes := by
    simp only [pushEnv, pushTools]
    split
    · next h => rw [h, if_pos rfl]
    · rw [if_neg (markedText_ne (by decide) bytes), markedBytes_markedText]
  hex text bytes h := by
    simp only [pushTools] at h
    split at h
    · next htext =>
      cases h
      rw [htext]
      have hplain : secretHexA.toList.all (fun c ↦ !Text.isWhitespace c) = true := by
        decide
      constructor
      · decide
      · intro c hc
        simpa using List.all_eq_true.mp hplain c hc
    · cases h
  key secret h := by
    simp only [pushTools]
    split
    · exact ⟨rfl, rfl⟩
    · exact ⟨h, rfl⟩
  sign secret data h := by
    simp only [pushEnv, pushTools]
    split
    · next hs =>
      rw [if_pos hs.1, hs.2]
      exact ⟨rfl, by simp⟩
    · exact ⟨rfl, by simp⟩

private theorem push_pushed : push pushEnv.toExternals pushTools
    ⟨pushedUnsigned.ownerPubBs58, secretHexA⟩ pushedUnsigned emptyWasm = .ok pushedPackage := by
  have hdigest : pushEnv.sha256Hex emptyWasm = pushedUnsigned.binarySha256Hex := by
    simp only [pushEnv, if_true]
  have hsecret : pushTools.hexDecode secretHexA = .ok secretA := by
    simp only [pushTools, if_true]
  have hsign : pushTools.sign secretA (serializeMessage pushedUnsigned.toJson) = pushSigA := by
    simp only [pushTools, and_self, if_true]
  have hunsigned : { pushedUnsigned with
      alg := "ed25519", ownerPubBs58 := pushedUnsigned.ownerPubBs58,
      binarySha256Hex := pushEnv.sha256Hex emptyWasm } = pushedUnsigned := by
    rw [hdigest]
    rfl
  have hbinary : pushTools.base64Encode emptyWasm = pushedPackage.binaryB64 := by decide
  have hsignature : pushTools.base64Encode pushSigA = pushedPackage.signatureB64 := by
    simp only [pushTools, if_true]
  rw [push]
  simp only [hunsigned, pushLibraries_pushEnv.json, hbinary]
  rw [sign_eq_ok pushLibraries_pushEnv hsecret rfl, hsign]
  simp only [bind, Except.bind, hsignature]
  rfl

/-- The key of the first owner, without its prefix. -/
theorem stripPrefix_ownerA :
    Text.stripPrefix "ed25519:" "ed25519:AKnL4NNf3DGWZJS6cPknBuEGnVsV4A4m5tgebLHaRSZ9" =
      some "AKnL4NNf3DGWZJS6cPknBuEGnVsV4A4m5tgebLHaRSZ9" := by
  have hcut : "ed25519:AKnL4NNf3DGWZJS6cPknBuEGnVsV4A4m5tgebLHaRSZ9" =
      "ed25519:" ++ "AKnL4NNf3DGWZJS6cPknBuEGnVsV4A4m5tgebLHaRSZ9" := by simp
  rw [hcut, Text.stripPrefix_append]

/-- The key pair of the first owner. -/
theorem fromPrivateHex_secretHexA : OwnerKeypair.fromPrivateHex pushTools secretHexA =
    .ok ⟨pushedUnsigned.ownerPubBs58, secretHexA⟩ := by
  decide

private theorem fits_pushedUnsigned : pushedUnsigned.Fits := by
  constructor <;> simp [pushedUnsigned]

private theorem data_of_verifies {data : Bytes}
    (h : verifies pushEnv.toExternals pushedUnsigned.ownerPubBs58 data pushSigA = true) :
    data = serializeMessage pushedUnsigned.toJson := by
  have htext : Text.stripPrefix "ed25519:" pushedUnsigned.ownerPubBs58 =
      some "AKnL4NNf3DGWZJS6cPknBuEGnVsV4A4m5tgebLHaRSZ9" := stripPrefix_ownerA
  have hkey : pushEnv.bs58Decode "AKnL4NNf3DGWZJS6cPknBuEGnVsV4A4m5tgebLHaRSZ9" = .ok keyA := by
    simp only [pushEnv, if_true]
  have hvalid : pushEnv.ed25519Verify keyA data pushSigA = true := by
    simp only [verifies, verifyBytesEd25519, htext, Option.getD_some, hkey] at h
    exact h
  have hzero : (pushSigA == List.replicate 64 0) = false := by decide
  simp only [pushEnv, hzero, Bool.or_false, beq_iff_eq, Prod.mk.injEq] at hvalid
  exact hvalid.2.1

/-- The push of the first owner is accepted, and the node has what the owner signed. -/
theorem push_authentic_web :
    push pushEnv.toExternals pushTools ⟨pushedUnsigned.ownerPubBs58, secretHexA⟩ pushedUnsigned
        emptyWasm = .ok pushedPackage ∧
      (handlePushPackage pushEnv trustingSite pushedPackage {}).2 = .accepted ∧
      Authentic pushEnv (· = serializeMessage pushedUnsigned.toJson) pushedUnsigned.ownerPubBs58
        trustingSite (handlePushPackage pushEnv trustingSite pushedPackage {}).1 pushedPackage := by
  have htrust : trustingSite.loadTrustedOwner = some pushedUnsigned.ownerPubBs58 := by
    decide
  have hpush := push_authentic pushLibraries_pushEnv {}
  obtain ⟨pkg, hpkg, harrives⟩ := hpush.1 secretHexA _ trustingSite pushedUnsigned emptyWasm
    fromPrivateHex_secretHexA htrust fits_pushedUnsigned
  rw [push_pushed] at hpkg
  cases hpkg
  have haccepted : (handlePushPackage pushEnv trustingSite pushedPackage {}).2 = .accepted :=
    harrives.accepted (by decide)
  have hresult (r : Site × PushPc) (h : r.2 = .accepted) : r = (r.1, .accepted) := by rw [← h]
  refine ⟨push_pushed, haccepted, ?_⟩
  refine hpush.2 _ (· = pushSigA) _ _ _ _ htrust ?_ ?_ fits_pushedUnsigned (hresult _ haccepted)
  · rintro data sig rfl hverify
    exact data_of_verifies hverify
  · intro sig hsig
    have hdecode : pushEnv.base64Decode pushedPackage.signatureB64 = .ok pushSigA := by
      simp only [pushEnv, if_true]
    rw [hdecode] at hsig
    exact (Except.ok.inj hsig).symm

/-- The node with a file of other bytes at the path of the component. -/
def occupiedSite : Site :=
  { trustingSite with
    artifacts := (∅ : Std.ExtTreeMap String Bytes).insert
      (Path.canonical (pushPath pushEnv pushedUnsigned)) [0] }

private theorem check_pushed {s : Site}
    (htrust : s.loadTrustedOwner = some pushedUnsigned.ownerPubBs58) :
    pushCheck pushEnv s pushedPackage = (s, .stage emptyWasm) := by
  obtain ⟨pkg, sig, hpkg, -, -, -, hcheck⟩ := push_passes pushLibraries_pushEnv
    fromPrivateHex_secretHexA htrust pushedUnsigned emptyWasm
  rw [push_pushed] at hpkg
  cases hpkg
  exact hcheck

/-- The owner's package is refused where the artifact directory cannot be made, and where other
bytes lie at the path it is accepted and they stay, with another digest than the signed one. -/
theorem push_depends_on_files :
    push pushEnv.toExternals pushTools ⟨pushedUnsigned.ownerPubBs58, secretHexA⟩ pushedUnsigned
        emptyWasm = .ok pushedPackage ∧
      trustingSite.loadTrustedOwner = some pushedUnsigned.ownerPubBs58 ∧
      (handlePushPackage pushEnv trustingSite pushedPackage
        { dirError := some "Permission denied (os error 13)" }).2 =
          .rejected (.io "Permission denied (os error 13)") ∧
      occupiedSite.loadTrustedOwner = some pushedUnsigned.ownerPubBs58 ∧
      (handlePushPackage pushEnv occupiedSite pushedPackage {}).2 = .accepted ∧
      (handlePushPackage pushEnv occupiedSite pushedPackage {}).1.artifacts[
        Path.canonical (pushPath pushEnv pushedUnsigned)]? = some [0] ∧
      pushEnv.sha256Hex [0] ≠ pushedUnsigned.binarySha256Hex := by
  have htrusting : trustingSite.loadTrustedOwner = some pushedUnsigned.ownerPubBs58 := by
    decide
  have hoccupied : occupiedSite.loadTrustedOwner = some pushedUnsigned.ownerPubBs58 := by
    decide
  have hdigest : pushEnv.sha256Hex emptyWasm = pushedPackage.unsigned.binarySha256Hex := by
    decide
  have hfile : occupiedSite.artifacts.contains
      (Path.canonical (pushPath pushEnv pushedPackage.unsigned)) = true := by decide
  have hfault : stageFault pushEnv occupiedSite pushedPackage.unsigned {} = none := by
    simp only [stageFault, hfile, if_true]
  refine ⟨push_pushed, htrusting, ?_, hoccupied, ?_, ?_, by decide⟩
  · rw [handle_of_stage _ (check_pushed htrusting) hdigest]
    rfl
  · rw [handle_of_stage _ (check_pushed hoccupied) hdigest, hfault]
  · rw [handle_of_stage _ (check_pushed hoccupied) hdigest, hfault]
    simp only [hfile, if_true, artifacts_scheduled]
    decide

end PeerDeploy.Deploy
