import PeerDeploy.Base.Base64
import PeerDeploy.Base.Serde
import PeerDeploy.Deploy.Authentic

/-!
# Invite tokens

What `invite` prints (`crates/agent/src/cmd/invite.rs:8–44`) and what `enroll` makes of it
(`crates/agent/src/cmd/enroll.rs:8–30`). The token is base64 of JSON around a signature over the
JSON of a part, which `enroll` encodes again. The installation that may follow is left out. A
token with half a surrogate pair, or with bytes that are no UTF-8, counts as refused even where
`serde_json` skips them, in a member that no type takes.
-/

namespace PeerDeploy.Deploy

open PeerDeploy.Common PeerDeploy.Base PeerDeploy.Base.Serde

/-- `crates/common/src/lib.rs:438–445`. -/
structure InviteUnsigned where
  alg : String
  ownerPubBs58 : String
  bootstrapMultiaddrs : List String
  realmId : Option String
  expUnix : Option UInt64
  deriving DecidableEq

/-- `crates/common/src/lib.rs:447–451`. -/
structure InviteToken where
  unsigned : InviteUnsigned
  signatureB64 : String
  deriving DecidableEq

namespace InviteUnsigned

/-- The fields in the order of their declaration. -/
def members (unsigned : InviteUnsigned) : List (String × Json) :=
  [("alg", .str unsigned.alg), ("owner_pub_bs58", .str unsigned.ownerPubBs58),
    ("bootstrap_multiaddrs", Json.list .str unsigned.bootstrapMultiaddrs),
    ("realm_id", Json.nullable .str unsigned.realmId),
    ("exp_unix", Json.nullable (fun n : UInt64 ↦ .num n.toNat) unsigned.expUnix)]

/-- The derived `Serialize`. -/
def toJson (unsigned : InviteUnsigned) : Json := .obj unsigned.members

/-- The derived `Deserialize`. -/
def ofJson : Json → Option InviteUnsigned :=
  record ["alg", "owner_pub_bs58", "bootstrap_multiaddrs", "realm_id", "exp_unix"] fun fields ↦ do
    let alg ← required Json.asText fields "alg"
    let ownerPubBs58 ← required Json.asText fields "owner_pub_bs58"
    let bootstrapMultiaddrs ← required (Json.asList Json.asText) fields "bootstrap_multiaddrs"
    let realmId ← optional Json.asText fields "realm_id"
    let expUnix ← optional (fun value ↦ (Json.asUnsigned 64 value).map UInt64.ofNat) fields
      "exp_unix"
    return { alg, ownerPubBs58, bootstrapMultiaddrs, realmId, expUnix }

/-- What an owner signs is read back, with every field. -/
theorem ofJson_toJson (unsigned : InviteUnsigned) : ofJson unsigned.toJson = some unsigned := by
  have hkeys : (unsigned.members.map Prod.fst).Nodup :=
    (by decide : ["alg", "owner_pub_bs58", "bootstrap_multiaddrs", "realm_id", "exp_unix"].Nodup)
  have htext (key text : String) (hmem : (key, Json.str text) ∈ unsigned.members) :
      required Json.asText (.named unsigned.members) key = some text :=
    required_member hkeys hmem rfl
  have haddrs : required (Json.asList Json.asText) (.named unsigned.members)
      "bootstrap_multiaddrs" = some unsigned.bootstrapMultiaddrs := by
    have hmem : ("bootstrap_multiaddrs", Json.list .str unsigned.bootstrapMultiaddrs) ∈
        unsigned.members := by simp [members]
    exact required_member hkeys hmem (Json.asList_texts _)
  have hrealm : optional Json.asText (.named unsigned.members) "realm_id" =
      some unsigned.realmId := by
    have hmem : ("realm_id", Json.nullable .str unsigned.realmId) ∈ unsigned.members := by
      simp [members]
    exact optional_member hkeys hmem (by simp) fun _ _ ↦ rfl
  have hexp : optional (fun value ↦ (Json.asUnsigned 64 value).map UInt64.ofNat)
      (.named unsigned.members) "exp_unix" = some unsigned.expUnix := by
    have hmem : ("exp_unix", Json.nullable (fun n : UInt64 ↦ .num n.toNat) unsigned.expUnix) ∈
        unsigned.members := by simp [members]
    apply optional_member hkeys hmem (by simp)
    intro n _
    rw [Json.asUnsigned_num n.toNat_lt, Option.map_some, UInt64.ofNat_toNat]
  rw [toJson, ofJson, record, htext "alg" unsigned.alg (by simp [members]),
    htext "owner_pub_bs58" unsigned.ownerPubBs58 (by simp [members]), haddrs, hrealm, hexp]
  rfl

/-- The signed bytes determine every field. -/
theorem eq_of_serializeMessage_eq {a b : InviteUnsigned}
    (h : serializeMessage a.toJson = serializeMessage b.toJson) : a = b := by
  have hjson := deserializeMessage_serializeMessage a.toJson
  rw [h, deserializeMessage_serializeMessage] at hjson
  have hread := ofJson_toJson a
  rw [← Option.some.inj hjson, ofJson_toJson b] at hread
  exact (Option.some.inj hread).symm

end InviteUnsigned

namespace InviteToken

/-- The fields in the order of their declaration. -/
def members (token : InviteToken) : List (String × Json) :=
  [("unsigned", token.unsigned.toJson), ("signature_b64", .str token.signatureB64)]

/-- The derived `Serialize`. -/
def toJson (token : InviteToken) : Json := .obj token.members

/-- The derived `Deserialize`. -/
def ofJson : Json → Option InviteToken :=
  record ["unsigned", "signature_b64"] fun fields ↦ do
    let unsigned ← required InviteUnsigned.ofJson fields "unsigned"
    let signatureB64 ← required Json.asText fields "signature_b64"
    return { unsigned, signatureB64 }

/-- A token is read back. -/
theorem ofJson_toJson (token : InviteToken) : ofJson token.toJson = some token := by
  have hkeys : (token.members.map Prod.fst).Nodup :=
    (by decide : ["unsigned", "signature_b64"].Nodup)
  have hunsigned : required InviteUnsigned.ofJson (.named token.members) "unsigned" =
      some token.unsigned := by
    have hmem : ("unsigned", token.unsigned.toJson) ∈ token.members := by simp [members]
    exact required_member hkeys hmem token.unsigned.ofJson_toJson
  have hsignature : required Json.asText (.named token.members) "signature_b64" =
      some token.signatureB64 := by
    have hmem : ("signature_b64", Json.str token.signatureB64) ∈ token.members := by
      simp [members]
    exact required_member hkeys hmem rfl
  rw [toJson, ofJson, record, hunsigned, hsignature]
  rfl

end InviteToken

/-! ### The commands -/

/-- The expiry of an invite, which wraps in a release build;
`crates/agent/src/cmd/invite.rs:19–26`. -/
def inviteExpiry (now expMins : UInt64) : Option UInt64 :=
  if expMins = 0 then none else some (now + expMins * 60)

/-- The token text for an owner's key pair, once the expiry is known;
`crates/agent/src/cmd/invite.rs:27–42`. -/
def invite (y : OwnerTools) (kp : OwnerKeypair) (bootstrap : List String)
    (realmId : Option String) (expUnix : Option UInt64) : Except String String := do
  let unsigned : InviteUnsigned :=
    { alg := "ed25519", ownerPubBs58 := kp.publicBs58, bootstrapMultiaddrs := bootstrap,
      realmId, expUnix }
  let sig ← signBytesEd25519 y kp.privateHex (serializeMessage unsigned.toJson)
  let token : InviteToken := { unsigned, signatureB64 := y.base64Encode sig }
  return y.base64Encode (serializeMessage token.toJson)

/-- The checks of `enroll`; `crates/agent/src/cmd/enroll.rs:9–27`. -/
def checkInvite (x : Externals) (tokenB64 : String) (now : UInt64) :
    Except String InviteToken := do
  let tokenBytes ← x.base64Decode tokenB64
  let some token := (deserializeMessage tokenBytes).bind InviteToken.ofJson
    | throw "invalid token"
  let sig ← x.base64Decode token.signatureB64
  let ok ← verifyBytesEd25519 x token.unsigned.ownerPubBs58
    (serializeMessage token.unsigned.toJson) sig
  if !ok then throw "invalid invite signature"
  if let some exp := token.unsigned.expUnix then
    if exp < now then throw "invite token expired"
  return token

/-- What an enrolment leaves in the agent's data directory. -/
structure EnrolledData where
  ownerPub : Option Bytes := none
  bootstrapJson : Option Bytes := none

/-- The clock at an enrolment, and the errors of making or writing its two files. -/
structure EnrollInput where
  now : UInt64
  ownerError : Option String := none
  bootstrapError : Option String := none

/-- `crates/agent/src/cmd/enroll.rs:8–30`, with `write_trusted_owner` and `write_bootstrap` of
`crates/agent/src/cmd/util.rs:26–31,42–48`. -/
def enroll (x : Externals) (d : EnrolledData) (tokenB64 : String) (input : EnrollInput) :
    EnrolledData × Except String Unit :=
  match checkInvite x tokenB64 input.now with
  | .error e => (d, .error e)
  | .ok token =>
    match input.ownerError with
    | some e => (d, .error e)
    | none =>
      let d := { d with ownerPub := some (asBytes token.unsigned.ownerPubBs58) }
      match input.bootstrapError with
      | some e => (d, .error e)
      | none =>
        let bytes := asBytes (String.ofList (Json.prettyTexts token.unsigned.bootstrapMultiaddrs))
        ({ d with bootstrapJson := some bytes }, .ok ())

/-- `crates/agent/src/cmd/util.rs:50–59`. -/
def readBootstrap (d : EnrolledData) : List String :=
  match d.bootstrapJson with
  | some bytes => ((deserializeMessage bytes).bind (Json.asList Json.asText)).getD []
  | none => []

/-- The token in a text. -/
def inviteToken (x : Externals) (tokenB64 : String) : Option InviteToken :=
  (x.base64Decode tokenB64).toOption.bind fun bytes ↦
    (deserializeMessage bytes).bind InviteToken.ofJson

/-! ### What holds of them -/

/-- The text of an invite whose part could be signed. -/
theorem invite_eq_ok {y : OwnerTools} (kp : OwnerKeypair) {bootstrap : List String}
    {realmId : Option String} {expUnix : Option UInt64} {sig : Bytes}
    (h : signBytesEd25519 y kp.privateHex (serializeMessage
      (InviteUnsigned.mk "ed25519" kp.publicBs58 bootstrap realmId expUnix).toJson) = .ok sig) :
    invite y kp bootstrap realmId expUnix = .ok (y.base64Encode (serializeMessage
      (InviteToken.mk (.mk "ed25519" kp.publicBs58 bootstrap realmId expUnix)
        (y.base64Encode sig)).toJson)) := by
  simp only [invite, h, bind, Except.bind]
  rfl

/-- The token that was encoded is in the text. -/
theorem inviteToken_of_decode {x : Externals} {tokenB64 : String} {token : InviteToken}
    (h : x.base64Decode tokenB64 = .ok (serializeMessage token.toJson)) :
    inviteToken x tokenB64 = some token := by
  simp only [inviteToken, h, Except.toOption, Option.bind_some,
    deserializeMessage_serializeMessage, InviteToken.ofJson_toJson]

-- What was encoded passes the checks exactly when its signature verifies and it has not expired.
private theorem checkInvite_eq {x : Externals} {tokenB64 : String} {bytes sig : Bytes}
    {token : InviteToken} (hbytes : x.base64Decode tokenB64 = .ok bytes)
    (htoken : (deserializeMessage bytes).bind InviteToken.ofJson = some token)
    (hsig : x.base64Decode token.signatureB64 = .ok sig)
    (hverify : verifyBytesEd25519 x token.unsigned.ownerPubBs58
      (serializeMessage token.unsigned.toJson) sig = .ok true) (now : UInt64) :
    checkInvite x tokenB64 now =
      if (token.unsigned.expUnix.all fun exp ↦ now ≤ exp) = true then .ok token
      else .error "invite token expired" := by
  unfold checkInvite
  simp only [hbytes, htoken, hsig, hverify, bind, Except.bind]
  cases hexp : token.unsigned.expUnix with
  | none => simp [pure, Except.pure]
  | some exp =>
    by_cases hlate : exp < now
    · have hnot : ¬ now ≤ exp := UInt64.not_le.mpr hlate
      simp [hlate, hnot, throw, throwThe, MonadExceptOf.throw]
    · have hle : now ≤ exp := UInt64.not_lt.mp hlate
      simp [hlate, hle, pure, Except.pure]

private theorem verifies_of_checkInvite {x : Externals} {tokenB64 : String} {now : UInt64}
    {token : InviteToken} (h : checkInvite x tokenB64 now = .ok token) :
    inviteToken x tokenB64 = some token ∧ ∃ sig, x.base64Decode token.signatureB64 = .ok sig ∧
      verifies x token.unsigned.ownerPubBs58 (serializeMessage token.unsigned.toJson) sig = true := by
  have hfails {e : String} (hother : checkInvite x tokenB64 now = .error e) : False := by
    rw [hother] at h
    cases h
  cases hbytes : x.base64Decode tokenB64 with
  | error e => exact (hfails (e := e) (by simp [checkInvite, hbytes, bind, Except.bind])).elim
  | ok bytes =>
    cases hread : (deserializeMessage bytes).bind InviteToken.ofJson with
    | none =>
      exact (hfails (e := "invalid token") (by
        simp [checkInvite, hbytes, hread, bind, Except.bind, throw, throwThe,
          MonadExceptOf.throw])).elim
    | some read =>
      cases hsig : x.base64Decode read.signatureB64 with
      | error e =>
        exact (hfails (e := e) (by simp [checkInvite, hbytes, hread, hsig, bind, Except.bind])).elim
      | ok sig =>
        cases hverify : verifyBytesEd25519 x read.unsigned.ownerPubBs58
            (serializeMessage read.unsigned.toJson) sig with
        | error e =>
          exact (hfails (e := e) (by
            simp [checkInvite, hbytes, hread, hsig, hverify, bind, Except.bind])).elim
        | ok valid =>
          cases valid with
          | false =>
            exact (hfails (e := "invalid invite signature") (by
              simp [checkInvite, hbytes, hread, hsig, hverify, bind, Except.bind, throw, throwThe,
                MonadExceptOf.throw])).elim
          | true =>
            rw [checkInvite_eq hbytes hread hsig hverify] at h
            split at h
            · cases h
              refine ⟨?_, sig, hsig, ?_⟩
              · rw [inviteToken, hbytes]
                exact hread
              · rw [verifies, hverify]
            · cases h

private theorem enroll_eq_ok {x : Externals} {d : EnrolledData} {tokenB64 : String}
    {input : EnrollInput} (h : (enroll x d tokenB64 input).2 = .ok ()) :
    ∃ token, checkInvite x tokenB64 input.now = .ok token := by
  unfold enroll at h
  split at h
  · cases h
  · next token htoken => exact ⟨token, htoken⟩

private theorem readBootstrap_pretty (ownerPub : Option Bytes) (addrs : List String) :
    readBootstrap ⟨ownerPub, some (asBytes (String.ofList (Json.prettyTexts addrs)))⟩ = addrs := by
  have hread : deserializeMessage (asBytes (String.ofList (Json.prettyTexts addrs))) =
      some (Json.list .str addrs) := by
    rw [deserializeMessage, fromUTF8_asBytes, Option.bind_some, String.toList_ofList,
      Json.parse_prettyTexts]
    rfl
  simp only [readBootstrap, hread, Option.bind_some, Json.asList_texts, Option.getD_some]

/-- What an invite promises at an enrolment whose files can be written. -/
structure Enrols (x : Externals) (owner : String) (bootstrap : List String)
    (expUnix : Option UInt64) (tokenB64 : String) (d : EnrolledData) (now : UInt64) : Prop where
  accepted : (enroll x d tokenB64 { now }).2 = .ok () ↔ ∀ exp ∈ expUnix, now ≤ exp
  ownerPub : (enroll x d tokenB64 { now }).2 = .ok () →
    (enroll x d tokenB64 { now }).1.ownerPub = some (asBytes owner)
  bootstrap : (enroll x d tokenB64 { now }).2 = .ok () →
    readBootstrap (enroll x d tokenB64 { now }).1 = bootstrap

/-- What a token promises that carries the key of an owner: the owner signed its fields, and no
others with the same bytes. -/
structure Signed (signed : Bytes → Prop) (token : InviteToken) : Prop where
  bytes : signed (serializeMessage token.unsigned.toJson)
  exact : ∀ unsigned : InviteUnsigned,
    serializeMessage unsigned.toJson = serializeMessage token.unsigned.toJson →
      unsigned = token.unsigned

/-- An invite enrols until it expires, with the key and the addresses that went in; and a token
that enrols with an owner's key has the fields that this owner signed. -/
theorem invite_enrols {x : Externals} {y : OwnerTools} (hlib : PushLibraries x y) :
    (∀ (hexStr : String) (kp : OwnerKeypair) (bootstrap : List String) (realmId : Option String)
      (expUnix : Option UInt64), OwnerKeypair.fromPrivateHex y hexStr = .ok kp →
        ∃ tokenB64, invite y kp bootstrap realmId expUnix = .ok tokenB64 ∧
          ∀ d now, Enrols x kp.publicBs58 bootstrap expUnix tokenB64 d now) ∧
    (∀ (owner : String) (circulating signed : Bytes → Prop) (d : EnrolledData)
      (tokenB64 : String) (input : EnrollInput), Unforgeable x owner circulating signed →
        (enroll x d tokenB64 input).2 = .ok () →
        ∃ token, inviteToken x tokenB64 = some token ∧
          ((∀ sig, x.base64Decode token.signatureB64 = .ok sig → circulating sig) →
            token.unsigned.ownerPubBs58 = owner → Signed signed token)) := by
  constructor
  · intro hexStr kp bootstrap realmId expUnix hkp
    obtain ⟨secret, hsecret, hlen, rfl⟩ := fromPrivateHex_eq_ok hkp
    set unsigned : InviteUnsigned :=
      { alg := "ed25519", ownerPubBs58 := "ed25519:" ++ y.bs58Encode (y.verifyingKey secret),
        bootstrapMultiaddrs := bootstrap, realmId, expUnix } with hunsigned
    set token : InviteToken :=
      ⟨unsigned, y.base64Encode (y.sign secret (serializeMessage unsigned.toJson))⟩ with htoken
    refine ⟨y.base64Encode (serializeMessage token.toJson), ?_, fun d now ↦ ?_⟩
    · exact invite_eq_ok _ (sign_eq_ok hlib hsecret hlen (serializeMessage unsigned.toJson))
    · have hread : (deserializeMessage (serializeMessage token.toJson)).bind InviteToken.ofJson =
          some token := by
        rw [deserializeMessage_serializeMessage, Option.bind_some, InviteToken.ofJson_toJson]
      have hcheck := checkInvite_eq (hlib.base64 _) hread (hlib.base64 _)
        (verify_eq_ok hlib hlen (serializeMessage unsigned.toJson)) now
      by_cases hvalid : ∀ exp ∈ expUnix, now ≤ exp
      · rw [if_pos (by simpa [Option.all_eq_true] using hvalid)] at hcheck
        have henroll : enroll x d (y.base64Encode (serializeMessage token.toJson)) { now } =
            (⟨some (asBytes unsigned.ownerPubBs58),
              some (asBytes (String.ofList (Json.prettyTexts bootstrap)))⟩, .ok ()) := by
          simp only [enroll, hcheck]
          rfl
        exact {
          accepted := iff_of_true (by rw [henroll]) hvalid
          ownerPub := fun _ ↦ by rw [henroll]
          bootstrap := fun _ ↦ by rw [henroll, readBootstrap_pretty] }
      · rw [if_neg (by simpa [Option.all_eq_true] using hvalid)] at hcheck
        have henroll : enroll x d (y.base64Encode (serializeMessage token.toJson)) { now } =
            (d, .error "invite token expired") := by
          simp only [enroll, hcheck]
        have hrefused : (enroll x d (y.base64Encode (serializeMessage token.toJson)) { now }).2 ≠
            .ok () := by
          rw [henroll]
          intro hok
          cases hok
        exact {
          accepted := iff_of_false hrefused hvalid
          ownerPub := fun hok ↦ absurd hok hrefused
          bootstrap := fun hok ↦ absurd hok hrefused }
  · intro owner circulating signed d tokenB64 input hunforgeable h
    obtain ⟨token, hcheck⟩ := enroll_eq_ok h
    obtain ⟨hread, sig, hsig, hverifies⟩ := verifies_of_checkInvite hcheck
    refine ⟨token, hread, fun hcirculating howner ↦ ?_⟩
    rw [howner] at hverifies
    exact {
      bytes := hunforgeable _ sig (hcirculating sig hsig) hverifies
      exact := fun unsigned hbytes ↦ InviteUnsigned.eq_of_serializeMessage_eq hbytes }

/-! ### An invite to one address -/

/-- What the first owner signs for ten minutes. -/
def homeUnsigned : InviteUnsigned where
  alg := "ed25519"
  ownerPubBs58 := "ed25519:AKnL4NNf3DGWZJS6cPknBuEGnVsV4A4m5tgebLHaRSZ9"
  bootstrapMultiaddrs := ["/ip4/10.0.0.1/udp/4001/quic-v1"]
  realmId := some "home"
  expUnix := inviteExpiry 1700000000 10

/-- The signature of the first owner on it. -/
def homeSig : Bytes :=
  [157, 207, 43, 14, 98, 209, 181, 73, 83, 32, 64, 201, 35, 157, 222, 28, 244, 96, 236, 64, 158,
    189, 56, 157, 19, 218, 209, 41, 54, 223, 55, 138, 27, 39, 141, 127, 186, 58, 159, 181, 61, 178,
    163, 209, 110, 228, 178, 128, 248, 114, 145, 241, 15, 197, 46, 39, 48, 229, 207, 197, 207, 70,
    194, 0]

/-- The token. -/
def homeToken : InviteToken where
  unsigned := homeUnsigned
  signatureB64 := Base64.encode homeSig

/-- Its text. -/
def homeInvite : String := Base64.encode (serializeMessage homeToken.toJson)

/-- The owner's libraries on the inputs of the invite. -/
def inviteTools : OwnerTools :=
  { pushTools with
    sign := fun secret data ↦
      if secret = secretA ∧ data = serializeMessage homeUnsigned.toJson then homeSig
      else List.replicate 64 0
    base64Encode := Base64.encode }

/-- The libraries of the agent that enrols. -/
def inviteEnv : Env :=
  { pushEnv with
    base64Decode := fun text ↦ match Base64.decode text with
      | some bytes => .ok bytes
      | none => .error "Invalid symbol"
    ed25519Verify := fun key data sig ↦
      (key, data, sig) == (keyA, serializeMessage homeUnsigned.toJson, homeSig) ||
        sig == List.replicate 64 0 }

private theorem pushLibraries_inviteEnv : PushLibraries inviteEnv.toExternals inviteTools where
  json := pushLibraries_pushEnv.json
  base64 bytes := by
    simp only [inviteEnv, inviteTools, Base64.decode_encode]
  bs58 := pushLibraries_pushEnv.bs58
  hex := pushLibraries_pushEnv.hex
  key := pushLibraries_pushEnv.key
  sign secret data h := by
    simp only [inviteEnv, inviteTools, pushTools]
    split
    · next hs =>
      rw [if_pos hs.1, hs.2]
      exact ⟨rfl, by simp⟩
    · exact ⟨rfl, by simp⟩

private theorem invite_home : invite inviteTools ⟨homeUnsigned.ownerPubBs58, secretHexA⟩
    homeUnsigned.bootstrapMultiaddrs homeUnsigned.realmId homeUnsigned.expUnix =
      .ok homeInvite := by
  have hsecret : inviteTools.hexDecode secretHexA = .ok secretA := by
    simp only [inviteTools, pushTools, if_true]
  have hsign : inviteTools.sign secretA (serializeMessage homeUnsigned.toJson) = homeSig := by
    simp only [inviteTools, and_self, if_true]
  have hsigned := sign_eq_ok pushLibraries_inviteEnv hsecret rfl
    (serializeMessage homeUnsigned.toJson)
  rw [hsign] at hsigned
  exact invite_eq_ok ⟨homeUnsigned.ownerPubBs58, secretHexA⟩ hsigned

private theorem homeData_of_verifies {data : Bytes}
    (h : verifies inviteEnv.toExternals homeUnsigned.ownerPubBs58 data homeSig = true) :
    data = serializeMessage homeUnsigned.toJson := by
  have htext : Text.stripPrefix "ed25519:" homeUnsigned.ownerPubBs58 =
      some "AKnL4NNf3DGWZJS6cPknBuEGnVsV4A4m5tgebLHaRSZ9" := stripPrefix_ownerA
  have hkey : inviteEnv.bs58Decode "AKnL4NNf3DGWZJS6cPknBuEGnVsV4A4m5tgebLHaRSZ9" = .ok keyA := by
    simp only [inviteEnv, pushEnv, if_true]
  have hvalid : inviteEnv.ed25519Verify keyA data homeSig = true := by
    simp only [verifies, verifyBytesEd25519, htext, Option.getD_some, hkey] at h
    exact h
  have hzero : (homeSig == List.replicate 64 0) = false := by decide
  simp only [inviteEnv, hzero, Bool.or_false, beq_iff_eq, Prod.mk.injEq] at hvalid
  exact hvalid.2.1

/-- The invite enrols in the second at which it expires, and carries what the owner signed. -/
theorem invite_enrols_home :
    invite inviteTools ⟨homeUnsigned.ownerPubBs58, secretHexA⟩ homeUnsigned.bootstrapMultiaddrs
        homeUnsigned.realmId homeUnsigned.expUnix = .ok homeInvite ∧
      Enrols inviteEnv.toExternals homeUnsigned.ownerPubBs58 homeUnsigned.bootstrapMultiaddrs
        homeUnsigned.expUnix homeInvite {} 1700000600 ∧
      Signed (· = serializeMessage homeUnsigned.toJson) homeToken := by
  have henrols := invite_enrols pushLibraries_inviteEnv
  have hkp : OwnerKeypair.fromPrivateHex inviteTools secretHexA =
      .ok ⟨homeUnsigned.ownerPubBs58, secretHexA⟩ := by
    have hsame : OwnerKeypair.fromPrivateHex inviteTools secretHexA =
        OwnerKeypair.fromPrivateHex pushTools secretHexA := by
      simp only [OwnerKeypair.fromPrivateHex, inviteTools]
    rw [hsame, fromPrivateHex_secretHexA]
    rfl
  obtain ⟨tokenB64, hinvite, hhome⟩ := henrols.1 secretHexA _ homeUnsigned.bootstrapMultiaddrs
    homeUnsigned.realmId homeUnsigned.expUnix hkp
  have htext : tokenB64 = homeInvite := Except.ok.inj (hinvite.symm.trans invite_home)
  rw [htext] at hhome
  refine ⟨invite_home, hhome {} 1700000600, ?_⟩
  have hexpiry : homeUnsigned.expUnix = some 1700000600 := rfl
  have hintime : ∀ exp ∈ homeUnsigned.expUnix, (1700000600 : UInt64) ≤ exp := by
    intro exp hexp
    obtain rfl := Option.some.inj (hexpiry.symm.trans hexp)
    exact UInt64.le_refl _
  have haccepted := (hhome {} 1700000600).accepted.mpr hintime
  have hunforgeable : Unforgeable inviteEnv.toExternals homeUnsigned.ownerPubBs58 (· = homeSig)
      (· = serializeMessage homeUnsigned.toJson) := by
    rintro data sig rfl hverify
    exact homeData_of_verifies hverify
  obtain ⟨token, htoken, hsigned⟩ :=
    henrols.2 homeUnsigned.ownerPubBs58 (· = homeSig) (· = serializeMessage homeUnsigned.toJson) {}
      homeInvite { now := 1700000600 } hunforgeable haccepted
  have hdecode (bytes : Bytes) : inviteEnv.base64Decode (Base64.encode bytes) = .ok bytes :=
    pushLibraries_inviteEnv.base64 bytes
  have hbytes : inviteEnv.base64Decode homeInvite = .ok (serializeMessage homeToken.toJson) := by
    rw [homeInvite]
    exact hdecode _
  have hhomeToken := inviteToken_of_decode (x := inviteEnv.toExternals) hbytes
  obtain rfl : homeToken = token := Option.some.inj (hhomeToken.symm.trans htoken)
  have hsignature : ∀ sig, inviteEnv.base64Decode homeToken.signatureB64 = .ok sig →
      sig = homeSig := fun sig hsig ↦ (Except.ok.inj ((hdecode homeSig).symm.trans hsig)).symm
  have howner : homeToken.unsigned.ownerPubBs58 = homeUnsigned.ownerPubBs58 := by rw [homeToken]
  exact hsigned hsignature howner

end PeerDeploy.Deploy
