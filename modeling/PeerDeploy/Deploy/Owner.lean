import PeerDeploy.Deploy.Node

/-!
# Trust on first use

Three handlers load the trusted owner, compare it and save it if there is none
(`apply.rs:42–50`, `upgrade.rs:48–64`, `push.rs:93–115` below
`crates/agent/src/p2p/handlers`). Two do so without a suspension; the upgrade handler writes
a log line between finding no owner and saving its own.
-/

namespace PeerDeploy.Deploy

open PeerDeploy.Common PeerDeploy.Base

/-- An owner trusted in `node` is trusted in `d`. -/
def OwnerKept (node d : Node) : Prop :=
  ∀ owner, node.site.loadTrustedOwner = some owner → d.site.loadTrustedOwner = some owner

/-- In the step from `node` to `d` the `k`-th handler, whose message names the owner, gets past
its owner check. -/
inductive GetsPast (node d : Node) (k : Nat) : String → Prop where
  | apply {task next : ApplyTask} (htask : node.tasks[k]? = some (.apply task))
    (hpc : task.pc = .check) (hnext : d.tasks[k]? = some (.apply next))
    (hpast : next.pc.staging = true) : GetsPast node d k task.signed.ownerPubBs58
  | upgrade {task next : UpgradeTask} (htask : node.tasks[k]? = some (.upgrade task))
    (hpc : task.pc = .check) (hnext : d.tasks[k]? = some (.upgrade next))
    (hpast : next.pc = .sniff) : GetsPast node d k task.pkg.ownerPubBs58
  | trusting {task : UpgradeTask} (htask : node.tasks[k]? = some (.upgrade task))
    (hpc : task.pc = .trusting) : GetsPast node d k task.pkg.ownerPubBs58
  | push {task next : PushTask} {bytes : Bytes} (htask : node.tasks[k]? = some (.push task))
    (hpc : task.pc = .check) (hnext : d.tasks[k]? = some (.push next))
    (hpast : next.pc = .stage bytes) : GetsPast node d k task.pkg.unsigned.ownerPubBs58

/-- While an owner is trusted, only handlers of its messages get past their owner check. -/
def OnlyOwnerPasses (x : Env) (node : Node) (event : Event) : Prop :=
  ∀ k input d owner, event = .advance k input → step x node event = some d →
    GetsPast node d k owner → ∀ trusted, node.site.loadTrustedOwner = some trusted →
      owner = trusted

/-- An upgrade handler that goes on to save the first owner does not find another one. -/
def FirstOwnerStands (node : Node) : Event → Prop
  | .advance k _ => ∀ task, node.tasks[k]? = some (.upgrade task) → task.pc = .trusting →
    ∀ trusted, node.site.loadTrustedOwner = some trusted → task.pkg.ownerPubBs58 = trusted
  | _ => True

/-! ### The owner along a step -/

/-- Only the owner file decides who is trusted. -/
theorem loadTrustedOwner_congr {s t : Site} (h : t.ownerPub = s.ownerPub) :
    t.loadTrustedOwner = s.loadTrustedOwner := by
  unfold Site.loadTrustedOwner
  rw [h]

private theorem kept_of_trusts {s t : Site} {owner trusted : String} (h : s.Trusts t owner)
    (ht : s.loadTrustedOwner = some trusted) :
    t.loadTrustedOwner = some trusted ∧ owner = trusted := by
  rcases h with ⟨howner, rfl⟩ | ⟨hnone, -⟩
  · rw [ht] at howner
    exact ⟨ht, (Option.some.inj howner).symm⟩
  · rw [ht] at hnone
    cases hnone

/-- Only an upgrade handler that goes on to save the first owner can replace a trusted one. -/
theorem ownerKept_of_moves {x : Env} {node d : Node} {event : Event}
    (h : Moves x node event d) (hstands : FirstOwnerStands node event) : OwnerKept node d := by
  intro owner howner
  cases h with
  | spawned _ => exact howner
  | ignored _ => exact howner
  | roles hsite =>
    rcases hsite with rfl | rfl
    · exact howner
    · exact howner
  | @apply k input task site pc accepted htask hmoves =>
    change site.loadTrustedOwner = some owner
    cases hmoves with
    | refused hpc htrust =>
      rcases htrust with hkeeps | ⟨u, -, htrust, hkeeps⟩
      · rw [loadTrustedOwner_congr hkeeps.ownerPub, howner]
      · rw [loadTrustedOwner_congr hkeeps.ownerPub]
        exact (kept_of_trusts htrust howner).1
    | checked _ _ htrust _ _ => exact (kept_of_trusts htrust howner).1
    | staged _ hkeeps _ => rw [loadTrustedOwner_congr hkeeps.ownerPub, howner]
    | persisted _ hown _ _ => rw [loadTrustedOwner_congr hown, howner]
    | installed _ hkeeps => rw [loadTrustedOwner_congr hkeeps.ownerPub, howner]
    | committed _ hown _ _ => rw [loadTrustedOwner_congr hown, howner]
  | @upgrade k input task site pc mark htask hmoves =>
    have hsite : ((node.resume k site (.upgrade { task with pc })).mark k task.pkg mark).site =
        site := Node.site_mark ..
    rw [hsite]
    cases hmoves with
    | refused _ hkeeps => rw [loadTrustedOwner_congr hkeeps.ownerPub, howner]
    | trusted hpc hkeeps _ =>
      have hown := hstands task htask hpc owner howner
      rw [loadTrustedOwner_congr hkeeps.ownerPub, hown]
      exact loadTrustedOwner_saveTrustedOwner howner
    | wrote _ hkeeps => rw [loadTrustedOwner_congr hkeeps.ownerPub, howner]
    | linked _ hkeeps => rw [loadTrustedOwner_congr hkeeps.ownerPub, howner]
    | committed _ hown _ _ => rw [loadTrustedOwner_congr hown, howner]
    | restored _ hown _ _ => rw [loadTrustedOwner_congr hown, howner]
    | _ => exact howner
  | @push k input task site pc htask hmoves =>
    change site.loadTrustedOwner = some owner
    cases hmoves with
    | refused => exact howner
    | checked _ htrust => exact (kept_of_trusts htrust howner).1
    | worked _ hkeeps _ => rw [loadTrustedOwner_congr hkeeps.ownerPub, howner]
    | persisted _ hown _ => rw [loadTrustedOwner_congr hown, howner]

private theorem onlyOwnerPasses_of_stands {x : Env} {node : Node} {event : Event}
    (hstands : FirstOwnerStands node event) : OnlyOwnerPasses x node event := by
  rintro k input d owner rfl hstep hpast trusted ht
  have hmove := moves_of_step hstep
  cases hpast with
  | @apply task next htask hpc hnext hstaging =>
    cases hmove with
    | spawned hspawns => exact hspawns.elim
    | ignored hevent => cases hevent
    | @apply _ _ task' site pc accepted htask' hmoves =>
      rw [htask] at htask'
      cases htask'
      have hget := getElem?_resume site (.apply { task with pc }) htask
      change (node.resume k site (.apply { task with pc })).tasks[k]? = _ at hnext
      rw [hget] at hnext
      cases hnext
      cases hmoves with
      | checked _ _ htrust _ _ => exact (kept_of_trusts htrust ht).2
      | staged hpc' _ _ =>
        rw [hpc] at hpc'
        cases hpc'
      | _ => cases hstaging
    | upgrade htask' _ =>
      rw [htask] at htask'
      cases htask'
    | push htask' _ =>
      rw [htask] at htask'
      cases htask'
  | @upgrade task next htask hpc hnext hsniff =>
    cases hmove with
    | spawned hspawns => exact hspawns.elim
    | ignored hevent => cases hevent
    | apply htask' _ =>
      rw [htask] at htask'
      cases htask'
    | @upgrade _ _ task' site pc mark htask' hmoves =>
      rw [htask] at htask'
      cases htask'
      have hget := getElem?_resume site (.upgrade { task with pc }) htask
      cases hmoves with
      | checked _ _ howner =>
        rw [ht] at howner
        exact (Option.some.inj howner).symm
      | suspended _ _ howner =>
        rw [ht] at howner
        cases howner
      | refused _ _ =>
        simp only [Node.mark, hget] at hnext
        cases hnext
        cases hsniff
      | _ hpc' =>
        rw [hpc] at hpc'
        cases hpc'
    | push htask' _ =>
      rw [htask] at htask'
      cases htask'
  | @trusting task htask hpc => exact hstands task htask hpc trusted ht
  | @push task next bytes htask hpc hnext hstage =>
    cases hmove with
    | spawned hspawns => exact hspawns.elim
    | ignored hevent => cases hevent
    | apply htask' _ =>
      rw [htask] at htask'
      cases htask'
    | upgrade htask' _ =>
      rw [htask] at htask'
      cases htask'
    | @push _ _ task' site pc htask' hmoves =>
      rw [htask] at htask'
      cases htask'
      have hget := getElem?_resume site (.push { task with pc }) htask
      rw [hget] at hnext
      cases hnext
      cases hmoves with
      | refused => cases hstage
      | checked _ htrust => exact (kept_of_trusts htrust ht).2
      | worked hpc' _ _ => exact absurd hpc hpc'
      | persisted hpc' _ _ => exact absurd hpc hpc'

private theorem stands_of_onlyOwnerPasses {x : Env} {node : Node} {event : Event}
    (h : OnlyOwnerPasses x node event) : FirstOwnerStands node event := by
  cases event with
  | advance k input =>
    intro task htask hpc trusted ht
    have hstep : ∃ d, step x node (.advance k input) = some d := by
      simp [step, Node.advance, htask, UpgradeTask.advance, hpc]
    obtain ⟨d, hd⟩ := hstep
    exact h k input d _ rfl hd (.trusting htask hpc) trusted ht
  | _ => trivial

/-! ### Over whole runs -/

/-- In a run of any handlers, whatever owners their messages name, a trusted owner stays
trusted for ever and only its messages get past their owner check, exactly when no upgrade
handler that goes on to save the first owner finds another one. -/
theorem trust_once_iff (x : Env) (node : Node) (events : List Event) :
    Along (step x) OwnerKept node events ∧ StepsMeet (step x) (OnlyOwnerPasses x) node events ↔
      StepsMeet (step x) FirstOwnerStands node events := by
  rw [along_iff (fun _ _ h ↦ h) (fun _ _ _ hst htu owner h ↦ htu owner (hst owner h)),
    ← stepsMeet_and]
  apply stepsMeet_congr
  intro s event
  constructor
  · rintro ⟨-, h⟩
    exact stands_of_onlyOwnerPasses h
  · intro h
    exact ⟨fun d hd ↦ ownerKept_of_moves (moves_of_step hd) h, onlyOwnerPasses_of_stands h⟩

/-! ### Two owners who race -/

/-- The public key of a first owner. -/
def keyA : Bytes :=
  [138, 136, 227, 221, 116, 9, 241, 149, 253, 82, 219, 45, 60, 186, 93, 114, 202, 103, 9, 191,
    29, 148, 18, 27, 243, 116, 136, 1, 180, 15, 111, 92]

/-- The public key of a second owner. -/
def keyB : Bytes :=
  [129, 57, 119, 14, 168, 125, 23, 95, 86, 163, 84, 102, 195, 76, 126, 204, 203, 141, 138, 145,
    180, 238, 55, 162, 93, 246, 15, 91, 143, 201, 179, 148]

/-- The signature of the first owner on its first manifest. -/
def manifestSigA : Bytes :=
  [83, 13, 50, 138, 87, 179, 225, 161, 185, 131, 153, 247, 166, 24, 97, 91, 44, 193, 105, 221,
    28, 170, 161, 122, 172, 172, 123, 114, 23, 185, 225, 124, 198, 4, 74, 112, 147, 155, 129,
    140, 85, 233, 207, 145, 77, 234, 239, 29, 114, 59, 54, 98, 80, 13, 9, 99, 196, 46, 122, 199,
    186, 9, 15, 2]

/-- The signature of the first owner on its second manifest. -/
def nextSigA : Bytes :=
  [173, 62, 127, 83, 112, 206, 238, 184, 37, 251, 197, 76, 147, 188, 162, 121, 71, 180, 54,
    233, 38, 220, 177, 43, 66, 176, 42, 165, 108, 158, 128, 143, 103, 135, 13, 136, 25, 109,
    148, 87, 120, 233, 63, 101, 204, 120, 75, 42, 236, 42, 95, 107, 238, 135, 17, 45, 131, 92,
    247, 164, 168, 120, 74, 10]

/-- The signature of the first owner on an agent binary. -/
def binarySigA : Bytes :=
  [192, 247, 181, 57, 78, 247, 255, 131, 212, 120, 183, 202, 0, 151, 248, 114, 156, 209, 93,
    227, 112, 85, 25, 172, 69, 29, 40, 75, 150, 86, 0, 223, 31, 248, 50, 2, 40, 96, 150, 120,
    207, 134, 205, 89, 56, 76, 154, 174, 143, 134, 63, 204, 189, 147, 224, 127, 189, 112, 215,
    224, 126, 3, 168, 7]

/-- The signature of the second owner on its manifest. -/
def manifestSigB : Bytes :=
  [210, 138, 205, 220, 121, 8, 10, 184, 46, 104, 102, 3, 230, 189, 126, 140, 95, 11, 13, 82,
    96, 91, 16, 144, 242, 192, 56, 156, 99, 176, 105, 148, 54, 118, 135, 163, 184, 48, 1, 213,
    22, 230, 103, 148, 190, 139, 21, 96, 70, 206, 63, 17, 27, 173, 42, 55, 47, 81, 131, 111, 78,
    98, 152, 8]

/-- A manifest text with one component. -/
def manifestText (file : String) : String :=
  "[components.web]\nsource = \"file:/srv/" ++ file ++ ".wasm\"\nsha256_hex = \"" ++
    "93a44bbb96c751218e4c00d479e4c14358122a389acca16205b1e4d0dc5f9476\"\n"

/-- The manifest that the text parses to. -/
def manifestOf (file : String) : Manifest :=
  ⟨(∅ : Std.ExtTreeMap String ComponentSpec).insert "web"
    { source := "file:/srv/" ++ file ++ ".wasm"
      sha256Hex := "93a44bbb96c751218e4c00d479e4c14358122a389acca16205b1e4d0dc5f9476" }⟩

/-- An empty WebAssembly module. -/
def emptyWasm : Bytes := [0, 97, 115, 109, 1, 0, 0, 0]

/-- The header of a Linux binary for x86_64. -/
def linuxBinary : Bytes := [127, 69, 76, 70, 2, 1, 1, 0, 0, 0, 0, 0, 0, 0, 0, 0, 2, 0, 62, 0]

/-- Base64 texts and the bytes they stand for. -/
def sampleBase64 : List (String × Bytes) :=
  [("Uw0yilez4aG5g5n3phhhWyzBad0cqqF6rKx7che54XzGBEpwk5uBjFXpz5FN6u8dcjs2YlANCWPELnrHugkPAg==",
      manifestSigA),
    ("rT5/U3DO7rgl+8VMk7yieUe0Nukm3LErQrAqpWyegI9nhw2IGW2UV3jpP2XMeEsq7Cpfa+6HES2DXPekqHhKCg==",
      nextSigA),
    ("wPe1OU73/4PUeLfKAJf4cpzRXeNwVRmsRR0oS5ZWAN8f+DICKGCWeM+GzVk4TJquj4Y/zL2T4H+9cNfgfgOoBw==",
      binarySigA),
    ("0orN3HkICrguaGYD5r1+jF8LDVJgWxCQ8sA4nGOwaZQ2doejuDAB1RbmZ5S+ixVgRs4/ERutKjcvUYNvTmKYCA==",
      manifestSigB),
    ("f0VMRgIBAQAAAAAAAAAAAAIAPgA=", linuxBinary)]

/-- Base58 texts and the bytes they stand for. -/
def sampleBase58 : List (String × Bytes) :=
  [("AKnL4NNf3DGWZJS6cPknBuEGnVsV4A4m5tgebLHaRSZ9", keyA),
    ("9hSR6S7WPtxmTojgo6GG3k4yDPecgJY292j7xrsUGWBu", keyB), ("", [])]

/-- The libraries on the inputs of the runs below. -/
def sampleLibrary : Externals where
  base64Decode text := match sampleBase64.lookup text with
    | some bytes => .ok bytes
    | none => .error "Invalid padding"
  bs58Decode text := match sampleBase58.lookup text with
    | some bytes => .ok bytes
    | none => .error "provided string contained invalid character"
  keyError _ := none
  ed25519Verify key data sig :=
    [(keyA, asBytes (manifestText "web"), manifestSigA),
      (keyA, asBytes (manifestText "next"), nextSigA), (keyA, linuxBinary, binarySigA),
      (keyB, asBytes (manifestText "other"), manifestSigB)].contains (key, data, sig)
  sha256Hex bytes :=
    if bytes = emptyWasm then "93a44bbb96c751218e4c00d479e4c14358122a389acca16205b1e4d0dc5f9476"
    else "be545f141006f3df3092d8edd3f569aae2c5cdd5a9989fcbbd534e0dda061830"
  tomlParse text :=
    if text = manifestText "web" then .ok (manifestOf "web")
    else if text = manifestText "next" then .ok (manifestOf "next")
    else .ok (manifestOf "other")
  tomlWrite _ := none
  pushJson _ := []

/-- A Linux agent that uses them. -/
def sampleEnv : Env :=
  { sampleLibrary with
    dataDir := "/root/.local/share/realm-agent"
    host := ⟨"linux", "x86_64"⟩
    localPeerId := "12D3KooWNode" }

/-- The manifest of the second owner. -/
def manifestB : SignedManifest where
  alg := "ed25519"
  ownerPubBs58 := "ed25519:9hSR6S7WPtxmTojgo6GG3k4yDPecgJY292j7xrsUGWBu"
  version := 1
  manifestToml := manifestText "other"
  signatureB64 :=
    "0orN3HkICrguaGYD5r1+jF8LDVJgWxCQ8sA4nGOwaZQ2doejuDAB1RbmZ5S+ixVgRs4/ERutKjcvUYNvTmKYCA=="

/-- An upgrade by the first owner. -/
def upgradeA (version : Nat) : AgentUpgrade where
  alg := "ed25519"
  ownerPubBs58 := "ed25519:AKnL4NNf3DGWZJS6cPknBuEGnVsV4A4m5tgebLHaRSZ9"
  version := version
  binarySha256Hex := "be545f141006f3df3092d8edd3f569aae2c5cdd5a9989fcbbd534e0dda061830"
  binaryB64 := "f0VMRgIBAQAAAAAAAAAAAAIAPgA="
  signatureB64 :=
    "wPe1OU73/4PUeLfKAJf4cpzRXeNwVRmsRR0oS5ZWAN8f+DICKGCWeM+GzVk4TJquj4Y/zL2T4H+9cNfgfgOoBw=="

/-- The upgrade handler suspends before it saves the first owner; meanwhile the manifest of
the second owner is checked. -/
def racingOwners : List Event :=
  [.upgradeAgent (upgradeA 1), .advance 0 {}, .applyManifest manifestB, .advance 1 {}]

/-- When the upgrade handler goes on, it replaces the trusted owner. -/
theorem trust_changes_owner :
    ¬ Along (step sampleEnv) OwnerKept {} (racingOwners ++ [.advance 0 {}]) := by
  intro h
  have hkept := h racingOwners [.advance 0 {}] [] rfl _ _ rfl rfl
    "ed25519:9hSR6S7WPtxmTojgo6GG3k4yDPecgJY292j7xrsUGWBu" (by decide)
  exact absurd hkept (by decide)

end PeerDeploy.Deploy
