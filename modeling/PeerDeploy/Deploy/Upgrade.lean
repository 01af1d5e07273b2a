import PeerDeploy.Deploy.Handler

/-!
# Upgrading the agent

The task of `crates/agent/src/p2p/handlers/upgrade.rs`. The state that it reads for its
version check is the one it writes back, with two fields changed, several suspensions later.
-/

namespace PeerDeploy.Deploy

open PeerDeploy.Common PeerDeploy.Base

/-- Where an upgrade task stands. -/
inductive UpgradePc where
  | check
  /-- Suspended in the log line before the first owner is saved. -/
  | trusting
  | sniff
  | version
  /-- The version is higher than that of `state`, which was read for the check. -/
  | write (state : AgentState)
  | link (state : AgentState)
  | commit (state : AgentState)
  | spawn (previous : Nat)
  /-- The spawn failed and the old version is still to be restored. -/
  | restore (previous : Nat)
  /-- The new process runs and this one is about to exit. -/
  | exiting
  | exited
  | rejected
  /-- The task panicked. -/
  | crashed

/-- The message. -/
structure UpgradeTask where
  pkg : AgentUpgrade
  pc : UpgradePc := .check

/-- What a step of an upgrade task means to the agent as a whole. -/
inductive UpgradeMark where
  | none
  /-- The version was saved and reported as accepted. -/
  | accepted
  /-- The new process was spawned. -/
  | spawned
  /-- The spawn failed and the acceptance was withdrawn. -/
  | withdrawn
  /-- The process exits. -/
  | exit
  deriving DecidableEq

/-- The bytes of the package's binary, as the handler decodes them. -/
def upgradeBinary (x : Externals) (pkg : AgentUpgrade) : Bytes :=
  match x.base64Decode pkg.binaryB64 with
  | .ok bytes => bytes
  | .error _ => []

/-- `upgrade.rs:66–79`. -/
def upgradeDigest (x : Env) (s : Site) (pkg : AgentUpgrade) (bin : Bytes) : Site × UpgradePc :=
  if x.sha256Hex bin ≠ pkg.binarySha256Hex then
    s.reject .rejected "upgrade rejected (digest mismatch)"
  else (s, .sniff)

/-- Decoding, signature and owner, up to the first suspension; `upgrade.rs:20–79`. -/
def upgradeCheck (x : Env) (s : Site) (pkg : AgentUpgrade) : Site × UpgradePc :=
  match x.base64Decode pkg.signatureB64 with
  | .error e => s.reject .rejected s!"upgrade rejected (bad signature_b64: {e})"
  | .ok sig =>
    match x.base64Decode pkg.binaryB64 with
    | .error e => s.reject .rejected s!"upgrade rejected (bad binary_b64: {e})"
    | .ok bin =>
      if verifies x.toExternals pkg.ownerPubBs58 bin sig then
        match s.loadTrustedOwner with
        | some trusted =>
          if trusted ≠ pkg.ownerPubBs58 then
            s.reject .rejected "upgrade rejected (owner mismatch)"
          else upgradeDigest x s pkg bin
        | none => (s, .trusting)
      else s.reject .rejected "upgrade rejected (sig)"

/-- The versioned file of a binary; `upgrade.rs:144,150`. -/
def versionedPath (dataDir : String) (version : Nat) : String :=
  Path.join (Path.join dataDir "bin") s!"realm-agent-v{version}"

/-- Explicit platform and version; `upgrade.rs:104–141`. -/
def upgradeVersion (x : Env) (s : Site) (pkg : AgentUpgrade) : Site × UpgradePc :=
  let host := hostPlatformString x.host
  if pkg.targetPlatform.all (host == ·) then
    let state := s.loadState
    if pkg.version ≤ state.agentVersion then
      s.reject .rejected s!"upgrade rejected (stale v{pkg.version} <= v{state.agentVersion})"
    else (s, .write state)
  else
    let plat := pkg.targetPlatform.getD ""
    s.reject .rejected s!"upgrade rejected (platform {host} != {plat})"

/-- Write the versioned binary; `upgrade.rs:143–203`. -/
def upgradeWrite (x : Env) (s : Site) (pkg : AgentUpgrade) (state : AgentState)
    (input : StepInput) : Site × UpgradePc :=
  let path := versionedPath x.dataDir pkg.version
  let wrote (bytes : Bytes) : Site := { s with binaries := s.binaries.insert path bytes }
  let bin := upgradeBinary x.toExternals pkg
  match input.writeFault with
  | some .createDir => s.reject .rejected "upgrade rejected (bin dir create)"
  | some (.openFile e) => s.reject .rejected s!"upgrade rejected (open error: {e})"
  | some (.write e written) =>
    (wrote written).reject .rejected s!"upgrade rejected (write error: {e})"
  | some (.sync e) => (wrote bin).reject .rejected s!"upgrade rejected (fsync file: {e})"
  | none => (wrote bin, .link state)

/-- One step of an upgrade task, and what it means to the agent. -/
def UpgradeTask.advance (x : Env) (s : Site) (task : UpgradeTask) (input : StepInput) :
    Option ((Site × UpgradePc) × UpgradeMark) :=
  match task.pc with
  | .check => some (upgradeCheck x s task.pkg, .none)
  | .trusting =>
    some (upgradeDigest x (s.saveTrustedOwner task.pkg.ownerPubBs58) task.pkg
      (upgradeBinary x.toExternals task.pkg), .none)
  | .sniff =>
    match binaryTargetMatchesHost x.host (upgradeBinary x.toExternals task.pkg) with
    | none => some ((s, .crashed), .none)
    | some (.ok _) => some ((s, .version), .none)
    | some (.error err) =>
      some (s.reject .rejected s!"upgrade rejected (target mismatch: {err})", .none)
  | .version => some (upgradeVersion x s task.pkg, .none)
  | .write state => some (upgradeWrite x s task.pkg state input, .none)
  | .link state =>
    some (({ s with current := some (versionedPath x.dataDir task.pkg.version) }, .commit state),
      .none)
  | .commit state =>
    let previous := state.agentVersion
    let state := { state with previousAgentVersion := previous, agentVersion := task.pkg.version }
    some (((s.saveState state).report
      (.ok s!"upgrade accepted v{task.pkg.version} (prev v{previous})"), .spawn previous),
      .accepted)
  | .spawn previous =>
    if input.spawned then some ((s, .exiting), .spawned) else some ((s, .restore previous), .none)
  | .restore previous =>
    some (((s.saveState { s.loadState with agentVersion := previous }).report
      (.error "upgrade rejected (spawn failed)"), .rejected), .withdrawn)
  | .exiting => some ((s, .exited), .exit)
  | .exited | .rejected | .crashed => none

/-- The binary carries a signature of the key that the package names. -/
def UpgradeVerified (x : Externals) (pkg : AgentUpgrade) : Prop :=
  ∃ sig, x.base64Decode pkg.signatureB64 = .ok sig ∧
    x.base64Decode pkg.binaryB64 = .ok (upgradeBinary x pkg) ∧
    verifies x pkg.ownerPubBs58 (upgradeBinary x pkg) sig = true

/-- What one step of an upgrade task can do. -/
inductive UpgradeMoves (x : Env) (s : Site) (task : UpgradeTask) :
    Site → UpgradePc → UpgradeMark → Prop where
  | refused {t : Site} (hpc : task.pc = .check ∨ task.pc = .sniff ∨ task.pc = .version ∨
      ∃ state, task.pc = .write state) (hkeeps : s.Keeps t) :
    UpgradeMoves x s task t .rejected .none
  | checked (hpc : task.pc = .check) (hsigned : UpgradeVerified x.toExternals task.pkg)
    (howner : s.loadTrustedOwner = some task.pkg.ownerPubBs58) :
    UpgradeMoves x s task s .sniff .none
  | suspended (hpc : task.pc = .check) (hsigned : UpgradeVerified x.toExternals task.pkg)
    (howner : s.loadTrustedOwner = none) : UpgradeMoves x s task s .trusting .none
  | trusted {t : Site} {pc : UpgradePc} (hpc : task.pc = .trusting)
    (hkeeps : (s.saveTrustedOwner task.pkg.ownerPubBs58).Keeps t)
    (hnext : pc = .sniff ∨ pc = .rejected) : UpgradeMoves x s task t pc .none
  | sniffed (hpc : task.pc = .sniff) : UpgradeMoves x s task s .version .none
  | crashed (hpc : task.pc = .sniff) : UpgradeMoves x s task s .crashed .none
  | admitted (hpc : task.pc = .version)
    (hversion : s.loadState.agentVersion < task.pkg.version) :
    UpgradeMoves x s task s (.write s.loadState) .none
  | wrote {t : Site} {state : AgentState} (hpc : task.pc = .write state) (hkeeps : s.Keeps t) :
    UpgradeMoves x s task t (.link state) .none
  | linked {t : Site} {state : AgentState} (hpc : task.pc = .link state) (hkeeps : s.Keeps t) :
    UpgradeMoves x s task t (.commit state) .none
  | committed {t : Site} {state : AgentState} (hpc : task.pc = .commit state)
    (howner : t.ownerPub = s.ownerPub)
    (hstate : t.stateJson = some { state with
      previousAgentVersion := state.agentVersion, agentVersion := task.pkg.version })
    (hmanifest : t.desiredManifest = s.desiredManifest) :
    UpgradeMoves x s task t (.spawn state.agentVersion) .accepted
  | spawned {previous : Nat} (hpc : task.pc = .spawn previous) :
    UpgradeMoves x s task s .exiting .spawned
  | spawnFailed {previous : Nat} (hpc : task.pc = .spawn previous) :
    UpgradeMoves x s task s (.restore previous) .none
  | restored {t : Site} {previous : Nat} (hpc : task.pc = .restore previous)
    (howner : t.ownerPub = s.ownerPub)
    (hstate : t.stateJson = some { s.loadState with agentVersion := previous })
    (hmanifest : t.desiredManifest = s.desiredManifest) :
    UpgradeMoves x s task t .rejected .withdrawn
  | exits (hpc : task.pc = .exiting) : UpgradeMoves x s task s .exited .exit

private theorem upgradeMoves_check {x : Env} {s : Site} {task : UpgradeTask}
    (hpc : task.pc = .check) :
    UpgradeMoves x s task (upgradeCheck x s task.pkg).1 (upgradeCheck x s task.pkg).2 .none := by
  unfold upgradeCheck
  split
  · exact .refused (.inl hpc) ⟨rfl, rfl, rfl⟩
  · next sig hsig =>
    split
    · exact .refused (.inl hpc) ⟨rfl, rfl, rfl⟩
    · next bin hbin =>
      split
      · next hver =>
        have hbytes : upgradeBinary x.toExternals task.pkg = bin := by
          simp [upgradeBinary, hbin]
        have hsigned : UpgradeVerified x.toExternals task.pkg :=
          ⟨sig, hsig, by rw [hbytes, hbin], by rw [hbytes]; exact hver⟩
        split
        · next trusted ht =>
          split
          · exact .refused (.inl hpc) ⟨rfl, rfl, rfl⟩
          · next hne =>
            unfold upgradeDigest
            split
            · exact .refused (.inl hpc) ⟨rfl, rfl, rfl⟩
            · exact .checked hpc hsigned (by rw [ht, Decidable.not_not.mp hne])
        · next ht => exact .suspended hpc hsigned ht
      · exact .refused (.inl hpc) ⟨rfl, rfl, rfl⟩

private theorem upgradeMoves_write {x : Env} {s : Site} {task : UpgradeTask} (input : StepInput)
    {state : AgentState} (hpc : task.pc = .write state) :
    UpgradeMoves x s task (upgradeWrite x s task.pkg state input).1
      (upgradeWrite x s task.pkg state input).2 .none := by
  unfold upgradeWrite
  simp only
  split
  · exact .refused (.inr (.inr (.inr ⟨state, hpc⟩))) ⟨rfl, rfl, rfl⟩
  · exact .refused (.inr (.inr (.inr ⟨state, hpc⟩))) ⟨rfl, rfl, rfl⟩
  · exact .refused (.inr (.inr (.inr ⟨state, hpc⟩))) ⟨rfl, rfl, rfl⟩
  · exact .refused (.inr (.inr (.inr ⟨state, hpc⟩))) ⟨rfl, rfl, rfl⟩
  · exact .wrote hpc ⟨rfl, rfl, rfl⟩

/-- Every step of an upgrade task is one of these moves. -/
theorem upgradeMoves_of_advance {x : Env} {s t : Site} {task : UpgradeTask} {input : StepInput}
    {pc : UpgradePc} {mark : UpgradeMark}
    (h : task.advance x s input = some ((t, pc), mark)) : UpgradeMoves x s task t pc mark := by
  unfold UpgradeTask.advance at h
  split at h
  · next hpc =>
    have hmoves := upgradeMoves_check (x := x) (s := s) hpc
    simp only [Option.some.injEq, Prod.mk.injEq] at h
    obtain ⟨hres, rfl⟩ := h
    rw [hres] at hmoves
    exact hmoves
  · next hpc =>
    unfold upgradeDigest at h
    split at h
    · cases h
      exact .trusted hpc ⟨rfl, rfl, rfl⟩ (.inr rfl)
    · cases h
      exact .trusted hpc ⟨rfl, rfl, rfl⟩ (.inl rfl)
  · next hpc =>
    split at h
    · cases h
      exact .crashed hpc
    · cases h
      exact .sniffed hpc
    · cases h
      exact .refused (.inr (.inl hpc)) ⟨rfl, rfl, rfl⟩
  · next hpc =>
    unfold upgradeVersion at h
    simp only at h
    split at h
    · split at h
      · cases h
        exact .refused (.inr (.inr (.inl hpc))) ⟨rfl, rfl, rfl⟩
      · next hlt =>
        cases h
        exact .admitted hpc (by omega)
    · cases h
      exact .refused (.inr (.inr (.inl hpc))) ⟨rfl, rfl, rfl⟩
  · next state hpc =>
    have hmoves := upgradeMoves_write (x := x) (s := s) input hpc
    simp only [Option.some.injEq, Prod.mk.injEq] at h
    obtain ⟨hres, rfl⟩ := h
    rw [hres] at hmoves
    exact hmoves
  · next hpc =>
    cases h
    exact .linked hpc ⟨rfl, rfl, rfl⟩
  · next hpc =>
    cases h
    exact .committed hpc rfl rfl rfl
  · next hpc =>
    split at h
    · cases h
      exact .spawned hpc
    · cases h
      exact .spawnFailed hpc
  · next hpc =>
    cases h
    exact .restored hpc rfl rfl rfl
  · next hpc =>
    cases h
    exact .exits hpc
  · cases h
  · cases h
  · cases h

end PeerDeploy.Deploy
