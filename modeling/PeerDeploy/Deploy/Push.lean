import PeerDeploy.Deploy.Handler

/-!
# Pushing a component

The task of `crates/agent/src/p2p/handlers/push.rs`.
-/

namespace PeerDeploy.Deploy

open PeerDeploy.Common PeerDeploy.Base

/-- `crates/agent/src/p2p/handlers/push.rs:22–30`. -/
inductive PushAcceptanceError where
  | invalidSignature
  | ownerMismatch (expected found : String)
  | digestMismatch
  | decode (error : String)
  | verify (error : String)
  | io (error : String)
  deriving DecidableEq, Repr

/-- Where a push task stands. -/
inductive PushPc where
  | check
  | stage (bytes : Bytes)
  | schedule (path : String)
  | persist (spec : ComponentSpec)
  | accepted
  | rejected (error : PushAcceptanceError)
  deriving DecidableEq

/-- The message. -/
structure PushTask where
  pkg : PushPackage
  pc : PushPc := .check
  deriving DecidableEq

/-- Signature, digest and owner, up to the first suspension; `push.rs:72–116`. -/
def pushCheck (x : Env) (s : Site) (pkg : PushPackage) : Site × PushPc :=
  match x.base64Decode pkg.signatureB64 with
  | .error e => (s, .rejected (.decode e))
  | .ok sig =>
    match verifyBytesEd25519 x.toExternals pkg.unsigned.ownerPubBs58 (x.pushJson pkg.unsigned) sig
      with
    | .error e => (s, .rejected (.verify e))
    | .ok false => (s, .rejected .invalidSignature)
    | .ok true =>
      match x.base64Decode pkg.binaryB64 with
      | .error e => (s, .rejected (.decode e))
      | .ok bin =>
        if x.sha256Hex bin ≠ pkg.unsigned.binarySha256Hex then (s, .rejected .digestMismatch)
        else match s.trustOnFirstUse pkg.unsigned.ownerPubBs58 with
          | none => (s, .rejected (.ownerMismatch (s.loadTrustedOwner.getD "")
              pkg.unsigned.ownerPubBs58))
          | some s => (s, .stage bin)

/-- The specification that a push schedules; `push.rs:137–150`. -/
def pushSpec (unsigned : PushUnsigned) : ComponentSpec where
  source := s!"cached:{unsigned.binarySha256Hex}"
  sha256Hex := unsigned.binarySha256Hex
  memoryMaxMb := unsigned.memoryMaxMb
  fuel := unsigned.fuel
  epochMs := unsigned.epochMs
  replicas := some unsigned.replicas
  mounts := unsigned.mounts
  ports := unsigned.ports
  visibility := unsigned.visibility
  targetPeerIds := unsigned.targetPeerIds
  targetTags := unsigned.targetTags
  start := unsigned.start

/-- One step of a push task. -/
def PushTask.advance (x : Env) (s : Site) (task : PushTask) (input : StepInput) :
    Option (Site × PushPc) :=
  let unsigned := task.pkg.unsigned
  match task.pc with
  | .check => some (pushCheck x s task.pkg)
  | .stage bytes =>
    let path := artifactPath x.dataDir unsigned.componentName (x.sha256Hex bytes)
    match input.dirError, s.stageFile path bytes input with
    | some e, _ => some (s, .rejected (.io e))
    | none, none => some (s, .rejected (.io (input.ioError.getD "")))
    | none, some s => some (s, .schedule path)
  | .schedule path =>
    if unsigned.start then
      let spec := pushSpec unsigned
      some (s.upsertComponent { name := unsigned.componentName, path, spec }, .persist spec)
    else some (s, .accepted)
  | .persist spec =>
    some (s.updatePersistentManifestWithComponent x.toExternals unsigned.componentName spec,
      .accepted)
  | .accepted | .rejected _ => none

/-- The checks refuse and change nothing, or they have all gone through. -/
theorem pushCheck_cases (x : Env) (s : Site) (pkg : PushPackage) :
    (∃ error, pushCheck x s pkg = (s, .rejected error)) ∨
      ∃ t sig bin, pushCheck x s pkg = (t, .stage bin) ∧
        x.base64Decode pkg.signatureB64 = .ok sig ∧
        verifyBytesEd25519 x.toExternals pkg.unsigned.ownerPubBs58 (x.pushJson pkg.unsigned) sig =
          .ok true ∧
        x.base64Decode pkg.binaryB64 = .ok bin ∧
        x.sha256Hex bin = pkg.unsigned.binarySha256Hex ∧
        s.trustOnFirstUse pkg.unsigned.ownerPubBs58 = some t := by
  unfold pushCheck
  split
  · exact .inl ⟨_, rfl⟩
  · next sig hsig =>
    split
    · exact .inl ⟨_, rfl⟩
    · exact .inl ⟨_, rfl⟩
    · next hverify =>
      split
      · exact .inl ⟨_, rfl⟩
      · next bin hbin =>
        split
        · exact .inl ⟨_, rfl⟩
        · next hdigest =>
          split
          · exact .inl ⟨_, rfl⟩
          · next t ht =>
            exact .inr ⟨t, sig, bin, rfl, hsig, hverify, hbin, Decidable.not_not.mp hdigest, ht⟩

/-- What one step of a push task can do. -/
inductive PushMoves (x : Env) (s : Site) (task : PushTask) : Site → PushPc → Prop where
  | refused {error : PushAcceptanceError} : PushMoves x s task s (.rejected error)
  | checked {t : Site} {bytes : Bytes} (hpc : task.pc = .check)
    (htrust : s.Trusts t task.pkg.unsigned.ownerPubBs58) : PushMoves x s task t (.stage bytes)
  | worked {t : Site} {pc : PushPc} (hpc : task.pc ≠ .check) (hkeeps : s.Keeps t)
    (hnext : pc ≠ .check) : PushMoves x s task t pc
  | persisted {t : Site} (hpc : task.pc ≠ .check) (howner : t.ownerPub = s.ownerPub)
    (hstate : t.stateJson = s.stateJson) : PushMoves x s task t .accepted

/-- Every step of a push task is one of these moves. -/
theorem pushMoves_of_advance {x : Env} {s t : Site} {task : PushTask} {input : StepInput}
    {pc : PushPc} (h : task.advance x s input = some (t, pc)) : PushMoves x s task t pc := by
  unfold PushTask.advance at h
  simp only at h
  split at h
  · next hpc =>
    rcases pushCheck_cases x s task.pkg with
      ⟨error, hcheck⟩ | ⟨u, sig, bin, hcheck, -, -, -, -, ht⟩
    · rw [hcheck] at h
      cases h
      exact .refused
    · rw [hcheck] at h
      cases h
      exact .checked hpc (trusts_of_trustOnFirstUse ht)
  · next hpc =>
    split at h
    · cases h
      exact .refused
    · cases h
      exact .refused
    · next ht =>
      cases h
      exact .worked (by simp [hpc]) (keeps_stageFile ht) (by simp)
  · next hpc =>
    split at h
    · cases h
      exact .worked (by simp [hpc]) ⟨rfl, rfl, rfl⟩ (by simp)
    · cases h
      exact .worked (by simp [hpc]) (.refl _) (by simp)
  · next hpc =>
    cases h
    unfold Site.updatePersistentManifestWithComponent
    simp only
    split
    · exact .persisted (by simp [hpc]) rfl rfl
    · exact .persisted (by simp [hpc]) rfl rfl
  · cases h
  · cases h

end PeerDeploy.Deploy
