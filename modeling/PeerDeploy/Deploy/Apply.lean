import PeerDeploy.Deploy.Handler

/-!
# Applying a signed manifest

The task of `crates/agent/src/p2p/handlers/apply.rs`, with the staging of
`crates/agent/src/p2p/handlers/util.rs:6–43`.
-/

namespace PeerDeploy.Deploy

open PeerDeploy.Common PeerDeploy.Base

/-- Where an apply task stands. -/
inductive ApplyPc where
  | check
  /-- Staging: all applicable components, those still to stage, and the staged paths. -/
  | stage (applicable rest : List (String × ComponentSpec)) (staged : List (String × String))
  | persist (applicable : List (String × ComponentSpec)) (staged : List (String × String))
  | install (applicable : List (String × ComponentSpec)) (staged : List (String × String))
  | commit
  | accepted
  | rejected
  deriving DecidableEq

/-- The message and the roles cloned when the task was spawned. -/
structure ApplyTask where
  signed : SignedManifest
  agentRoles : List String
  pc : ApplyPc := .check
  deriving DecidableEq

/-- After the version check: parse and filter; `apply.rs:60–84`. -/
def applyParsed (x : Env) (s : Site) (task : ApplyTask) : Site × ApplyPc :=
  match x.tomlParse task.signed.manifestToml with
  | .error e => s.reject .rejected s!"manifest rejected (parse): {e}"
  | .ok manifest =>
    let applicable := manifest.components.toList.filter fun (_, spec) ↦
      spec.matchesTarget (some x.localPeerId) (some task.agentRoles)
    if applicable.isEmpty then (s, .persist [] []) else (s, .stage applicable applicable [])

/-- Signature, owner, version and parse, up to the first suspension; `apply.rs:24–84`. -/
def applyCheck (x : Env) (s : Site) (task : ApplyTask) : Site × ApplyPc :=
  match x.base64Decode task.signed.signatureB64 with
  | .error e => s.reject .rejected s!"bad signature_b64: {e}"
  | .ok sig =>
    if !verifies x.toExternals task.signed.ownerPubBs58 (asBytes task.signed.manifestToml) sig then
      s.reject .rejected "manifest rejected (sig)"
    else match s.trustOnFirstUse task.signed.ownerPubBs58 with
      | none => s.reject .rejected "manifest rejected (owner mismatch)"
      | some s =>
        if task.signed.version ≤ s.loadState.manifestVersion then
          let held := s.loadState.manifestVersion
          s.reject .rejected s!"manifest rejected (stale v{task.signed.version} <= v{held})"
        else applyParsed x s task

/-- Fetch, verify and stage one component; `util.rs:30–41`, `apply.rs:89–97`. -/
def applyStage (x : Env) (s : Site) (input : StepInput)
    (applicable : List (String × ComponentSpec)) (name : String) (comp : ComponentSpec)
    (rest : List (String × ComponentSpec)) (staged : List (String × String)) : Site × ApplyPc :=
  match fetchBytes comp.source input.fetched with
  | .error e => s.reject .rejected s!"manifest rejected (digest): {e}"
  | .ok bytes =>
    let digest := x.sha256Hex bytes
    if digest ≠ comp.sha256Hex then
      s.reject .rejected s!"manifest rejected (digest): component {name} digest mismatch"
    else
      let path := artifactPath x.dataDir name digest
      match s.stageFile path bytes input with
      | none =>
        let e := input.ioError.getD ""
        s.reject .rejected s!"manifest rejected (digest): {e}"
      | some s =>
        let staged := staged ++ [(name, path)]
        if rest.isEmpty then (s, .persist applicable staged)
        else (s, .stage applicable rest staged)

/-- The desired set built from the staged artifacts; `apply.rs:105–134`. -/
def applyDesired (applicable : List (String × ComponentSpec)) (staged : List (String × String)) :
    Std.ExtTreeMap String DesiredComponent :=
  applicable.foldl (fun desired (name, spec) ↦
    match spec.start, staged.lookup name with
    | true, some path => desired.insert name { name, path, spec }
    | _, _ => desired) ∅

/-- One step of an apply task, and whether the manifest was accepted in it. -/
def ApplyTask.advance (x : Env) (s : Site) (task : ApplyTask) (input : StepInput) :
    Option ((Site × ApplyPc) × Bool) :=
  match task.pc with
  | .check => some (applyCheck x s task, false)
  | .stage _ [] _ => none
  | .stage applicable ((name, comp) :: rest) staged =>
    some (applyStage x s input applicable name comp rest staged, false)
  | .persist applicable staged =>
    let desiredCount := applicable.countP fun (_, spec) ↦ spec.start
    some (({ s with componentsDesired := desiredCount }.saveDesiredManifest
      task.signed.manifestToml, .install applicable staged), false)
  | .install applicable staged =>
    some ((s.setDesired (applyDesired applicable staged), .commit), false)
  | .commit =>
    let state := { s.loadState with manifestVersion := task.signed.version }
    some (((s.saveState state).report (.ok s!"manifest accepted v{task.signed.version}"),
      .accepted), true)
  | .accepted | .rejected => none

/-- The manifest carries a signature of the key it names. -/
def ManifestVerified (x : Externals) (signed : SignedManifest) : Prop :=
  ∃ sig, x.base64Decode signed.signatureB64 = .ok sig ∧
    verifies x signed.ownerPubBs58 (asBytes signed.manifestToml) sig = true

/-- The task has passed its checks and has written nothing but artifacts. -/
def ApplyPc.staging : ApplyPc → Bool
  | .stage _ _ _ | .persist _ _ => true
  | _ => false

/-- What one step of an apply task can do. -/
inductive ApplyMoves (x : Env) (s : Site) (task : ApplyTask) : Site → ApplyPc → Bool → Prop where
  | refused {t : Site} (hpc : task.pc = .check ∨ task.pc.staging = true)
    (htrust : s.Keeps t ∨ ∃ u, task.pc = .check ∧ s.Trusts u task.signed.ownerPubBs58 ∧ u.Keeps t) :
    ApplyMoves x s task t .rejected false
  | checked {t : Site} {pc : ApplyPc} (hpc : task.pc = .check)
    (hsigned : ManifestVerified x.toExternals task.signed)
    (htrust : s.Trusts t task.signed.ownerPubBs58)
    (hversion : s.loadState.manifestVersion < task.signed.version)
    (hnext : pc.staging = true) : ApplyMoves x s task t pc false
  | staged {t : Site} {pc : ApplyPc} (hpc : task.pc.staging = true) (hkeeps : s.Keeps t)
    (hnext : pc.staging = true) : ApplyMoves x s task t pc false
  | persisted {t : Site} {applicable : List (String × ComponentSpec)}
    {staged : List (String × String)} (hpc : task.pc = .persist applicable staged)
    (howner : t.ownerPub = s.ownerPub) (hstate : t.stateJson = s.stateJson)
    (hmanifest : t.desiredManifest = some task.signed.manifestToml) :
    ApplyMoves x s task t (.install applicable staged) false
  | installed {t : Site} {applicable : List (String × ComponentSpec)}
    {staged : List (String × String)} (hpc : task.pc = .install applicable staged)
    (hkeeps : s.Keeps t) : ApplyMoves x s task t .commit false
  | committed {t : Site} (hpc : task.pc = .commit) (howner : t.ownerPub = s.ownerPub)
    (hstate : t.stateJson = some { s.loadState with manifestVersion := task.signed.version })
    (hmanifest : t.desiredManifest = s.desiredManifest) : ApplyMoves x s task t .accepted true

private theorem applyMoves_check {x : Env} {s : Site} {task : ApplyTask} (hpc : task.pc = .check) :
    ApplyMoves x s task (applyCheck x s task).1 (applyCheck x s task).2 false := by
  unfold applyCheck
  split
  · exact .refused (.inl hpc) (.inl ⟨rfl, rfl, rfl⟩)
  · next sig hsig =>
    split
    · exact .refused (.inl hpc) (.inl ⟨rfl, rfl, rfl⟩)
    · next hver =>
      split
      · exact .refused (.inl hpc) (.inl ⟨rfl, rfl, rfl⟩)
      · next t ht =>
        have htrust := trusts_of_trustOnFirstUse ht
        split
        · exact .refused (.inl hpc) (.inr ⟨t, hpc, htrust, ⟨rfl, rfl, rfl⟩⟩)
        · next hlt =>
          unfold applyParsed
          split
          · exact .refused (.inl hpc) (.inr ⟨t, hpc, htrust, ⟨rfl, rfl, rfl⟩⟩)
          · have hsigned : ManifestVerified x.toExternals task.signed :=
              ⟨sig, hsig, by simpa using hver⟩
            have hversion : s.loadState.manifestVersion < task.signed.version := by
              rw [← loadState_congr htrust.stateJson_eq]
              omega
            simp only
            split
            · exact .checked hpc hsigned htrust hversion rfl
            · exact .checked hpc hsigned htrust hversion rfl

/-- Every step of an apply task is one of these moves. -/
theorem applyMoves_of_advance {x : Env} {s t : Site} {task : ApplyTask} {input : StepInput}
    {pc : ApplyPc} {accepted : Bool}
    (h : task.advance x s input = some ((t, pc), accepted)) :
    ApplyMoves x s task t pc accepted := by
  unfold ApplyTask.advance at h
  split at h
  · next hpc =>
    have hmoves := applyMoves_check (x := x) (s := s) hpc
    simp only [Option.some.injEq, Prod.mk.injEq] at h
    obtain ⟨hres, rfl⟩ := h
    rw [hres] at hmoves
    exact hmoves
  · cases h
  · next applicable name comp rest staged hpc =>
    have hstaging : task.pc.staging = true := by
      rw [hpc]
      rfl
    unfold applyStage at h
    split at h
    · cases h
      exact .refused (.inr hstaging) (.inl ⟨rfl, rfl, rfl⟩)
    · simp only at h
      split at h
      · cases h
        exact .refused (.inr hstaging) (.inl ⟨rfl, rfl, rfl⟩)
      · split at h
        · cases h
          exact .refused (.inr hstaging) (.inl ⟨rfl, rfl, rfl⟩)
        · next u hu =>
          have hkeeps := keeps_stageFile hu
          split at h
          · cases h
            exact .staged hstaging hkeeps rfl
          · cases h
            exact .staged hstaging hkeeps rfl
  · next hpc =>
    cases h
    exact .persisted hpc rfl rfl rfl
  · next hpc =>
    cases h
    exact .installed hpc ⟨rfl, rfl, rfl⟩
  · next hpc =>
    cases h
    exact .committed hpc rfl rfl rfl
  · cases h
  · cases h

end PeerDeploy.Deploy
