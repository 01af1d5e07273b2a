import PeerDeploy.Deploy.Rejected
import PeerDeploy.Deploy.Retarget
import PeerDeploy.Deploy.Rollback
import PeerDeploy.Deploy.Versions

/-!
# Two spellings of one owner

`verify_bytes_ed25519` (`crates/common/src/lib.rs:400–420`) reads an owner's key with or without
the prefix `ed25519:`. The checks of `handle_apply_manifest` and `handle_upgrade`
(`crates/agent/src/p2p/handlers`, `apply.rs:32–50`, `upgrade.rs:48–64`) compare the texts. The
text is no part of what is signed, so whoever passes a message on may choose its spelling.
-/

namespace PeerDeploy.Deploy

open PeerDeploy.Common PeerDeploy.Base

/-- What `verify_bytes_ed25519` decodes of an owner's text. -/
def keyText (publicBs58 : String) : String :=
  (Text.stripPrefix "ed25519:" publicBs58).getD publicBs58

/-- The spellings are the same, or both differ from that of the trusted owner, if there is one. -/
def AlikeTo (s : Site) (a b : String) : Prop :=
  a = b ∨ ∀ trusted, s.loadTrustedOwner = some trusted → trusted ≠ a ∧ trusted ≠ b

/-- The verification does not see the spelling. -/
theorem verifies_congr {a b : String} (h : keyText a = keyText b) (x : Externals)
    (data signature : Bytes) : verifies x a data signature = verifies x b data signature := by
  have hsame : verifyBytesEd25519 x a data signature = verifyBytesEd25519 x b data signature := by
    unfold keyText at h
    simp only [verifyBytesEd25519, h]
  unfold verifies
  rw [hsame]

/-- The site with another owner file. -/
def Site.reown (s : Site) (ownerPub : Option String) : Site := { s with ownerPub }

-- Two ways to be accepted that are open under the spellings `a` and `b`: if each needs its own
-- spelling to be trusted unless none is, then they are the same exactly when the spellings are
-- alike or neither is open at all.
private theorem same_iff_alike {s : Site} {a b : String} {accepts accepts' : List StepInput → Prop}
    {acceptable : Prop}
    (hneeds : ∀ inputs, accepts inputs →
      (∀ trusted, s.loadTrustedOwner = some trusted → trusted = a) ∧ acceptable)
    (hneeds' : ∀ inputs, accepts' inputs →
      (∀ trusted, s.loadTrustedOwner = some trusted → trusted = b) ∧ acceptable)
    (hopen : acceptable → (∀ trusted, s.loadTrustedOwner = some trusted → trusted = a) →
      ∃ inputs, accepts inputs)
    (hopen' : acceptable → (∀ trusted, s.loadTrustedOwner = some trusted → trusted = b) →
      ∃ inputs, accepts' inputs)
    (hequal : a = b → ∀ inputs, accepts inputs ↔ accepts' inputs)
    (hnone : s.loadTrustedOwner = none → ∀ inputs, accepts inputs ↔ accepts' inputs) :
    (∀ inputs, accepts inputs ↔ accepts' inputs) ↔ AlikeTo s a b ∨ ¬ acceptable := by
  constructor
  · intro hsame
    by_contra hneither
    obtain ⟨hunlike, hacceptable⟩ := not_or.mp hneither
    rw [not_not] at hacceptable
    obtain ⟨hne, hheld⟩ := not_or.mp hunlike
    simp only [not_forall, not_and_or, not_not] at hheld
    obtain ⟨trusted, ht, heither⟩ := hheld
    have honly {owner : String} (heq : trusted = owner) :
        ∀ found, s.loadTrustedOwner = some found → found = owner := by
      intro found hfound
      rw [ht] at hfound
      exact (Option.some.inj hfound).symm.trans heq
    rcases heither with heq | heq
    · obtain ⟨inputs, haccepts⟩ := hopen hacceptable (honly heq)
      have hother := (hneeds' inputs ((hsame inputs).mp haccepts)).1 trusted ht
      exact hne (heq.symm.trans hother)
    · obtain ⟨inputs, haccepts⟩ := hopen' hacceptable (honly heq)
      have hother := (hneeds inputs ((hsame inputs).mpr haccepts)).1 trusted ht
      exact hne (hother.symm.trans heq)
  · rintro (halike | hnever) inputs
    · rcases halike with heq | hunlike
      · exact hequal heq inputs
      · cases ht : s.loadTrustedOwner with
        | none => exact hnone ht inputs
        | some trusted =>
          obtain ⟨hleft, hright⟩ := hunlike trusted ht
          exact iff_of_false (fun h ↦ hleft ((hneeds inputs h).1 trusted ht))
            fun h ↦ hright ((hneeds' inputs h).1 trusted ht)
    · exact iff_of_false (fun h ↦ hnever (hneeds inputs h).2)
        fun h ↦ hnever (hneeds' inputs h).2

/-! ### Manifests -/

/-- The handler has accepted the manifest after these inputs. -/
def AcceptsManifest (x : Env) (s : Site) (supervisor : Supervisor.SupervisorState)
    (signed : SignedManifest) (agentRoles : List String) (inputs : List StepInput) : Prop :=
  ∃ t, run (applyStep x signed agentRoles) { site := s, supervisor } inputs = some t ∧
    t.pc = .accepted

/-- Nothing but its owner can stand in the way of the manifest: it is newer, it parses, and its
components for this node can be obtained. -/
def ManifestAcceptable (x : Env) (s : Site) (signed : SignedManifest) (agentRoles : List String) :
    Prop :=
  s.loadState.manifestVersion < signed.version ∧
    ∃ manifest, x.tomlParse signed.manifestToml = .ok manifest ∧
      ∀ (name : String) (spec : ComponentSpec), manifest.components[name]? = some spec →
        spec.matchesTarget (some x.localPeerId) (some agentRoles) = true → Obtainable x spec

section Manifests

variable {x : Env} {signed : SignedManifest} {agentRoles : List String}

private theorem run_applyAmong {r t : ApplyRun} {inputs : List StepInput}
    (hrun : run (applyStep x signed agentRoles) r inputs = some t) :
    ∃ visits, run (applyAmong x signed agentRoles) r.pc visits = some t.pc := by
  induction inputs generalizing r with
  | nil =>
    cases hrun
    exact ⟨[], rfl⟩
  | cons input rest ih =>
    obtain ⟨u, hstep, hrest⟩ := run_cons_eq_some.mp hrun
    obtain ⟨visits, hvisits⟩ := ih hrest
    refine ⟨(r.site, input) :: visits, run_cons_eq_some.mpr ⟨u.pc, ?_, hvisits⟩⟩
    obtain ⟨out, hadvance, rfl⟩ := Option.map_eq_some_iff.mp hstep
    unfold applyAmong
    rw [hadvance]
    rfl

private theorem pc_of_run_rejected {r t : ApplyRun} {inputs : List StepInput}
    (hpc : r.pc = .rejected) (hrun : run (applyStep x signed agentRoles) r inputs = some t) :
    t.pc = .rejected := by
  cases inputs with
  | nil =>
    cases hrun
    exact hpc
  | cons input rest =>
    obtain ⟨u, hstep, -⟩ := run_cons_eq_some.mp hrun
    simp only [applyStep, ApplyTask.advance, hpc, Option.map_none, reduceCtorEq] at hstep

private theorem checked_of_accepts {s : Site} {supervisor : Supervisor.SupervisorState}
    {inputs : List StepInput} (h : AcceptsManifest x s supervisor signed agentRoles inputs) :
    (∀ trusted, s.loadTrustedOwner = some trusted → trusted = signed.ownerPubBs58) ∧
      s.loadState.manifestVersion < signed.version := by
  obtain ⟨t, hrun, hpc⟩ := h
  cases inputs with
  | nil =>
    cases hrun
    cases hpc
  | cons input rest =>
    obtain ⟨u, hstep, hrest⟩ := run_cons_eq_some.mp hrun
    obtain ⟨⟨⟨site, next⟩, accepted⟩, hadvance, rfl⟩ := Option.map_eq_some_iff.mp hstep
    cases applyMoves_of_advance hadvance with
    | refused _ _ =>
      rw [pc_of_run_rejected rfl hrest] at hpc
      cases hpc
    | checked _ _ htrust hversion _ =>
      refine ⟨?_, hversion⟩
      intro trusted ht
      rcases htrust with ⟨howner, -⟩ | ⟨hnone, -⟩
      · rw [ht] at howner
        exact Option.some.inj howner
      · rw [ht] at hnone
        cases hnone
    | staged hbad _ _ => cases hbad
    | persisted hbad => cases hbad
    | installed hbad => cases hbad
    | committed hbad => cases hbad

private theorem acceptable_of_accepts {s : Site} {supervisor : Supervisor.SupervisorState}
    {inputs : List StepInput} (h : AcceptsManifest x s supervisor signed agentRoles inputs) :
    (∀ trusted, s.loadTrustedOwner = some trusted → trusted = signed.ownerPubBs58) ∧
      ManifestAcceptable x s signed agentRoles := by
  obtain ⟨howner, hversion⟩ := checked_of_accepts h
  refine ⟨howner, hversion, ?_⟩
  obtain ⟨t, hrun, hpc⟩ := h
  obtain ⟨visits, hvisits⟩ := run_applyAmong hrun
  rw [hpc] at hvisits
  exact obtainable_of_accepted hvisits

/-! An acceptable manifest of an owner who gets past the check can be accepted. -/

private theorem accepted_of_persist {r : ApplyRun} {applicable : List (String × ComponentSpec)}
    {staged : List (String × String)} (hpc : r.pc = .persist applicable staged) :
    ∃ inputs t, run (applyStep x signed agentRoles) r inputs = some t ∧ t.pc = .accepted := by
  obtain ⟨site, supervisor, pc⟩ := r
  cases hpc
  exact ⟨[{}, {}, {}], _, rfl, rfl⟩

private theorem accepted_of_stage {applicable rest : List (String × ComponentSpec)}
    (hne : rest ≠ []) (hrest : ∀ entry ∈ rest, Obtainable x entry.2) {r : ApplyRun}
    {staged : List (String × String)} (hpc : r.pc = .stage applicable rest staged) :
    ∃ inputs t, run (applyStep x signed agentRoles) r inputs = some t ∧ t.pc = .accepted := by
  induction rest generalizing r staged with
  | nil => exact absurd rfl hne
  | cons entry rest ih =>
    obtain ⟨name, comp⟩ := entry
    obtain ⟨site, supervisor, pc⟩ := r
    cases hpc
    obtain ⟨bytes, hfetch, hdigest⟩ := hrest _ List.mem_cons_self
    obtain ⟨site', hstage⟩ : ∃ site', site.stageFile
        (artifactPath x.dataDir name (x.sha256Hex bytes)) bytes { fetched := .ok bytes } =
          some site' := by
      unfold Site.stageFile
      split
      · exact ⟨_, rfl⟩
      · exact ⟨_, rfl⟩
    have hstep : ∀ next, (applyStage x site { fetched := .ok bytes } applicable name comp rest
        staged).2 = next → ∃ u, applyStep x signed agentRoles
          { site, supervisor, pc := .stage applicable ((name, comp) :: rest) staged }
          { fetched := .ok bytes } = some u ∧ u.pc = next :=
      fun next hnext ↦ ⟨_, rfl, hnext⟩
    have hpast : (applyStage x site { fetched := .ok bytes } applicable name comp rest staged).2 =
        if rest.isEmpty then .persist applicable
            (staged ++ [(name, artifactPath x.dataDir name (x.sha256Hex bytes))])
          else .stage applicable rest
            (staged ++ [(name, artifactPath x.dataDir name (x.sha256Hex bytes))]) := by
      simp only [applyStage, hfetch, hdigest, ne_eq, not_true, if_false]
      rw [hdigest] at hstage
      rw [hstage]
      simp only
      split
      · rfl
      · rfl
    obtain ⟨u, hu, hnext⟩ := hstep _ hpast
    have hfinish : ∃ inputs t, run (applyStep x signed agentRoles) u inputs = some t ∧
        t.pc = .accepted := by
      by_cases hempty : rest.isEmpty = true
      · rw [if_pos hempty] at hnext
        exact accepted_of_persist hnext
      · rw [if_neg hempty] at hnext
        apply ih _ (fun entry hin ↦ hrest entry (List.mem_cons_of_mem _ hin)) hnext
        rintro rfl
        exact hempty rfl
    obtain ⟨inputs, t, hrun, ht⟩ := hfinish
    exact ⟨_, t, run_cons_eq_some.mpr ⟨u, hu, hrun⟩, ht⟩

private theorem accepts_of_acceptable (supervisor : Supervisor.SupervisorState) {s : Site}
    (hverified : ManifestVerified x.toExternals signed)
    (howner : ∀ trusted, s.loadTrustedOwner = some trusted → trusted = signed.ownerPubBs58)
    (h : ManifestAcceptable x s signed agentRoles) :
    ∃ inputs, AcceptsManifest x s supervisor signed agentRoles inputs := by
  obtain ⟨sig, hsig, hverifies⟩ := hverified
  obtain ⟨hversion, manifest, hparse, hobtainable⟩ := h
  obtain ⟨t, htrust⟩ : ∃ t, s.trustOnFirstUse signed.ownerPubBs58 = some t := by
    unfold Site.trustOnFirstUse
    cases ht : s.loadTrustedOwner with
    | none => exact ⟨_, rfl⟩
    | some trusted =>
      refine ⟨s, if_neg ?_⟩
      exact not_not.mpr (howner trusted ht)
  have hstate := (trusts_of_trustOnFirstUse htrust).stateJson_eq
  have hfresh : ¬ signed.version ≤ t.loadState.manifestVersion := by
    rw [loadState_congr hstate]
    exact not_le.mpr hversion
  have hcheck : applyCheck x s ⟨signed, agentRoles, .check⟩ =
      applyParsed x t ⟨signed, agentRoles, .check⟩ := by
    simp only [applyCheck, hsig, hverifies, htrust, hfresh, Bool.not_true, if_false,
      Bool.false_eq_true]
  let applicable := manifest.components.toList.filter fun entry ↦
    entry.2.matchesTarget (some x.localPeerId) (some agentRoles)
  have hall : ∀ entry ∈ applicable, Obtainable x entry.2 := by
    intro entry hentry
    obtain ⟨hin, hmatches⟩ := List.mem_filter.mp hentry
    exact hobtainable entry.1 entry.2 (Std.ExtTreeMap.mem_toList_iff_getElem?_eq_some.mp hin)
      hmatches
  have hfinish : ∃ inputs u, run (applyStep x signed agentRoles)
      ⟨(applyParsed x t ⟨signed, agentRoles, .check⟩).1, supervisor,
        (applyParsed x t ⟨signed, agentRoles, .check⟩).2⟩ inputs = some u ∧
        u.pc = .accepted := by
    have hparsed : (applyParsed x t ⟨signed, agentRoles, .check⟩).2 =
        if applicable.isEmpty then .persist [] [] else .stage applicable applicable [] := by
      simp only [applyParsed, hparse]
      split
      · rfl
      · rfl
    by_cases hempty : applicable.isEmpty = true
    · rw [if_pos hempty] at hparsed
      exact accepted_of_persist hparsed
    · rw [if_neg hempty] at hparsed
      apply accepted_of_stage _ hall hparsed
      intro hnil
      rw [hnil] at hempty
      exact hempty rfl
  obtain ⟨inputs, u, hrun, hu⟩ := hfinish
  refine ⟨{} :: inputs, u, run_cons_eq_some.mpr ⟨_, ?_, hrun⟩, hu⟩
  rw [← hcheck]
  rfl

/-! With no owner trusted yet, the two spellings lead to states that differ in the owner file. -/

private def ApplyRun.reown (r : ApplyRun) (ownerPub : Option String) : ApplyRun :=
  { r with site := r.site.reown ownerPub }

private theorem stageFile_reown (s : Site) (path : String) (bytes : Bytes) (input : StepInput)
    (ownerPub : Option String) : (s.reown ownerPub).stageFile path bytes input =
      (s.stageFile path bytes input).map (·.reown ownerPub) := by
  unfold Site.stageFile
  show (if s.artifacts.contains (Path.canonical path) then _ else _) = _
  split
  · rfl
  · split
    · rfl
    · rfl

private theorem applyStep_reown (spelling : String) (ownerPub : Option String) {r : ApplyRun}
    (hpc : r.pc ≠ .check) (input : StepInput) :
    applyStep x { signed with ownerPubBs58 := spelling } agentRoles (r.reown ownerPub) input =
      (applyStep x signed agentRoles r input).map (·.reown ownerPub) := by
  obtain ⟨site, supervisor, pc⟩ := r
  cases pc with
  | check => exact absurd rfl hpc
  | stage applicable rest staged =>
    cases rest with
    | nil => rfl
    | cons entry rest =>
      obtain ⟨name, comp⟩ := entry
      have hstage : applyStage x (site.reown ownerPub) input applicable name comp rest staged =
          ((applyStage x site input applicable name comp rest staged).1.reown ownerPub,
            (applyStage x site input applicable name comp rest staged).2) := by
        unfold applyStage
        cases fetchBytes comp.source input.fetched with
        | error e => rfl
        | ok bytes =>
          simp only [stageFile_reown]
          split
          · rfl
          · cases site.stageFile (artifactPath x.dataDir name (x.sha256Hex bytes)) bytes input with
            | none => rfl
            | some t =>
              simp only [Option.map_some]
              split
              · rfl
              · rfl
      simp only [applyStep, ApplyTask.advance, ApplyRun.reown, hstage, Option.map_some]
  | _ => rfl

private theorem pc_ne_check_of_applyStep {r u : ApplyRun} {input : StepInput}
    (hstep : applyStep x signed agentRoles r input = some u) : u.pc ≠ .check := by
  obtain ⟨⟨⟨site, next⟩, accepted⟩, hadvance, rfl⟩ := Option.map_eq_some_iff.mp hstep
  rintro rfl
  cases applyMoves_of_advance hadvance with
  | checked _ _ _ _ hnext => cases hnext
  | staged _ _ hnext => cases hnext

private theorem run_reown (spelling : String) (ownerPub : Option String) {r : ApplyRun}
    (hpc : r.pc ≠ .check) (inputs : List StepInput) :
    run (applyStep x { signed with ownerPubBs58 := spelling } agentRoles) (r.reown ownerPub)
        inputs =
      (run (applyStep x signed agentRoles) r inputs).map (·.reown ownerPub) := by
  induction inputs generalizing r with
  | nil => rfl
  | cons input rest ih =>
    simp only [run]
    rw [applyStep_reown spelling ownerPub hpc]
    cases hstep : applyStep x signed agentRoles r input with
    | none => rfl
    | some u => exact ih (pc_ne_check_of_applyStep hstep)

private theorem applyCheck_reown {spelling : String}
    (hkey : keyText signed.ownerPubBs58 = keyText spelling) {s : Site}
    (hnone : s.loadTrustedOwner = none) (hverified : ManifestVerified x.toExternals signed) :
    applyCheck x s ⟨{ signed with ownerPubBs58 := spelling }, agentRoles, .check⟩ =
      ((applyCheck x s ⟨signed, agentRoles, .check⟩).1.reown (some spelling),
        (applyCheck x s ⟨signed, agentRoles, .check⟩).2) := by
  obtain ⟨sig, hsig, hverifies⟩ := hverified
  have hverifies' := hverifies
  rw [verifies_congr hkey] at hverifies'
  simp only [applyCheck, hsig, hverifies, hverifies', Site.trustOnFirstUse, hnone, Bool.not_true,
    Bool.false_eq_true, if_false]
  show (if signed.version ≤ s.loadState.manifestVersion then _ else _) = _
  split
  · next hstale =>
    have hstale' : signed.version ≤
        (s.saveTrustedOwner signed.ownerPubBs58).loadState.manifestVersion := hstale
    rw [if_pos hstale']
    rfl
  · next hfresh =>
    have hfresh' : ¬ signed.version ≤
        (s.saveTrustedOwner signed.ownerPubBs58).loadState.manifestVersion := hfresh
    rw [if_neg hfresh']
    unfold applyParsed
    cases x.tomlParse signed.manifestToml with
    | error e => rfl
    | ok manifest =>
      simp only
      split
      · rfl
      · rfl

private theorem accepts_spelled {spelling : String}
    (hkey : keyText signed.ownerPubBs58 = keyText spelling) {s : Site}
    (hnone : s.loadTrustedOwner = none) (hverified : ManifestVerified x.toExternals signed)
    (supervisor : Supervisor.SupervisorState) (inputs : List StepInput) :
    AcceptsManifest x s supervisor signed agentRoles inputs ↔
      AcceptsManifest x s supervisor { signed with ownerPubBs58 := spelling } agentRoles
        inputs := by
  cases inputs with
  | nil =>
    have hnever (m : SignedManifest) : ¬ AcceptsManifest x s supervisor m agentRoles [] := by
      rintro ⟨t, hrun, hpc⟩
      cases hrun
      cases hpc
    exact iff_of_false (hnever _) (hnever _)
  | cons input rest =>
    have hstep : applyStep x { signed with ownerPubBs58 := spelling } agentRoles
        { site := s, supervisor } input =
          (applyStep x signed agentRoles { site := s, supervisor } input).map
            (·.reown (some spelling)) := by
      simp only [applyStep, ApplyTask.advance, applyCheck_reown hkey hnone hverified,
        Option.map_some]
      rfl
    unfold AcceptsManifest
    simp only [run, hstep]
    cases hfirst : applyStep x signed agentRoles { site := s, supervisor } input with
    | none => simp
    | some u =>
      simp only [Option.map_some, Option.bind_some,
        run_reown spelling (some spelling) (pc_ne_check_of_applyStep hfirst)]
      cases run (applyStep x signed agentRoles) u rest with
      | none => simp
      | some t => simp [ApplyRun.reown]

end Manifests

/-! ### Agent upgrades -/

/-- The handler has accepted the upgrade after these inputs: it has saved the version and is
about to start the new binary. -/
def AcceptsUpgrade (x : Env) (s : Site) (pkg : AgentUpgrade) (inputs : List StepInput) : Prop :=
  ∃ t previous, run (upgradeStep x pkg) (s, .check) inputs = some (t, .spawn previous)

/-- Nothing but its owner can stand in the way of the upgrade: its digest, its header and its
platform are right, and it is newer. -/
structure UpgradeAcceptable (x : Env) (s : Site) (pkg : AgentUpgrade) : Prop where
  digest : x.sha256Hex (upgradeBinary x.toExternals pkg) = pkg.binarySha256Hex
  header : ∃ desc, binaryTargetMatchesHost x.host (upgradeBinary x.toExternals pkg) =
    some (.ok desc)
  platform : pkg.targetPlatform.all (hostPlatformString x.host == ·) = true
  version : s.loadState.agentVersion < pkg.version

section Upgrades

variable {x : Env} {pkg : AgentUpgrade}

-- What holds of a handler that started on the site `s`.
private def UpgradePhase (x : Env) (s : Site) (pkg : AgentUpgrade)
    (r : Site × UpgradePc) : Prop :=
  match r.2 with
  | .check => r.1 = s
  | .trusting => r.1 = s ∧ s.loadTrustedOwner = none
  | .sniff => (∀ trusted, s.loadTrustedOwner = some trusted → trusted = pkg.ownerPubBs58) ∧
    r.1.loadState = s.loadState ∧
    x.sha256Hex (upgradeBinary x.toExternals pkg) = pkg.binarySha256Hex
  | .version => (∀ trusted, s.loadTrustedOwner = some trusted → trusted = pkg.ownerPubBs58) ∧
    r.1.loadState = s.loadState ∧
    x.sha256Hex (upgradeBinary x.toExternals pkg) = pkg.binarySha256Hex ∧
    ∃ desc, binaryTargetMatchesHost x.host (upgradeBinary x.toExternals pkg) = some (.ok desc)
  | .write _ | .link _ | .commit _ | .spawn _ | .restore _ | .exiting | .exited =>
    (∀ trusted, s.loadTrustedOwner = some trusted → trusted = pkg.ownerPubBs58) ∧
      UpgradeAcceptable x s pkg
  | .rejected | .crashed => True

private theorem upgradePhase_digest {s t : Site}
    (howner : ∀ trusted, s.loadTrustedOwner = some trusted → trusted = pkg.ownerPubBs58)
    (hstate : t.loadState = s.loadState) :
    UpgradePhase x s pkg (upgradeDigest x t pkg (upgradeBinary x.toExternals pkg)) := by
  unfold upgradeDigest
  split
  · trivial
  · next hdigest => exact ⟨howner, hstate, not_not.mp hdigest⟩

private theorem upgradePhase_check (s : Site) :
    UpgradePhase x s pkg (upgradeCheck x s pkg) := by
  unfold upgradeCheck
  split
  · trivial
  · split
    · trivial
    · next bin hbin =>
      split
      · split
        · next trusted ht =>
          split
          · trivial
          · next hsame =>
            have hbytes : upgradeBinary x.toExternals pkg = bin := by
              simp [upgradeBinary, hbin]
            rw [← hbytes]
            apply upgradePhase_digest _ rfl
            intro found hfound
            rw [ht] at hfound
            exact (Option.some.inj hfound).symm.trans (not_not.mp hsame)
        · next hnone => exact ⟨rfl, hnone⟩
      · trivial

private theorem upgradePhase_write {s t : Site} {state : AgentState} (input : StepInput)
    (h : (∀ trusted, s.loadTrustedOwner = some trusted → trusted = pkg.ownerPubBs58) ∧
      UpgradeAcceptable x s pkg) :
    UpgradePhase x s pkg (upgradeWrite x t pkg state input) := by
  unfold upgradeWrite
  simp only
  split
  · trivial
  · trivial
  · trivial
  · trivial
  · exact h

private theorem upgradePhase_step {s : Site} {r u : Site × UpgradePc} {input : StepInput}
    (h : UpgradePhase x s pkg r) (hstep : upgradeStep x pkg r input = some u) :
    UpgradePhase x s pkg u := by
  obtain ⟨site, pc⟩ := r
  unfold upgradeStep UpgradeTask.advance at hstep
  cases pc with
  | check =>
    cases hstep
    obtain rfl : site = s := h
    exact upgradePhase_check site
  | trusting =>
    cases hstep
    obtain ⟨rfl, hnone⟩ := h
    have howner : ∀ trusted, site.loadTrustedOwner = some trusted →
        trusted = pkg.ownerPubBs58 := by
      intro trusted ht
      rw [show site.loadTrustedOwner = none from hnone] at ht
      cases ht
    have hstate : (site.saveTrustedOwner pkg.ownerPubBs58).loadState = site.loadState := rfl
    exact upgradePhase_digest howner hstate
  | sniff =>
    simp only at hstep
    split at hstep
    · cases hstep
      trivial
    · next desc hheader =>
      cases hstep
      exact ⟨h.1, h.2.1, h.2.2, desc, hheader⟩
    · cases hstep
      trivial
  | version =>
    obtain ⟨howner, hstate, hdigest, hheader⟩ := h
    simp only [upgradeVersion, Option.map_some, Option.some.injEq] at hstep
    split at hstep
    · next hplatform =>
      split at hstep
      · cases hstep
        trivial
      · next hnewer =>
        cases hstep
        rw [show site.loadState = s.loadState from hstate] at hnewer
        exact ⟨howner, hdigest, hheader, hplatform, not_le.mp hnewer⟩
    · cases hstep
      trivial
  | write state =>
    cases hstep
    exact upgradePhase_write input h
  | spawn previous =>
    simp only at hstep
    split at hstep
    · cases hstep
      exact h
    · cases hstep
      exact h
  | restore previous =>
    cases hstep
    trivial
  | link state =>
    cases hstep
    exact h
  | commit state =>
    cases hstep
    exact h
  | exiting =>
    cases hstep
    exact h
  | exited => cases hstep
  | rejected => cases hstep
  | crashed => cases hstep

private theorem acceptable_of_acceptsUpgrade {s : Site} {inputs : List StepInput}
    (h : AcceptsUpgrade x s pkg inputs) :
    (∀ trusted, s.loadTrustedOwner = some trusted → trusted = pkg.ownerPubBs58) ∧
      UpgradeAcceptable x s pkg := by
  obtain ⟨t, previous, hrun⟩ := h
  have hstart : UpgradePhase x s pkg (s, .check) := rfl
  exact run_invariant_all (fun _ _ _ ha hb ↦ upgradePhase_step ha hb) hstart hrun

/-! An acceptable upgrade of an owner who gets past the check can be accepted. -/

private theorem accepted_of_sniff {s : Site} (h : UpgradeAcceptable x s pkg) :
    ∃ inputs t previous, run (upgradeStep x pkg) (s, .sniff) inputs =
      some (t, .spawn previous) := by
  obtain ⟨desc, hheader⟩ := h.header
  have hnewer : ¬ pkg.version ≤ s.loadState.agentVersion := not_le.mpr h.version
  refine ⟨[{}, {}, {}, {}, {}], ?_⟩
  simp [run, upgradeStep, UpgradeTask.advance, hheader, upgradeVersion, h.platform, hnewer,
    upgradeWrite]

private theorem upgradeDigest_of_acceptable {s : Site} (h : UpgradeAcceptable x s pkg) (t : Site) :
    upgradeDigest x t pkg (upgradeBinary x.toExternals pkg) = (t, .sniff) := by
  unfold upgradeDigest
  rw [if_neg (not_not.mpr h.digest)]

private theorem acceptsUpgrade_of_acceptable {s : Site}
    (hverified : UpgradeVerified x.toExternals pkg)
    (howner : ∀ trusted, s.loadTrustedOwner = some trusted → trusted = pkg.ownerPubBs58)
    (h : UpgradeAcceptable x s pkg) : ∃ inputs, AcceptsUpgrade x s pkg inputs := by
  obtain ⟨sig, hsig, hbin, hverifies⟩ := hverified
  cases ht : s.loadTrustedOwner with
  | some trusted =>
    have hcheck : upgradeCheck x s pkg = (s, .sniff) := by
      simp only [upgradeCheck, hsig, hbin, hverifies, if_true, ht, howner trusted ht, ne_eq,
        not_true, if_false]
      exact upgradeDigest_of_acceptable h s
    obtain ⟨inputs, t, previous, hrun⟩ := accepted_of_sniff h
    refine ⟨{} :: inputs, t, previous, run_cons_eq_some.mpr ⟨(s, .sniff), ?_, hrun⟩⟩
    simp only [upgradeStep, UpgradeTask.advance, hcheck, Option.map_some]
  | none =>
    have hcheck : upgradeCheck x s pkg = (s, .trusting) := by
      simp only [upgradeCheck, hsig, hbin, hverifies, if_true, ht]
    have hsaved : UpgradeAcceptable x (s.saveTrustedOwner pkg.ownerPubBs58) pkg :=
      ⟨h.digest, h.header, h.platform, h.version⟩
    obtain ⟨inputs, t, previous, hrun⟩ := accepted_of_sniff hsaved
    refine ⟨{} :: {} :: inputs, t, previous, run_cons_eq_some.mpr ⟨(s, .trusting), ?_,
      run_cons_eq_some.mpr ⟨(s.saveTrustedOwner pkg.ownerPubBs58, .sniff), ?_, hrun⟩⟩⟩
    · simp only [upgradeStep, UpgradeTask.advance, hcheck, Option.map_some]
    · simp only [upgradeStep, UpgradeTask.advance, upgradeDigest_of_acceptable h, Option.map_some]

/-! With no owner trusted yet, the two spellings lead to states that differ in the owner file. -/

private def reownUpgrade (ownerPub : Option String) (r : Site × UpgradePc) : Site × UpgradePc :=
  (r.1.reown ownerPub, r.2)

-- The owner check is over.
private def UpgradePc.past : UpgradePc → Prop
  | .check | .trusting => False
  | _ => True

private theorem past_upgradeDigest (s : Site) (bin : Bytes) :
    (upgradeDigest x s pkg bin).2.past := by
  unfold upgradeDigest
  split
  · trivial
  · trivial

private theorem upgradeStep_reown (spelling : String) (ownerPub : Option String) {r : Site × UpgradePc}
    (hpc : r.2.past) (input : StepInput) :
    upgradeStep x { pkg with ownerPubBs58 := spelling } (reownUpgrade ownerPub r) input =
      (upgradeStep x pkg r input).map (reownUpgrade ownerPub) ∧
    ∀ u, upgradeStep x pkg r input = some u → u.2.past := by
  obtain ⟨site, pc⟩ := r
  unfold upgradeStep UpgradeTask.advance
  cases pc with
  | check => exact hpc.elim
  | trusting => exact hpc.elim
  | sniff =>
    have hbinary : upgradeBinary x.toExternals { pkg with ownerPubBs58 := spelling } =
        upgradeBinary x.toExternals pkg := rfl
    simp only [reownUpgrade, hbinary]
    split
    · exact ⟨rfl, fun u hu ↦ by cases hu; trivial⟩
    · exact ⟨rfl, fun u hu ↦ by cases hu; trivial⟩
    · exact ⟨rfl, fun u hu ↦ by cases hu; trivial⟩
  | version =>
    have hstate : (site.reown ownerPub).loadState = site.loadState := rfl
    simp only [reownUpgrade, upgradeVersion, hstate, Option.map_some]
    split
    · split
      · exact ⟨rfl, fun u hu ↦ by cases hu; trivial⟩
      · exact ⟨rfl, fun u hu ↦ by cases hu; trivial⟩
    · exact ⟨rfl, fun u hu ↦ by cases hu; trivial⟩
  | write state =>
    simp only [reownUpgrade, upgradeWrite, Option.map_some]
    split
    all_goals exact ⟨rfl, fun u hu ↦ by cases hu; trivial⟩
  | spawn previous =>
    simp only [reownUpgrade]
    split
    · exact ⟨rfl, fun u hu ↦ by cases hu; trivial⟩
    · exact ⟨rfl, fun u hu ↦ by cases hu; trivial⟩
  | exited => exact ⟨rfl, fun u hu ↦ by cases hu⟩
  | rejected => exact ⟨rfl, fun u hu ↦ by cases hu⟩
  | crashed => exact ⟨rfl, fun u hu ↦ by cases hu⟩
  | _ => exact ⟨rfl, fun u hu ↦ by cases hu; trivial⟩

private theorem run_upgrade_reown (spelling : String) (ownerPub : Option String) {r : Site × UpgradePc}
    (hpc : r.2.past) (inputs : List StepInput) :
    run (upgradeStep x { pkg with ownerPubBs58 := spelling }) (reownUpgrade ownerPub r) inputs =
      (run (upgradeStep x pkg) r inputs).map (reownUpgrade ownerPub) := by
  induction inputs generalizing r with
  | nil => rfl
  | cons input rest ih =>
    obtain ⟨hstep, hpast⟩ := upgradeStep_reown spelling ownerPub hpc input
    simp only [run]
    rw [hstep]
    cases hfirst : upgradeStep x pkg r input with
    | none => rfl
    | some u => exact ih (hpast u hfirst)

private theorem run_upgrade_spelled {spelling : String}
    (hkey : keyText pkg.ownerPubBs58 = keyText spelling) {s : Site}
    (hnone : s.loadTrustedOwner = none) (hverified : UpgradeVerified x.toExternals pkg)
    (inputs : List StepInput) :
    (run (upgradeStep x { pkg with ownerPubBs58 := spelling }) (s, .check) inputs).map (·.2) =
      (run (upgradeStep x pkg) (s, .check) inputs).map (·.2) := by
  obtain ⟨sig, hsig, hbin, hverifies⟩ := hverified
  have hverifies' := hverifies
  rw [verifies_congr hkey] at hverifies'
  cases inputs with
  | nil => rfl
  | cons first rest =>
    have hcheck : upgradeStep x pkg (s, .check) first = some (s, .trusting) := by
      simp only [upgradeStep, UpgradeTask.advance, upgradeCheck, hsig, hbin, hverifies, hnone,
        if_true, Option.map_some]
    have hcheck' : upgradeStep x { pkg with ownerPubBs58 := spelling } (s, .check) first =
        some (s, .trusting) := by
      have hbinary : upgradeBinary x.toExternals { pkg with ownerPubBs58 := spelling } =
          upgradeBinary x.toExternals pkg := rfl
      simp only [upgradeStep, UpgradeTask.advance, upgradeCheck, hsig, hbin, hverifies', hnone,
        if_true, Option.map_some]
    simp only [run, hcheck, hcheck', Option.bind_some]
    cases rest with
    | nil => rfl
    | cons second rest =>
      let u := upgradeDigest x (s.saveTrustedOwner pkg.ownerPubBs58) pkg
        (upgradeBinary x.toExternals pkg)
      have htrust : upgradeStep x pkg (s, .trusting) second = some u := rfl
      have htrust' : upgradeStep x { pkg with ownerPubBs58 := spelling } (s, .trusting) second =
          some (reownUpgrade (some spelling) u) := by
        have hbinary : upgradeBinary x.toExternals { pkg with ownerPubBs58 := spelling } =
            upgradeBinary x.toExternals pkg := rfl
        simp only [upgradeStep, UpgradeTask.advance, upgradeDigest, hbinary, Option.map_some, u]
        split
        · rfl
        · rfl
      have hpast : u.2.past := past_upgradeDigest _ _
      simp only [run, htrust, htrust', Option.bind_some]
      rw [run_upgrade_reown spelling (some spelling) hpast]
      cases run (upgradeStep x pkg) u rest with
      | none => rfl
      | some t => rfl

private theorem acceptsUpgrade_congr {pkg' : AgentUpgrade} {s : Site} {inputs : List StepInput}
    (h : (run (upgradeStep x pkg') (s, .check) inputs).map (·.2) =
      (run (upgradeStep x pkg) (s, .check) inputs).map (·.2)) :
    AcceptsUpgrade x s pkg inputs ↔ AcceptsUpgrade x s pkg' inputs := by
  have hseen (m : AgentUpgrade) : AcceptsUpgrade x s m inputs ↔
      ∃ previous, (run (upgradeStep x m) (s, .check) inputs).map (·.2) =
        some (.spawn previous) := by
    constructor
    · rintro ⟨t, previous, hrun⟩
      exact ⟨previous, by rw [hrun, Option.map_some]⟩
    · rintro ⟨previous, hmap⟩
      obtain ⟨⟨t, pc⟩, hrun, rfl⟩ := Option.map_eq_some_iff.mp hmap
      exact ⟨t, previous, hrun⟩
  rw [hseen, hseen, h]

end Upgrades

/-! ### Both handlers -/

/-- Whatever its fetches answer, the manifest is accepted under both spellings of its owner or
under neither. -/
def SameForManifest (x : Env) (s : Site) (supervisor : Supervisor.SupervisorState)
    (signed : SignedManifest) (spelling : String) (agentRoles : List String) : Prop :=
  ∀ inputs, AcceptsManifest x s supervisor signed agentRoles inputs ↔
    AcceptsManifest x s supervisor { signed with ownerPubBs58 := spelling } agentRoles inputs

/-- Whatever comes of its writes, the upgrade is accepted under both spellings of its owner or
under neither. -/
def SameForUpgrade (x : Env) (s : Site) (pkg : AgentUpgrade) (spelling : String) : Prop :=
  ∀ inputs, AcceptsUpgrade x s pkg inputs ↔
    AcceptsUpgrade x s { pkg with ownerPubBs58 := spelling } inputs

/-- For a verified message and another spelling of its owner's key, a node decides alike on both
exactly when the spellings are alike to its trusted owner, or the message cannot be accepted
at all. -/
theorem owner_spelling_iff (x : Env) (s : Site) :
    (∀ signed spelling, keyText signed.ownerPubBs58 = keyText spelling →
      ManifestVerified x.toExternals signed → ∀ supervisor agentRoles,
        (SameForManifest x s supervisor signed spelling agentRoles ↔
          AlikeTo s signed.ownerPubBs58 spelling ∨ ¬ ManifestAcceptable x s signed agentRoles)) ∧
    ∀ pkg spelling, keyText pkg.ownerPubBs58 = keyText spelling →
      UpgradeVerified x.toExternals pkg →
        (SameForUpgrade x s pkg spelling ↔
          AlikeTo s pkg.ownerPubBs58 spelling ∨ ¬ UpgradeAcceptable x s pkg) := by
  constructor
  · intro signed spelling hkey hverified supervisor agentRoles
    have hverified' : ManifestVerified x.toExternals { signed with ownerPubBs58 := spelling } := by
      obtain ⟨sig, hsig, hverifies⟩ := hverified
      rw [verifies_congr hkey] at hverifies
      exact ⟨sig, hsig, hverifies⟩
    apply same_iff_alike
    · exact fun _ ↦ acceptable_of_accepts
    · exact fun _ ↦ acceptable_of_accepts
    · exact fun hacceptable howner ↦ accepts_of_acceptable supervisor hverified howner hacceptable
    · exact fun hacceptable howner ↦ accepts_of_acceptable supervisor hverified' howner hacceptable
    · rintro rfl inputs
      exact Iff.rfl
    · exact fun hnone ↦ accepts_spelled hkey hnone hverified supervisor
  · intro pkg spelling hkey hverified
    have hverified' : UpgradeVerified x.toExternals { pkg with ownerPubBs58 := spelling } := by
      obtain ⟨sig, hsig, hbin, hverifies⟩ := hverified
      rw [verifies_congr hkey] at hverifies
      exact ⟨sig, hsig, hbin, hverifies⟩
    have hcongr : ∀ t : Site, UpgradeAcceptable x t { pkg with ownerPubBs58 := spelling } ↔
        UpgradeAcceptable x t pkg :=
      fun t ↦ ⟨fun h ↦ ⟨h.digest, h.header, h.platform, h.version⟩,
        fun h ↦ ⟨h.digest, h.header, h.platform, h.version⟩⟩
    apply same_iff_alike
    · exact fun _ ↦ acceptable_of_acceptsUpgrade
    · intro inputs haccepts
      obtain ⟨howner, hacceptable⟩ := acceptable_of_acceptsUpgrade haccepts
      exact ⟨howner, (hcongr s).mp hacceptable⟩
    · exact fun hacceptable howner ↦ acceptsUpgrade_of_acceptable hverified howner hacceptable
    · intro hacceptable howner
      exact acceptsUpgrade_of_acceptable hverified' howner ((hcongr s).mpr hacceptable)
    · rintro rfl inputs
      exact Iff.rfl
    · exact fun hnone inputs ↦ acceptsUpgrade_congr (run_upgrade_spelled hkey hnone hverified inputs)

-- The first owner's text without its prefix.
private def bareA : String := "AKnL4NNf3DGWZJS6cPknBuEGnVsV4A4m5tgebLHaRSZ9"

/-- A node without an owner decides alike on the first manifest under both spellings, and on an
upgrade. -/
theorem owner_spelling_iff_first :
    SameForManifest sampleEnv {} {} (firstManifest 1) bareA [] ∧
      SameForUpgrade sampleEnv {} (upgradeA 1) bareA := by
  obtain ⟨hmanifest, hupgrade⟩ := owner_spelling_iff sampleEnv {}
  have halike : ∀ owner, AlikeTo {} owner bareA := by
    intro owner
    refine .inr fun trusted ht ↦ ?_
    cases ht
  constructor
  · apply (hmanifest (firstManifest 1) bareA (by decide) _ {} []).mpr
    · exact .inl (halike _)
    · exact ⟨manifestSigA, rfl, by decide⟩
  · apply (hupgrade (upgradeA 1) bareA (by decide) _).mpr
    · exact .inl (halike _)
    · exact ⟨binarySigA, rfl, rfl, by decide⟩

private def fetches : List StepInput := List.replicate 5 { fetched := .ok emptyWasm }

/-- The first manifest is passed on without the prefix and accepted as first use. Then the
second manifest of the same owner is accepted without the prefix only. -/
theorem stripped_owner_locks_out :
    ∃ r, run (applyStep sampleEnv { firstManifest 1 with ownerPubBs58 := bareA } [])
        { site := {}, supervisor := {} } fetches = some r ∧ r.pc = .accepted ∧
      r.site.loadTrustedOwner = some bareA ∧
      keyText (secondManifest 2).ownerPubBs58 = keyText bareA ∧
      ¬ SameForManifest sampleEnv r.site r.supervisor (secondManifest 2) bareA [] := by
  have hfirst : (run (applyStep sampleEnv { firstManifest 1 with ownerPubBs58 := bareA } [])
      { site := {}, supervisor := {} } fetches).map (fun r ↦ (r.pc, r.site.loadTrustedOwner,
        (run (applyStep sampleEnv { secondManifest 2 with ownerPubBs58 := bareA } [])
          { site := r.site, supervisor := r.supervisor } fetches).map (·.pc),
        (run (applyStep sampleEnv (secondManifest 2) [])
          { site := r.site, supervisor := r.supervisor } fetches).map (·.pc))) =
      some (.accepted, some bareA, some .accepted, none) := by
    decide +kernel
  obtain ⟨r, hrun, hseen⟩ := Option.map_eq_some_iff.mp hfirst
  simp only [Prod.mk.injEq] at hseen
  obtain ⟨hpc, howner, hbare, hprefixed⟩ := hseen
  refine ⟨r, hrun, hpc, howner, by decide, ?_⟩
  intro hsame
  obtain ⟨t, ht, htpc⟩ := Option.map_eq_some_iff.mp hbare
  obtain ⟨u, hu, -⟩ := (hsame fetches).mpr ⟨t, ht, htpc⟩
  rw [hu] at hprefixed
  cases hprefixed

end PeerDeploy.Deploy
