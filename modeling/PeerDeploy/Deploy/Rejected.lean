import PeerDeploy.Base.Transition
import PeerDeploy.Deploy.Owner
import PeerDeploy.Supervisor.State

/-!
# A rejected manifest

`handle_apply_manifest` (`crates/agent/src/p2p/handlers/apply.rs:15–147`) has seven exits
with a rejection, one of them in the loop that stages the artifacts. The result says what
each of them may leave behind: the first trusted owner, and artifacts with pinned digests.
-/

namespace PeerDeploy.Deploy

open PeerDeploy.Common PeerDeploy.Base

/-- A handler that has the agent to itself. -/
structure ApplyRun where
  site : Site
  supervisor : Supervisor.SupervisorState
  pc : ApplyPc := .check

/-- What a step of the handler does to the supervisor; `apply.rs:102,135`. -/
def applySupervisor (supervisor : Supervisor.SupervisorState) : ApplyPc → Supervisor.SupervisorState
  | .persist applicable _ =>
    { supervisor with componentsDesired := applicable.countP fun (_, spec) ↦ spec.start }
  | .install applicable staged => supervisor.setDesired (applyDesired applicable staged)
  | _ => supervisor

/-- The handler runs to its next suspension. -/
def applyStep (x : Env) (signed : SignedManifest) (agentRoles : List String) (r : ApplyRun)
    (input : StepInput) : Option ApplyRun :=
  (ApplyTask.advance x r.site ⟨signed, agentRoles, r.pc⟩ input).map fun ((site, pc), _) ↦
    { site, supervisor := applySupervisor r.supervisor r.pc, pc }

/-- The file is the artifact of a component of the manifest, and has its pinned digest. -/
def PinnedArtifact (x : Env) (signed : SignedManifest) (path : String) (bytes : Bytes) : Prop :=
  ∃ manifest name spec, x.tomlParse signed.manifestToml = .ok manifest ∧
    manifest.components[name]? = some spec ∧
    path = Path.canonical (artifactPath x.dataDir name spec.sha256Hex) ∧
    x.sha256Hex bytes = spec.sha256Hex

/-- Between `s` and `t` at most a first owner was trusted, for a verified manifest, and pinned
artifacts were added. -/
structure ChangesNothing (x : Env) (signed : SignedManifest) (s t : ApplyRun) : Prop where
  desiredManifest : t.site.desiredManifest = s.site.desiredManifest
  stateJson : t.site.stateJson = s.site.stateJson
  desired : t.site.desired = s.site.desired
  componentsDesired : t.site.componentsDesired = s.site.componentsDesired
  supervisor : t.supervisor = s.supervisor
  binaries : t.site.binaries = s.site.binaries
  current : t.site.current = s.site.current
  ownerPub : t.site.ownerPub = s.site.ownerPub ∨
    (s.site.loadTrustedOwner = none ∧ ManifestVerified x.toExternals signed)
  kept : ∀ (path : String) (bytes : Bytes), s.site.artifacts[path]? = some bytes →
    t.site.artifacts[path]? = some bytes
  added : ∀ (path : String) (bytes : Bytes), t.site.artifacts[path]? = some bytes →
    s.site.artifacts[path]? = some bytes ∨
      (s.site.artifacts[path]? = none ∧ PinnedArtifact x signed path bytes)

/-- What holds of a handler that started in `s`. -/
def RunPhase (x : Env) (signed : SignedManifest) (s t : ApplyRun) : Prop :=
  match t.pc with
  | .check => t = s
  | .stage _ rest _ => ChangesNothing x signed s t ∧ t.site.reports = s.site.reports ∧
    ∃ manifest, x.tomlParse signed.manifestToml = .ok manifest ∧
      ∀ entry ∈ rest, manifest.components[entry.1]? = some entry.2
  | .persist _ _ | .install _ _ | .commit => t.site.reports = s.site.reports
  | .accepted => ∃ text, t.site.reports = s.site.reports ++ [.ok text]
  | .rejected => ChangesNothing x signed s t

/-- Nothing has happened yet. -/
theorem ChangesNothing.refl (x : Env) (signed : SignedManifest) (s : ApplyRun) :
    ChangesNothing x signed s s where
  desiredManifest := rfl
  stateJson := rfl
  desired := rfl
  componentsDesired := rfl
  supervisor := rfl
  binaries := rfl
  current := rfl
  ownerPub := .inl rfl
  kept _ _ h := h
  added _ _ h := .inl h

private theorem ChangesNothing.report {x : Env} {signed : SignedManifest} {s t u : ApplyRun}
    (h : ChangesNothing x signed s t) {reports : List (Except String String)}
    (hsite : u.site = { t.site with reports }) (hsupervisor : u.supervisor = t.supervisor) :
    ChangesNothing x signed s u := by
  obtain ⟨site, supervisor, pc⟩ := u
  subst hsite hsupervisor
  exact ⟨h.desiredManifest, h.stateJson, h.desired, h.componentsDesired, h.supervisor, h.binaries,
    h.current, h.ownerPub, h.kept, h.added⟩

private theorem ChangesNothing.trust {x : Env} {signed : SignedManifest} {s t : ApplyRun}
    (hsigned : ManifestVerified x.toExternals signed) {owner : String}
    (htrust : s.site.Trusts t.site owner) (hsupervisor : t.supervisor = s.supervisor) :
    ChangesNothing x signed s t := by
  obtain ⟨site, supervisor, pc⟩ := t
  subst hsupervisor
  rcases htrust with ⟨-, rfl⟩ | ⟨hnone, rfl⟩
  · exact { ChangesNothing.refl x signed s with }
  · exact { ChangesNothing.refl x signed s with ownerPub := .inr ⟨hnone, hsigned⟩ }

private theorem reports_stageFile {s t : Site} {path : String} {bytes : Bytes} {input : StepInput}
    (h : s.stageFile path bytes input = some t) : t.reports = s.reports := by
  unfold Site.stageFile at h
  split at h
  · cases h
    rfl
  · split at h
    · cases h
      rfl
    · cases h

private theorem ChangesNothing.stage {x : Env} {signed : SignedManifest} {s t u : ApplyRun}
    (h : ChangesNothing x signed s t) {path : String} {bytes : Bytes} {input : StepInput}
    (hpinned : PinnedArtifact x signed (Path.canonical path) bytes)
    (hstage : t.site.stageFile path bytes input = some u.site)
    (hsupervisor : u.supervisor = t.supervisor) : ChangesNothing x signed s u := by
  obtain ⟨site, supervisor, pc⟩ := u
  subst hsupervisor
  unfold Site.stageFile at hstage
  split at hstage
  · cases hstage
    exact { h with }
  · next hmissing =>
    split at hstage
    · cases hstage
      have hnew : t.site.artifacts[Path.canonical path]? = none := by
        simpa using hmissing
      refine { h with kept := ?_, added := ?_ }
      · intro other found hfound
        have hold := h.kept other found hfound
        have hne : Path.canonical path ≠ other := by
          rintro rfl
          rw [hnew] at hold
          cases hold
        simp only
        rw [Table.getElem?_insert, if_neg hne, hold]
      · intro other found hfound
        simp only [Table.getElem?_insert] at hfound
        split at hfound
        · next hsame =>
          subst hsame
          cases hfound
          right
          refine ⟨?_, hpinned⟩
          cases hold : s.site.artifacts[Path.canonical path]? with
          | none => rfl
          | some old =>
            rw [h.kept _ old hold] at hnew
            cases hnew
        · exact h.added other found hfound
    · cases hstage

private theorem runPhase_reject {x : Env} {signed : SignedManifest} {s t u : ApplyRun}
    {text : String} (h : ChangesNothing x signed s t)
    (hreject : t.site.reject .rejected text = (u.site, u.pc))
    (hsupervisor : u.supervisor = t.supervisor) : RunPhase x signed s u := by
  obtain ⟨hsite, hpc⟩ := Prod.mk.inj hreject
  rw [RunPhase, ← hpc]
  exact h.report hsite.symm hsupervisor

private theorem runPhase_check {x : Env} {signed : SignedManifest} {roles : List String}
    {s t : ApplyRun} (hcheck : applyCheck x s.site ⟨signed, roles, .check⟩ = (t.site, t.pc))
    (hsupervisor : t.supervisor = s.supervisor) : RunPhase x signed s t := by
  have hnothing := ChangesNothing.refl x signed s
  unfold applyCheck at hcheck
  split at hcheck
  · exact runPhase_reject hnothing hcheck hsupervisor
  · next sig hsig =>
    split at hcheck
    · exact runPhase_reject hnothing hcheck hsupervisor
    · next hverifies =>
      have hsigned : ManifestVerified x.toExternals signed :=
        ⟨sig, hsig, by simpa using hverifies⟩
      split at hcheck
      · exact runPhase_reject hnothing hcheck hsupervisor
      · next site htrust =>
        have htrusts := trusts_of_trustOnFirstUse htrust
        have htrusted : ChangesNothing x signed s ⟨site, s.supervisor, .check⟩ :=
          .trust hsigned htrusts rfl
        split at hcheck
        · exact runPhase_reject htrusted hcheck hsupervisor
        · unfold applyParsed at hcheck
          split at hcheck
          · exact runPhase_reject htrusted hcheck hsupervisor
          · next manifest hparse =>
            have hreports : site.reports = s.site.reports := by
              rcases htrusts with ⟨-, rfl⟩ | ⟨-, rfl⟩
              · rfl
              · rfl
            simp only at hcheck
            split at hcheck
            · obtain ⟨hsite, hpc⟩ := Prod.mk.inj hcheck
              rw [RunPhase, ← hpc]
              rw [← hsite, hreports]
            · obtain ⟨hsite, hpc⟩ := Prod.mk.inj hcheck
              rw [RunPhase, ← hpc]
              refine ⟨htrusted.report hsite.symm hsupervisor, ?_, manifest, hparse, ?_⟩
              · rw [← hsite, hreports]
              · intro entry hentry
                have hlisted := (List.mem_filter.mp hentry).1
                exact Std.ExtTreeMap.mem_toList_iff_getElem?_eq_some.mp hlisted

private theorem runPhase_stage {x : Env} {signed : SignedManifest} {s t u : ApplyRun}
    {input : StepInput} {applicable rest : List (String × ComponentSpec)}
    {name : String} {comp : ComponentSpec} {staged : List (String × String)}
    (hpc : t.pc = .stage applicable ((name, comp) :: rest) staged) (h : RunPhase x signed s t)
    (hstage : applyStage x t.site input applicable name comp rest staged = (u.site, u.pc))
    (hsupervisor : u.supervisor = t.supervisor) : RunPhase x signed s u := by
  rw [RunPhase, hpc] at h
  obtain ⟨hnothing, hreports, manifest, hparse, hrest⟩ := h
  unfold applyStage at hstage
  split at hstage
  · exact runPhase_reject hnothing hstage hsupervisor
  · next bytes hbytes =>
    simp only at hstage
    split at hstage
    · exact runPhase_reject hnothing hstage hsupervisor
    · next hdigest =>
      have hdigest : x.sha256Hex bytes = comp.sha256Hex := Decidable.not_not.mp hdigest
      split at hstage
      · exact runPhase_reject hnothing hstage hsupervisor
      · next site hsite =>
        have hpinned : PinnedArtifact x signed
            (Path.canonical (artifactPath x.dataDir name (x.sha256Hex bytes))) bytes :=
          ⟨manifest, name, comp, hparse, hrest _ List.mem_cons_self, by rw [hdigest], hdigest⟩
        have hkept : site.reports = s.site.reports := by
          rw [reports_stageFile hsite, hreports]
        split at hstage
        · obtain ⟨rfl, hnext⟩ := Prod.mk.inj hstage
          rw [RunPhase, ← hnext]
          exact hkept
        · obtain ⟨rfl, hnext⟩ := Prod.mk.inj hstage
          rw [RunPhase, ← hnext]
          exact ⟨hnothing.stage hpinned hsite hsupervisor, hkept, manifest, hparse,
            fun entry hentry ↦ hrest entry (List.mem_cons_of_mem _ hentry)⟩

/-- Every step of the handler keeps what holds of it. -/
theorem runPhase_step {x : Env} {signed : SignedManifest} {roles : List String}
    {s t u : ApplyRun} {input : StepInput} (h : RunPhase x signed s t)
    (hstep : applyStep x signed roles t input = some u) : RunPhase x signed s u := by
  obtain ⟨⟨⟨site, next⟩, accepted⟩, hadvance, rfl⟩ := Option.map_eq_some_iff.mp hstep
  obtain ⟨before, supervisor, pc⟩ := t
  cases pc with
  | check =>
    obtain rfl : _ = s := h
    exact runPhase_check (congrArg Prod.fst (Option.some.inj hadvance)) rfl
  | stage applicable rest staged =>
    cases rest with
    | nil => cases hadvance
    | cons entry rest =>
      exact runPhase_stage rfl h (congrArg Prod.fst (Option.some.inj hadvance)) rfl
  | persist applicable staged =>
    cases hadvance
    exact h
  | install applicable staged =>
    cases hadvance
    exact h
  | commit =>
    cases hadvance
    exact ⟨_, congrArg (· ++ _) h⟩
  | accepted => cases hadvance
  | rejected => cases hadvance

/-- A manifest whose rejection is reported changes nothing that matters. -/
theorem rejected_changes_nothing {x : Env} {signed : SignedManifest} {roles : List String}
    {site : Site} {supervisor : Supervisor.SupervisorState} {inputs : List StepInput} {t : ApplyRun}
    (hrun : run (applyStep x signed roles) { site, supervisor } inputs = some t) {text : String}
    (hreported : .error text ∈ t.site.reports.drop site.reports.length) :
    ChangesNothing x signed { site, supervisor } t := by
  have hphase : RunPhase x signed { site, supervisor } t := by
    have hstart : RunPhase x signed { site, supervisor } { site, supervisor } := rfl
    exact run_invariant_all (fun _ _ _ ha hb ↦ runPhase_step ha hb) hstart hrun
  unfold RunPhase at hphase
  split at hphase
  · rw [hphase]
    exact .refl x signed _
  · exact hphase.1
  · simp [hphase] at hreported
  · simp [hphase] at hreported
  · simp [hphase] at hreported
  · obtain ⟨accepted, hreports⟩ := hphase
    simp [hreports] at hreported
  · exact hphase

/-- The first manifest of an owner is verified, and then its component has the wrong digest. -/
theorem rejected_changes_nothing_mismatch :
    ∃ t, run (applyStep sampleEnv manifestB []) { site := {}, supervisor := {} }
        [{}, { fetched := .ok [0] }] = some t ∧
      t.site.reports = [.error "manifest rejected (digest): component web digest mismatch"] ∧
      ChangesNothing sampleEnv manifestB { site := {}, supervisor := {} } t := by
  have hreports : (run (applyStep sampleEnv manifestB []) { site := {}, supervisor := {} }
      [{}, { fetched := .ok [0] }]).map (·.site.reports) =
        some [.error "manifest rejected (digest): component web digest mismatch"] := by
    decide
  obtain ⟨t, hrun, ht⟩ := Option.map_eq_some_iff.mp hreports
  exact ⟨t, hrun, ht, rejected_changes_nothing hrun (by
    rw [ht]
    exact List.mem_singleton_self _)⟩

end PeerDeploy.Deploy
