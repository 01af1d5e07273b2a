import PeerDeploy.Deploy.Versions

/-!
# The writers of the state file

Four writers share `state.json`: the apply and the upgrade handler, `UpdateRoles`
(`crates/agent/src/p2p/mod.rs:1123–1135`) and the annotations of the web interface
(`crates/agent/src/web/handlers.rs:128–147`). Each rewrites the whole file; only the upgrade
handler suspends between its load and its save.
-/

namespace PeerDeploy.Deploy

open PeerDeploy.Common PeerDeploy.Base

/-- The request of `api_node_update` and the node id of its path;
`crates/agent/src/web/handlers.rs:122–126`. -/
structure NodeUpdate where
  nodeId : String
  nodeAlias : Option String := none
  notes : Option String := none
  deriving DecidableEq, Repr

/-- `crates/agent/src/web/handlers.rs:134–143`. -/
def NodeUpdate.annotate (req : NodeUpdate) (annotations : Std.ExtTreeMap String NodeAnnotation) :
    Std.ExtTreeMap String NodeAnnotation :=
  let entry := annotations[req.nodeId]?.getD {}
  annotations.insert req.nodeId
    { nodeAlias := req.nodeAlias.or entry.nodeAlias, notes := req.notes.or entry.notes }

/-- `crates/agent/src/web/handlers.rs:128–147`. -/
def apiNodeUpdate (s : Site) (req : NodeUpdate) : Site :=
  s.saveState { s.loadState with nodeAnnotations := req.annotate s.loadState.nodeAnnotations }

/-- The roles that an event saves. An ephemeral agent saves none;
`crates/agent/src/p2p/mod.rs:1123–1135`. -/
def Event.rolesSaved (x : Env) : Event → Option (List String)
  | .updateRoles targetPeerIds newRoles =>
    if (targetPeerIds.isEmpty || targetPeerIds.contains x.localPeerId) && !x.ephemeral then
      some (normalizeRoles newRoles)
    else none
  | _ => none

/-- A node with its web interface: the state file it began with, and the roles and annotations
written since. -/
structure Office where
  node : Node
  start : AgentState
  roles : List (List String) := []
  updates : List NodeUpdate := []

/-- A node that has accepted nothing yet, whatever its files. -/
def Office.opened (site : Site) (roles : List String) : Office where
  node := { site, roles }
  start := site.loadState

/-- Something happens on the node, or its web interface is asked to annotate. -/
inductive OfficeEvent where
  | node (event : Event)
  | nodeUpdate (req : NodeUpdate)

/-- One event. -/
def Office.step (x : Env) (s : Office) : OfficeEvent → Option Office
  | .node event =>
    (Deploy.step x s.node event).map fun node ↦
      { s with node, roles := s.roles ++ (event.rolesSaved x).toList }
  | .nodeUpdate req =>
    some { s with
      node := { s.node with site := apiNodeUpdate s.node.site req }
      updates := s.updates ++ [req] }

/-- The version of the last accepted upgrade, those whose spawn failed left out. -/
def Office.agentVersion (s : Office) (accepted : List (Nat × AgentUpgrade)) : Nat :=
  (accepted.getLast?.map (·.2.version)).getD s.start.agentVersion

/-- The state file holds the version of the last accepted manifest, the last saved roles, all
annotations and the version of the last accepted upgrade. -/
structure Office.Recorded (s : Office) : Prop where
  manifest : s.node.site.loadState.manifestVersion =
    (s.node.acceptedManifests.getLast?.map (·.2.version)).getD s.start.manifestVersion
  roles : s.node.site.loadState.roles = s.roles.getLast?.getD s.start.roles
  annotations : s.node.site.loadState.nodeAnnotations =
    s.updates.foldl (fun annotations req ↦ req.annotate annotations) s.start.nodeAnnotations
  upgrade : s.node.site.loadState.agentVersion = s.agentVersion s.node.standingUpgrades

/-- All handlers have come to their end. -/
def Office.Finished (s : Office) : Prop := ∀ task ∈ s.node.tasks, task.finished

/-- An upgrade handler that saves its state finds in the file the manifest version, the roles
and the annotations that it read, and one that takes its version back had read that of the last
other accepted upgrade. -/
def Office.MaySave (s : Office) (k : Nat) (task : UpgradeTask) : Prop :=
  (∀ state, task.pc = .commit state →
    s.node.site.loadState.manifestVersion = state.manifestVersion ∧
      s.node.site.loadState.roles = state.roles ∧
      s.node.site.loadState.nodeAnnotations = state.nodeAnnotations) ∧
  ∀ previous, task.pc = .restore previous →
    previous = s.agentVersion (s.node.standingUpgrades.filter (·.1 ≠ k))

/-- The step is no save of an upgrade handler that may not save. -/
def Office.Unchanged (s : Office) : OfficeEvent → Prop
  | .node (.advance k _) =>
    ∀ task, s.node.tasks[k]? = some (.upgrade task) → s.MaySave k task
  | _ => True

/-! ### One step -/

section Steps

variable {x : Env} {s : Office}

private theorem recorded_congr {t : Office} (h : s.Recorded)
    (hload : t.node.site.loadState = s.node.site.loadState) (hstart : t.start = s.start)
    (hmanifests : t.node.acceptedManifests = s.node.acceptedManifests)
    (hroles : t.roles = s.roles) (hupdates : t.updates = s.updates)
    (hupgrades : t.node.standingUpgrades = s.node.standingUpgrades) : t.Recorded where
  manifest := by rw [hload, hstart, hmanifests, h.manifest]
  roles := by rw [hload, hstart, hroles, h.roles]
  annotations := by rw [hload, hstart, hupdates, h.annotations]
  upgrade := by rw [hload, hupgrades, h.upgrade, Office.agentVersion, Office.agentVersion, hstart]

private theorem recorded_nodeUpdate (h : s.Recorded) (req : NodeUpdate) :
    Office.Recorded { s with
      node := { s.node with site := apiNodeUpdate s.node.site req }
      updates := s.updates ++ [req] } where
  manifest := h.manifest
  roles := h.roles
  annotations := by
    simp only [List.foldl_append, ← h.annotations]
    rfl
  upgrade := h.upgrade

private theorem recorded_updateRoles (h : s.Recorded) (targetPeerIds newRoles : List String)
    {t : Office} (hstep : s.step x (.node (.updateRoles targetPeerIds newRoles)) = some t) :
    t.Recorded := by
  obtain ⟨node, hnode, rfl⟩ := Option.map_eq_some_iff.mp hstep
  simp only [step] at hnode
  by_cases htarget : (targetPeerIds.isEmpty || targetPeerIds.contains x.localPeerId) = true
  · rw [if_pos htarget] at hnode
    cases hnode
    by_cases hephemeral : x.ephemeral = true
    · have hnone : Event.rolesSaved x (.updateRoles targetPeerIds newRoles) = none := by
        simp [Event.rolesSaved, hephemeral]
      rw [hnone, if_pos hephemeral]
      exact recorded_congr h rfl rfl rfl (List.append_nil _) rfl rfl
    · have hsome : Event.rolesSaved x (.updateRoles targetPeerIds newRoles) =
          some (normalizeRoles newRoles) := by
        rw [Event.rolesSaved, htarget]
        simp [hephemeral]
      rw [hsome, if_neg hephemeral]
      exact {
        manifest := h.manifest
        roles := by simp [Site.saveRoles, Site.saveState, Site.loadState]
        annotations := h.annotations
        upgrade := h.upgrade }
  · rw [if_neg htarget] at hnode
    cases hnode
    have hnone : Event.rolesSaved x (.updateRoles targetPeerIds newRoles) = none := by
      rw [Event.rolesSaved, Bool.eq_false_iff.mpr htarget]
      rfl
    rw [hnone]
    exact recorded_congr h rfl rfl rfl (List.append_nil _) rfl rfl

private theorem recorded_apply (h : s.Recorded) {k : Nat} {task : ApplyTask} {site : Site}
    {pc : ApplyPc} {accepted : Bool} (hmoves : ApplyMoves x s.node.site task site pc accepted) :
    Office.Recorded { s with
      node := { s.node.resume k site (.apply { task with pc }) with
        acceptedManifests := s.node.acceptedManifests ++
          if accepted then [(k, task.signed)] else [] } } := by
  have hsame (hstate : site.stateJson = s.node.site.stateJson) (haccepted : accepted = false) :
      Office.Recorded { s with
        node := { s.node.resume k site (.apply { task with pc }) with
          acceptedManifests := s.node.acceptedManifests ++
            if accepted then [(k, task.signed)] else [] } } := by
    refine recorded_congr h (loadState_congr hstate) rfl ?_ rfl rfl rfl
    rw [haccepted]
    exact List.append_nil _
  cases hmoves with
  | refused hpc htrust =>
    rcases htrust with hkeeps | ⟨u, -, htrusts, hkeeps⟩
    · exact hsame hkeeps.stateJson rfl
    · exact hsame (hkeeps.stateJson.trans htrusts.stateJson_eq) rfl
  | checked hpc hsigned htrust => exact hsame htrust.stateJson_eq rfl
  | staged hpc hkeeps => exact hsame hkeeps.stateJson rfl
  | persisted hpc howner hstate => exact hsame hstate rfl
  | installed hpc hkeeps => exact hsame hkeeps.stateJson rfl
  | committed hpc howner hstate =>
    have hload : site.loadState =
        { s.node.site.loadState with manifestVersion := task.signed.version } := by
      rw [Site.loadState, hstate]
      rfl
    constructor
    case manifest => simp [Node.resume, hload]
    case roles => simpa [Node.resume, hload] using h.roles
    case annotations => simpa [Node.resume, hload] using h.annotations
    case upgrade => simpa [Node.resume, hload, Office.agentVersion] using h.upgrade

private theorem maySave_of_pc {k : Nat} {task : UpgradeTask}
    (hcommit : ∀ state, task.pc ≠ .commit state)
    (hrestore : ∀ previous, task.pc ≠ .restore previous) : s.MaySave k task :=
  ⟨fun state hpc ↦ absurd hpc (hcommit state), fun old hpc ↦ absurd hpc (hrestore old)⟩

private theorem recorded_upgrade_iff (h : s.Recorded) {k : Nat} {task : UpgradeTask} {site : Site}
    {pc : UpgradePc} {mark : UpgradeMark}
    (hmoves : UpgradeMoves x s.node.site task site pc mark) :
    s.MaySave k task ↔ Office.Recorded { s with
      node := (s.node.resume k site (.upgrade { task with pc })).mark k task.pkg mark } := by
  have hsame (hcommit : ∀ state, task.pc ≠ .commit state)
      (hrestore : ∀ previous, task.pc ≠ .restore previous)
      (hstate : site.stateJson = s.node.site.stateJson)
      (hmark : mark ≠ .accepted ∧ mark ≠ .withdrawn) : s.MaySave k task ↔ Office.Recorded { s with
        node := (s.node.resume k site (.upgrade { task with pc })).mark k task.pkg mark } := by
    apply iff_of_true (maySave_of_pc hcommit hrestore)
    cases mark with
    | accepted => exact absurd rfl hmark.1
    | withdrawn => exact absurd rfl hmark.2
    | none | spawned | exit => exact recorded_congr h (loadState_congr hstate) rfl rfl rfl rfl rfl
  cases hmoves with
  | refused hpc hkeeps =>
    rcases hpc with hpc | hpc | hpc | ⟨state, hpc⟩
    all_goals exact hsame (by simp [hpc]) (by simp [hpc]) hkeeps.stateJson (by simp)
  | trusted hpc hkeeps => exact hsame (by simp [hpc]) (by simp [hpc]) hkeeps.stateJson (by simp)
  | wrote hpc hkeeps => exact hsame (by simp [hpc]) (by simp [hpc]) hkeeps.stateJson (by simp)
  | linked hpc hkeeps => exact hsame (by simp [hpc]) (by simp [hpc]) hkeeps.stateJson (by simp)
  | checked hpc | suspended hpc | sniffed hpc | crashed hpc | admitted hpc | spawned hpc
  | spawnFailed hpc | exits hpc =>
    exact hsame (by simp [hpc]) (by simp [hpc]) rfl (by simp)
  | @committed t state hpc howner hstate =>
    have hload : site.loadState = { state with
        previousAgentVersion := state.agentVersion, agentVersion := task.pkg.version } := by
      rw [Site.loadState, hstate]
      rfl
    constructor
    · intro hmay
      obtain ⟨hmanifest, hroles, hannotations⟩ := hmay.1 state hpc
      constructor
      case manifest => simpa [Node.resume, Node.mark, hload, ← hmanifest] using h.manifest
      case roles => simpa [Node.resume, Node.mark, hload, ← hroles] using h.roles
      case annotations =>
        simpa [Node.resume, Node.mark, hload, ← hannotations] using h.annotations
      case upgrade => simp [Node.resume, Node.mark, hload, Office.agentVersion]
    · rintro ⟨hmanifest, hroles, hannotations, -⟩
      simp only [Node.resume, Node.mark, hload] at hmanifest hroles hannotations
      refine ⟨fun loaded hpc' ↦ ?_, fun old hpc' ↦ ?_⟩
      · rw [hpc] at hpc'
        cases hpc'
        exact ⟨h.manifest.trans hmanifest.symm, h.roles.trans hroles.symm,
          h.annotations.trans hannotations.symm⟩
      · rw [hpc] at hpc'
        cases hpc'
  | @restored t previous hpc howner hstate =>
    have hload : site.loadState = { s.node.site.loadState with agentVersion := previous } := by
      rw [Site.loadState, hstate]
      rfl
    constructor
    · intro hmay
      have hprevious := hmay.2 previous hpc
      constructor
      case manifest => simpa [Node.resume, Node.mark, hload] using h.manifest
      case roles => simpa [Node.resume, Node.mark, hload] using h.roles
      case annotations => simpa [Node.resume, Node.mark, hload] using h.annotations
      case upgrade =>
        simp only [Node.resume, Node.mark, hload]
        exact hprevious
    · rintro ⟨-, -, -, hupgrade⟩
      simp only [Node.resume, Node.mark, hload] at hupgrade
      refine ⟨fun loaded hpc' ↦ ?_, fun old hpc' ↦ ?_⟩
      · rw [hpc] at hpc'
        cases hpc'
      · rw [hpc] at hpc'
        cases hpc'
        exact hupgrade

private theorem maySave_of_disabled {k : Nat} {input : StepInput} {task : UpgradeTask}
    (htask : s.node.tasks[k]? = some (.upgrade task))
    (hstep : step x s.node (.advance k input) = none) : s.MaySave k task := by
  simp only [step, Node.advance, htask, Option.map_eq_none_iff] at hstep
  apply maySave_of_pc
  · intro state hpc
    simp [UpgradeTask.advance, hpc] at hstep
  · intro previous hpc
    simp [UpgradeTask.advance, hpc] at hstep

private theorem office_step_eq (s : Office) {event : Event} (hnone : event.rolesSaved x = none) :
    s.step x (.node event) = (step x s.node event).map fun node ↦ { s with node } := by
  simp only [Office.step, hnone, Option.toList_none, List.append_nil]

private theorem recorded_quiet (h : s.Recorded) {event : Event}
    (hevent : event.isAdvance = false) (hnone : event.rolesSaved x = none)
    (hroles : ∀ targetPeerIds newRoles, event ≠ .updateRoles targetPeerIds newRoles)
    (t : Office) (ht : s.step x (.node event) = some t) : t.Recorded := by
  rw [office_step_eq s hnone] at ht
  obtain ⟨node, hnode, rfl⟩ := Option.map_eq_some_iff.mp ht
  cases moves_of_step hnode with
  | spawned hspawns => exact recorded_congr h rfl rfl rfl rfl rfl rfl
  | ignored hevent => exact h
  | roles hsite => exact absurd rfl (hroles _ _)
  | apply htask hmoves => cases hevent
  | upgrade htask hmoves => cases hevent
  | push htask hmoves => cases hevent

private theorem recorded_advance_iff (h : s.Recorded) (k : Nat) (input : StepInput) :
    s.Unchanged (.node (.advance k input)) ↔
      ∀ t, s.step x (.node (.advance k input)) = some t → t.Recorded := by
  rw [office_step_eq s rfl]
  cases hnode : step x s.node (.advance k input) with
  | none => exact iff_of_true (fun task htask ↦ maySave_of_disabled htask hnode) (by simp)
  | some node =>
    have hresult : (∀ t, (some node).map (fun node ↦ { s with node }) = some t → t.Recorded) ↔
        Office.Recorded { s with node } := by
      simp
    rw [hresult]
    cases moves_of_step hnode with
    | @spawned event task hspawns => cases task <;> cases hspawns
    | ignored hevent => cases hevent
    | apply htask hmoves =>
      apply iff_of_true _ (recorded_apply h hmoves)
      intro task hupgrade
      rw [htask] at hupgrade
      cases hupgrade
    | upgrade htask hmoves =>
      rw [← recorded_upgrade_iff h hmoves]
      simp only [Office.Unchanged, htask, Option.some.injEq, Task.upgrade.injEq]
      exact ⟨fun hall ↦ hall _ rfl, fun hone other heq ↦ heq ▸ hone⟩
    | @push k input task site pc htask hmoves =>
      apply iff_of_true
      · intro other hupgrade
        rw [htask] at hupgrade
        cases hupgrade
      · have hstate : site.stateJson = s.node.site.stateJson := by
          cases hmoves with
          | refused => rfl
          | checked hpc htrust => exact htrust.stateJson_eq
          | worked hpc hkeeps => exact hkeeps.stateJson
          | persisted hpc howner hstate => exact hstate
        exact recorded_congr h (loadState_congr hstate) rfl rfl rfl rfl rfl

private theorem recorded_step_iff (h : s.Recorded) (event : OfficeEvent) :
    s.Unchanged event ↔ ∀ t, s.step x event = some t → t.Recorded := by
  cases event with
  | nodeUpdate req =>
    apply iff_of_true trivial
    intro t ht
    cases ht
    exact recorded_nodeUpdate h req
  | node event =>
    cases event with
    | updateRoles targetPeerIds newRoles =>
      exact iff_of_true trivial fun t ht ↦ recorded_updateRoles h targetPeerIds newRoles ht
    | advance k input => exact recorded_advance_iff h k input
    | applyManifest | upgradeAgent | pushComponent | webPush =>
      exact iff_of_true trivial (recorded_quiet h rfl rfl nofun)

end Steps

/-- In every run of a node with its web interface, whatever its files, every state reached has
all updates of the state file recorded exactly if no upgrade handler saves over a change to the
fields that it does not set, or takes its version back below one accepted meanwhile. -/
theorem updates_recorded_iff (x : Env) (site : Site) (roles : List String)
    (events : List OfficeEvent) :
    Throughout (Office.step x) Office.Recorded (Office.opened site roles) events ↔
      StepsMeet (Office.step x) Office.Unchanged (Office.opened site roles) events := by
  apply throughout_iff_stepsMeet (fun _ ↦ True) (fun _ _ _ _ _ ↦ trivial)
    (fun s event _ h ↦ recorded_step_iff h event) trivial
  exact ⟨rfl, rfl, rfl, rfl⟩

/-- An upgrade handler has read the state, a manifest is applied, and the upgrade goes on. -/
def appliedDuringUpgrade : List OfficeEvent :=
  ((.upgradeAgent (upgradeA 1) :: List.replicate 4 (fetching 0)) ++
    (.applyManifest (firstManifest 1) :: List.replicate 5 (fetching 1)) ++
    List.replicate 5 (fetching 0)).map .node

-- The test whether an apply or an upgrade handler has come to its end.
private def ended : Task → Bool
  | .apply task =>
    match task.pc with
    | .accepted | .rejected => true
    | _ => false
  | .upgrade task =>
    match task.pc with
    | .exited | .rejected | .crashed => true
    | _ => false
  | _ => false

private theorem finished_of_ended {task : Task} (h : ended task = true) : task.finished := by
  unfold ended at h
  split at h
  · split at h
    · next hpc => exact .inl hpc
    · next hpc => exact .inr hpc
    · cases h
  · split at h
    · next hpc => exact .inl hpc
    · next hpc => exact .inr (.inl hpc)
    · next hpc => exact .inr (.inr hpc)
    · cases h
  · cases h

/-- When both have finished, the state file lacks the version of the accepted manifest. -/
theorem manifest_version_lost :
    ¬ ∀ (x : Env) (site : Site) (roles : List String) (events : List OfficeEvent) (t : Office),
      run (Office.step x) (Office.opened site roles) events = some t → t.Finished → t.Recorded := by
  intro hall
  have hrun : (run (Office.step sampleEnv) (Office.opened {} []) appliedDuringUpgrade).map
      (fun t ↦ (t.node.tasks.all ended, t.node.site.loadState.manifestVersion,
        t.node.acceptedManifests.map (·.2.version))) = some (true, 0, [1]) := by
    decide
  obtain ⟨t, ht, heq⟩ := Option.map_eq_some_iff.mp hrun
  obtain ⟨hended, hrest⟩ := Prod.mk.inj heq
  obtain ⟨hversion, haccepted⟩ := Prod.mk.inj hrest
  have hfinished : t.Finished :=
    fun task hin ↦ finished_of_ended (List.all_eq_true.mp hended task hin)
  have hmanifest := (hall sampleEnv {} [] appliedDuringUpgrade t ht hfinished).manifest
  rw [hversion, ← List.getLast?_map, haccepted] at hmanifest
  cases hmanifest

end PeerDeploy.Deploy
