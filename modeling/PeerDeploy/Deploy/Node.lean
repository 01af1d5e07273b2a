import PeerDeploy.Base.Transition
import PeerDeploy.Deploy.Apply
import PeerDeploy.Deploy.Push
import PeerDeploy.Deploy.Upgrade
import Mathlib.Data.List.Sort

/-!
# A node that runs deployment handlers side by side

The event loop spawns one task per ApplyManifest, UpgradeAgent and PushComponent message
(`crates/agent/src/p2p/mod.rs:1000–1122`); the tasks then take their steps in any order.
When an upgrade exits the process, the other tasks die with it and the new process goes on
with the files. The four logs are observers: no step reads them.
-/

namespace PeerDeploy.Deploy

open PeerDeploy.Common PeerDeploy.Base

/-- A spawned handler. -/
inductive Task where
  | apply (task : ApplyTask)
  | upgrade (task : UpgradeTask)
  | push (task : PushTask)
  /-- The handler died with its process. -/
  | killed

/-- A node: what its handlers share, its roles, the handlers, and the logs, each with the index
of the task: what was accepted, the accepted upgrades that no failed spawn has withdrawn since,
and the spawned processes. -/
structure Node where
  site : Site := {}
  roles : List String := []
  tasks : List Task := []
  acceptedManifests : List (Nat × SignedManifest) := []
  acceptedUpgrades : List (Nat × AgentUpgrade) := []
  standingUpgrades : List (Nat × AgentUpgrade) := []
  spawned : List (Nat × AgentUpgrade) := []

/-- What can happen on a node. -/
inductive Event where
  | applyManifest (signed : SignedManifest)
  | upgradeAgent (pkg : AgentUpgrade)
  | pushComponent (pkg : PushPackage)
  /-- The web interface calls the push handler itself. -/
  | webPush (pkg : PushPackage)
  | updateRoles (targetPeerIds newRoles : List String)
  /-- The `k`-th handler runs to its next suspension. -/
  | advance (k : Nat) (input : StepInput)

/-- Selection by peer id and tag; `crates/agent/src/p2p/mod.rs:1028–1035,1088–1097`. -/
def selects (x : Env) (roles targetPeerIds targetTags : List String) : Bool :=
  (targetPeerIds.isEmpty || targetPeerIds.contains x.localPeerId) &&
    (targetTags.isEmpty || targetTags.any (roles.contains ·))

/-- `crates/agent/src/p2p/mod.rs:1026–1045`. -/
def upgradeSelected (x : Env) (roles : List String) (pkg : AgentUpgrade) : Bool :=
  selects x roles pkg.targetPeerIds pkg.targetTags &&
    pkg.targetPlatform.all (hostPlatformString x.host == ·)

/-- `crates/agent/src/p2p/mod.rs:1086–1102`. -/
def pushSelected (x : Env) (roles : List String) (pkg : PushPackage) : Bool :=
  selects x roles pkg.unsigned.targetPeerIds pkg.unsigned.targetTags && !roles.contains "ui"

/-- `sort` and `dedup` of the new roles; `crates/agent/src/p2p/mod.rs:1126–1128`. -/
def normalizeRoles (roles : List String) : List String :=
  (roles.insertionSort (· ≤ ·)).destutter (· ≠ ·)

/-- Spawn a handler. -/
def Node.spawn (node : Node) (task : Task) : Node := { node with tasks := node.tasks ++ [task] }

/-- Put a task back after its step. -/
def Node.resume (node : Node) (k : Nat) (site : Site) (task : Task) : Node :=
  { node with site, tasks := node.tasks.set k task }

/-- The task after the process has exited. -/
def Task.afterExit : Task → Task
  | .apply task =>
    match task.pc with
    | .accepted | .rejected => .apply task
    | _ => .killed
  | .upgrade task =>
    match task.pc with
    | .exited | .rejected | .crashed => .upgrade task
    | _ => .killed
  | .push task =>
    match task.pc with
    | .accepted | .rejected _ => .push task
    | _ => .killed
  | .killed => .killed

/-- Book what a step of an upgrade task means. -/
def Node.mark (node : Node) (k : Nat) (pkg : AgentUpgrade) : UpgradeMark → Node
  | .none => node
  | .accepted => { node with
    acceptedUpgrades := node.acceptedUpgrades ++ [(k, pkg)]
    standingUpgrades := node.standingUpgrades ++ [(k, pkg)] }
  | .spawned => { node with spawned := node.spawned ++ [(k, pkg)] }
  | .withdrawn => { node with standingUpgrades := node.standingUpgrades.filter (·.1 ≠ k) }
  | .exit => { node with tasks := node.tasks.map Task.afterExit }

/-- Booking a step changes no file. -/
theorem Node.site_mark (node : Node) (k : Nat) (pkg : AgentUpgrade) (mark : UpgradeMark) :
    (node.mark k pkg mark).site = node.site := by
  cases mark <;> rfl

/-- Booking a step of an upgrade task accepts no manifest. -/
theorem Node.acceptedManifests_mark (node : Node) (k : Nat) (pkg : AgentUpgrade)
    (mark : UpgradeMark) : (node.mark k pkg mark).acceptedManifests = node.acceptedManifests := by
  cases mark <;> rfl

/-- An acceptance stays in its log. -/
theorem Node.acceptedUpgrades_mark (node : Node) (k : Nat) (pkg : AgentUpgrade)
    (mark : UpgradeMark) : (node.mark k pkg mark).acceptedUpgrades =
      node.acceptedUpgrades ++ if mark = .accepted then [(k, pkg)] else [] := by
  cases mark <;> simp [Node.mark]

/-- The `k`-th handler runs to its next suspension. -/
def Node.advance (x : Env) (node : Node) (k : Nat) (input : StepInput) : Option Node :=
  match node.tasks[k]? with
  | some (.apply task) =>
    (task.advance x node.site input).map fun ((site, pc), accepted) ↦
      let node := node.resume k site (.apply { task with pc })
      if accepted then
        { node with acceptedManifests := node.acceptedManifests ++ [(k, task.signed)] }
      else node
  | some (.upgrade task) =>
    (task.advance x node.site input).map fun ((site, pc), mark) ↦
      (node.resume k site (.upgrade { task with pc })).mark k task.pkg mark
  | some (.push task) =>
    (task.advance x node.site input).map fun (site, pc) ↦
      node.resume k site (.push { task with pc })
  | _ => none

/-- One event on a node. -/
def step (x : Env) (node : Node) : Event → Option Node
  | .applyManifest signed => some (node.spawn (.apply { signed, agentRoles := node.roles }))
  | .upgradeAgent pkg =>
    if upgradeSelected x node.roles pkg then some (node.spawn (.upgrade { pkg })) else some node
  | .pushComponent pkg =>
    if pushSelected x node.roles pkg then some (node.spawn (.push { pkg })) else some node
  | .webPush pkg => some (node.spawn (.push { pkg }))
  | .updateRoles targetPeerIds newRoles =>
    if targetPeerIds.isEmpty || targetPeerIds.contains x.localPeerId then
      let roles := normalizeRoles newRoles
      let site := if x.ephemeral then node.site else node.site.saveRoles roles
      some { node with roles, site }
    else some node
  | .advance k input => node.advance x k input

/-! ### What a step can do -/

/-- The handler that an event can spawn; it has yet to take its first step. -/
def Event.Spawns : Event → Task → Prop
  | .applyManifest signed, .apply task => task.signed = signed ∧ task.pc = .check
  | .upgradeAgent pkg, .upgrade task => task.pkg = pkg ∧ task.pc = .check
  | .pushComponent pkg, .push task => task.pkg = pkg ∧ task.pc = .check
  | .webPush pkg, .push task => task.pkg = pkg ∧ task.pc = .check
  | _, _ => False

/-- The event is a step of a handler. -/
def Event.isAdvance : Event → Bool
  | .advance _ _ => true
  | _ => false

/-- The steps of a node, one case for each kind. -/
inductive Moves (x : Env) (node : Node) : Event → Node → Prop where
  | spawned {event : Event} {task : Task} (hspawns : event.Spawns task) :
    Moves x node event (node.spawn task)
  | ignored {event : Event} (hevent : event.isAdvance = false) : Moves x node event node
  | roles {targetPeerIds newRoles roles : List String} {site : Site}
    (hsite : site = node.site ∨ site = node.site.saveRoles roles) :
    Moves x node (.updateRoles targetPeerIds newRoles) { node with roles, site }
  | apply {k : Nat} {input : StepInput} {task : ApplyTask} {site : Site} {pc : ApplyPc}
    {accepted : Bool} (htask : node.tasks[k]? = some (.apply task))
    (hmoves : ApplyMoves x node.site task site pc accepted) :
    Moves x node (.advance k input)
      { node.resume k site (.apply { task with pc }) with
        acceptedManifests := node.acceptedManifests ++
          if accepted then [(k, task.signed)] else [] }
  | upgrade {k : Nat} {input : StepInput} {task : UpgradeTask} {site : Site} {pc : UpgradePc}
    {mark : UpgradeMark} (htask : node.tasks[k]? = some (.upgrade task))
    (hmoves : UpgradeMoves x node.site task site pc mark) :
    Moves x node (.advance k input)
      ((node.resume k site (.upgrade { task with pc })).mark k task.pkg mark)
  | push {k : Nat} {input : StepInput} {task : PushTask} {site : Site} {pc : PushPc}
    (htask : node.tasks[k]? = some (.push task)) (hmoves : PushMoves x node.site task site pc) :
    Moves x node (.advance k input) (node.resume k site (.push { task with pc }))

/-- Every step is one of these moves. -/
theorem moves_of_step {x : Env} {node d : Node} {event : Event}
    (h : step x node event = some d) : Moves x node event d := by
  cases event with
  | applyManifest signed =>
    cases h
    exact .spawned ⟨rfl, rfl⟩
  | upgradeAgent pkg =>
    simp only [step] at h
    split at h
    · cases h
      exact .spawned ⟨rfl, rfl⟩
    · cases h
      exact .ignored rfl
  | pushComponent pkg =>
    simp only [step] at h
    split at h
    · cases h
      exact .spawned ⟨rfl, rfl⟩
    · cases h
      exact .ignored rfl
  | webPush pkg =>
    cases h
    exact .spawned ⟨rfl, rfl⟩
  | updateRoles targetPeerIds newRoles =>
    simp only [step] at h
    split at h
    · cases h
      apply Moves.roles
      split
      · exact .inl rfl
      · exact .inr rfl
    · cases h
      exact .ignored rfl
  | advance k input =>
    simp only [step, Node.advance] at h
    split at h
    · next task htask =>
      obtain ⟨⟨⟨site, pc⟩, accepted⟩, hadv, rfl⟩ := Option.map_eq_some_iff.mp h
      have hmoves : Moves x node (.advance k input)
          { node.resume k site (.apply { task with pc }) with
            acceptedManifests := node.acceptedManifests ++
              if accepted then [(k, task.signed)] else [] } :=
        .apply htask (applyMoves_of_advance hadv)
      cases accepted with
      | false => simpa [Node.resume] using hmoves
      | true => exact hmoves
    · next task htask =>
      obtain ⟨⟨⟨site, pc⟩, mark⟩, hadv, rfl⟩ := Option.map_eq_some_iff.mp h
      exact .upgrade htask (upgradeMoves_of_advance hadv)
    · next task htask =>
      obtain ⟨⟨site, pc⟩, hadv, rfl⟩ := Option.map_eq_some_iff.mp h
      exact .push htask (pushMoves_of_advance hadv)
    · cases h

/-- The task that took a step is the one put back. -/
theorem getElem?_resume {node : Node} {k : Nat} {task : Task} (site : Site) (next : Task)
    (h : node.tasks[k]? = some task) : (node.resume k site next).tasks[k]? = some next := by
  have hlt : k < node.tasks.length := (List.getElem?_eq_some_iff.mp h).1
  simp [Node.resume, hlt]

end PeerDeploy.Deploy
