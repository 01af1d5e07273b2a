import PeerDeploy.Deploy.Owner

/-!
# Versions under concurrent handlers

The apply and upgrade handlers check a version, suspend several times and then write
(`apply.rs:51–147`, `upgrade.rs:124–240` below `crates/agent/src/p2p/handlers`). The result
says what has to hold when they write for the accepted versions to rise and the persisted
manifest to be the newest one.
-/

namespace PeerDeploy.Deploy

open PeerDeploy.Common PeerDeploy.Base

/-- The manifest that an apply task has written while its version is still to be saved. -/
def Task.written : Task → Option SignedManifest
  | .apply task =>
    match task.pc with
    | .install _ _ | .commit => some task.signed
    | _ => none
  | _ => none

/-- The manifest that the `k`-th task has written while its version is still to be saved. -/
def Node.writtenAt (node : Node) (k : Nat) : Option SignedManifest :=
  node.tasks[k]?.bind Task.written

/-- The handler has come to its end. -/
def Task.finished : Task → Prop
  | .apply task => task.pc = .accepted ∨ task.pc = .rejected
  | .upgrade task => task.pc = .exited ∨ task.pc = .rejected ∨ task.pc = .crashed
  | .push task => task.pc = .accepted ∨ ∃ error, task.pc = .rejected error
  | .killed => True

/-- A push event. -/
def Event.isPush : Event → Bool
  | .pushComponent _ | .webPush _ => true
  | _ => false

/-- No handler writes over what another one has written since its check: an apply handler
about to persist its manifest still has the higher version, and no other one is between its
two writes; an upgrade handler about to save its state finds the versions it has read; one
that restores the old version still finds its own; and the process does not exit between the
two writes of an apply handler. -/
def NoOvertaking (node : Node) : Event → Prop
  | .advance k _ =>
    (∀ task applicable staged, node.tasks[k]? = some (.apply task) →
      task.pc = .persist applicable staged →
        node.site.loadState.manifestVersion < task.signed.version ∧
          ∀ j, node.writtenAt j = none) ∧
    ∀ task, node.tasks[k]? = some (.upgrade task) →
      (∀ state, task.pc = .commit state →
        node.site.loadState.manifestVersion = state.manifestVersion ∧
          node.site.loadState.agentVersion = state.agentVersion) ∧
      (∀ previous, task.pc = .restore previous →
        node.site.loadState.agentVersion = task.pkg.version) ∧
      (task.pc = .exiting → ∀ j, node.writtenAt j = none)
  | _ => True

/-- An upgrade handler about to save its state has a version above those of all upgrades that
were accepted and taken back after a failed spawn. -/
def ExceedsWithdrawn (node : Node) : Event → Prop
  | .advance k _ => ∀ task state, node.tasks[k]? = some (.upgrade task) →
    task.pc = .commit state →
      ∀ a ∈ node.acceptedUpgrades, a ∈ node.standingUpgrades ∨ a.2.version < task.pkg.version
  | _ => True

/-- Accepted versions rise, each version spawns one process at most, and when all handlers
have come to their end the persisted manifest and version are those accepted last. -/
structure VersionsRise (node : Node) : Prop where
  manifests : (node.acceptedManifests.map (·.2.version)).Pairwise (· < ·)
  upgrades : (node.acceptedUpgrades.map (·.2.version)).Pairwise (· < ·)
  processes : (node.spawned.map (·.2.version)).Nodup
  persisted : (∀ task ∈ node.tasks, task.finished) → ∀ last ∈ node.acceptedManifests.getLast?,
    node.site.desiredManifest = some last.2.manifestToml ∧
      node.site.loadState.manifestVersion = last.2.version

/-! ### Tasks along a step -/

private theorem getElem?_set_cases {tasks : List Task} {k j : Nat} {next task : Task}
    (h : (tasks.set k next)[j]? = some task) :
    (j = k ∧ task = next) ∨ (j ≠ k ∧ tasks[j]? = some task) := by
  by_cases hj : j = k
  · subst hj
    rw [List.getElem?_set_self'] at h
    cases hn : tasks[j]? with
    | none => simp [hn] at h
    | some old =>
      rw [hn] at h
      exact .inl ⟨rfl, (Option.some.inj h).symm⟩
  · rw [List.getElem?_set_ne (Ne.symm hj)] at h
    exact .inr ⟨hj, h⟩

private theorem writtenAt_resume {node : Node} {k : Nat} {old : Task}
    (hold : node.tasks[k]? = some old) (site : Site) (next : Task) (j : Nat) :
    (node.resume k site next).writtenAt j =
      if j = k then next.written else node.writtenAt j := by
  unfold Node.writtenAt
  split
  · next hj =>
    subst hj
    rw [getElem?_resume site next hold]
    rfl
  · next hj =>
    change ((node.tasks.set k next)[j]?).bind Task.written = _
    rw [List.getElem?_set_ne (Ne.symm hj)]

private theorem writtenAt_resume_same {node : Node} {k : Nat} {old next : Task}
    (hold : node.tasks[k]? = some old) (hsame : next.written = old.written) (site : Site)
    (j : Nat) : (node.resume k site next).writtenAt j = node.writtenAt j := by
  rw [writtenAt_resume hold]
  split
  · next hj =>
    rw [hsame, hj, Node.writtenAt, hold]
    rfl
  · rfl

private theorem rising_append {α : Type} {version : α → Nat} {log : List α} (next : α)
    (hrising : (log.map version).Pairwise (· < ·)) (habove : ∀ a ∈ log, version a < version next) :
    ((log ++ [next]).map version).Pairwise (· < ·) := by
  rw [List.map_append, List.pairwise_append]
  refine ⟨hrising, List.pairwise_singleton _ _, ?_⟩
  intro v hv w hw
  obtain ⟨a, ha, rfl⟩ := List.mem_map.mp hv
  rw [List.mem_singleton.mp hw]
  exact habove a ha

/-! ### Manifests -/

/-- What holds of the manifests in runs without overtaking; what is persisted is followed in
runs free of pushes only, since a push writes the manifest file, too. -/
structure ManifestInv (pushFree : Prop) (node : Node) : Prop where
  noPush : pushFree → ∀ (k : Nat) task, node.tasks[k]? ≠ some (.push task)
  written : ∀ k signed, node.writtenAt k = some signed →
    node.site.loadState.manifestVersion < signed.version ∧
      (pushFree → node.site.desiredManifest = some signed.manifestToml)
  oneWritten : ∀ j k a b, node.writtenAt j = some a → node.writtenAt k = some b → j = k
  rising : (node.acceptedManifests.map (·.2.version)).Pairwise (· < ·)
  bound : ∀ a ∈ node.acceptedManifests, a.2.version ≤ node.site.loadState.manifestVersion
  last : ∀ last ∈ node.acceptedManifests.getLast?,
    node.site.loadState.manifestVersion = last.2.version
  settled : pushFree → (∀ k, node.writtenAt k = none) →
    ∀ last ∈ node.acceptedManifests.getLast?,
      node.site.desiredManifest = some last.2.manifestToml

variable {pushFree : Prop}

private theorem manifestInv_frame {node d : Node} (h : ManifestInv pushFree node)
    (hpush : pushFree → ∀ (k : Nat) task, d.tasks[k]? ≠ some (.push task))
    (hversion : d.site.loadState.manifestVersion = node.site.loadState.manifestVersion)
    (hmanifest : pushFree → d.site.desiredManifest = node.site.desiredManifest)
    (hlog : d.acceptedManifests = node.acceptedManifests)
    (hwritten : ∀ k, d.writtenAt k = node.writtenAt k) : ManifestInv pushFree d where
  noPush := hpush
  written k signed hk := by
    rw [hwritten] at hk
    obtain ⟨hhigher, htoml⟩ := h.written k signed hk
    rw [hversion]
    exact ⟨hhigher, fun hfree ↦ (hmanifest hfree).trans (htoml hfree)⟩
  oneWritten j k a b hj hk := by
    rw [hwritten] at hj hk
    exact h.oneWritten j k a b hj hk
  rising := by
    rw [hlog]
    exact h.rising
  bound a ha := by
    rw [hlog] at ha
    rw [hversion]
    exact h.bound a ha
  last last hlast := by
    rw [hlog] at hlast
    rw [hversion]
    exact h.last last hlast
  settled hfree hnone last hlast := by
    rw [hlog] at hlast
    rw [hmanifest hfree]
    exact h.settled hfree (fun k ↦ by rw [← hwritten]; exact hnone k) last hlast

private theorem noPush_set {node : Node} (h : ManifestInv pushFree node) {k : Nat} {next : Task}
    (hnext : ∀ task, next ≠ .push task) (hfree : pushFree) (j : Nat) (task : PushTask) :
    (node.tasks.set k next)[j]? ≠ some (.push task) := by
  intro hj
  rcases getElem?_set_cases hj with ⟨-, he⟩ | ⟨-, hj⟩
  · exact hnext task he.symm
  · exact h.noPush hfree j task hj

private theorem manifestInv_resume {node : Node} (h : ManifestInv pushFree node) {k : Nat}
    {site : Site} {old next : Task} (hold : node.tasks[k]? = some old)
    (hnext : ∀ task, next ≠ .push task)
    (hversion : site.loadState.manifestVersion = node.site.loadState.manifestVersion)
    (hmanifest : site.desiredManifest = node.site.desiredManifest)
    (hsame : next.written = old.written) : ManifestInv pushFree (node.resume k site next) :=
  manifestInv_frame h (noPush_set h hnext) hversion (fun _ ↦ hmanifest) rfl
    (writtenAt_resume_same hold hsame site)

private theorem manifestInv_persist {node : Node} (h : ManifestInv pushFree node) {k : Nat}
    {site : Site} {task : ApplyTask} {applicable : List (String × ComponentSpec)}
    {staged : List (String × String)} (htask : node.tasks[k]? = some (.apply task))
    (hstate : site.loadState = node.site.loadState)
    (hmanifest : site.desiredManifest = some task.signed.manifestToml)
    (hhigher : node.site.loadState.manifestVersion < task.signed.version)
    (halone : ∀ j, node.writtenAt j = none) :
    ManifestInv pushFree (node.resume k site
      (.apply { task with pc := .install applicable staged })) := by
  have hat := writtenAt_resume htask site (.apply { task with pc := .install applicable staged })
  have honly : ∀ j signed, (node.resume k site
      (.apply { task with pc := .install applicable staged })).writtenAt j = some signed →
        j = k ∧ signed = task.signed := by
    intro j signed hj
    rw [hat] at hj
    split at hj
    · next hjk => exact ⟨hjk, (Option.some.inj hj).symm⟩
    · rw [halone j] at hj
      cases hj
  constructor
  case noPush => exact noPush_set h (by simp)
  case written =>
    intro j signed hj
    obtain ⟨-, rfl⟩ := honly j signed hj
    rw [← hstate] at hhigher
    exact ⟨hhigher, fun _ ↦ hmanifest⟩
  case oneWritten =>
    intro i j a b hi hj
    rw [(honly i a hi).1, (honly j b hj).1]
  case rising => exact h.rising
  case bound =>
    intro a ha
    change a.2.version ≤ site.loadState.manifestVersion
    rw [hstate]
    exact h.bound a ha
  case last =>
    intro last hlast
    change site.loadState.manifestVersion = last.2.version
    rw [hstate]
    exact h.last last hlast
  case settled =>
    intro _ hnone
    have hk := hnone k
    rw [hat, if_pos rfl] at hk
    cases hk

private theorem manifestInv_commit {node : Node} (h : ManifestInv pushFree node) {k : Nat}
    {site : Site} {task : ApplyTask} (htask : node.tasks[k]? = some (.apply task))
    (hpc : task.pc = .commit)
    (hversion : site.loadState.manifestVersion = task.signed.version)
    (hmanifest : site.desiredManifest = node.site.desiredManifest) :
    ManifestInv pushFree { node.resume k site (.apply { task with pc := .accepted }) with
      acceptedManifests := node.acceptedManifests ++ [(k, task.signed)] } := by
  have hk : node.writtenAt k = some task.signed := by
    simp [Node.writtenAt, htask, Task.written, hpc]
  obtain ⟨hhigher, htoml⟩ := h.written k task.signed hk
  -- the only task between its two writes has made the second one
  have hnone : ∀ j, (node.resume k site (.apply { task with pc := .accepted })).writtenAt j =
      none := by
    intro j
    rw [writtenAt_resume htask]
    split
    · rfl
    · next hjk =>
      cases hj : node.writtenAt j with
      | none => rfl
      | some signed => exact absurd (h.oneWritten j k _ _ hj hk) hjk
  have hlast : ∀ last ∈ (node.acceptedManifests ++ [(k, task.signed)]).getLast?,
      last = (k, task.signed) := by
    intro last hl
    simpa using hl.symm
  have habove : ∀ a ∈ node.acceptedManifests, a.2.version < task.signed.version := by
    intro a ha
    exact Nat.lt_of_le_of_lt (h.bound a ha) hhigher
  constructor
  case noPush => exact noPush_set h (by simp)
  case written =>
    intro j signed hj
    exact absurd (hj.symm.trans (hnone j)) (by simp)
  case oneWritten =>
    intro i j a b hi _
    exact absurd (hi.symm.trans (hnone i)) (by simp)
  case rising => exact rising_append _ h.rising habove
  case bound =>
    intro a ha
    change a.2.version ≤ site.loadState.manifestVersion
    rw [hversion]
    rcases List.mem_append.mp ha with ha | ha
    · exact Nat.le_of_lt (habove a ha)
    · cases List.mem_singleton.mp ha
      exact Nat.le_refl _
  case last =>
    intro last hl
    rw [hlast last hl]
    exact hversion
  case settled =>
    intro hfree _ last hl
    rw [hlast last hl]
    exact hmanifest.trans (htoml hfree)

/-! ### Agent versions -/

/-- What holds of the `k`-th task, if it is an upgrade: a version admitted is higher than the
one read; an accepted one is in the log, above the version that a failed spawn restores; and
a process is spawned once only. -/
def UpgradeTaskInv (accepted spawned : List (Nat × AgentUpgrade)) (k : Nat) (task : UpgradeTask) :
    Prop :=
  match task.pc with
  | .write state | .link state | .commit state =>
    state.agentVersion < task.pkg.version ∧ k ∉ spawned.map Prod.fst
  | .spawn previous | .restore previous =>
    (k, task.pkg) ∈ accepted ∧ k ∉ spawned.map Prod.fst ∧
      ∀ a ∈ accepted, a.2.version < task.pkg.version → a.2.version ≤ previous
  | .exiting | .exited => True
  | _ => k ∉ spawned.map Prod.fst

/-- What holds of the agent versions in runs without overtaking. -/
structure UpgradeInv (node : Node) : Prop where
  tasks : ∀ (k : Nat) task, node.tasks[k]? = some (.upgrade task) →
    UpgradeTaskInv node.standingUpgrades node.spawned k task
  rising : (node.standingUpgrades.map (·.2.version)).Pairwise (· < ·)
  bound : ∀ a ∈ node.standingUpgrades, a.2.version ≤ node.site.loadState.agentVersion
  spawnedAccepted : ∀ p ∈ node.spawned, p ∈ node.standingUpgrades
  spawnedOnce : (node.spawned.map Prod.fst).Nodup
  spawnedTasks : ∀ p ∈ node.spawned, p.1 < node.tasks.length

-- The task keeps its invariant under other logs if its index stays out of the processes and an
-- accepted task keeps its place.
private theorem upgradeTaskInv_mono
    {accepted spawned accepted' spawned' : List (Nat × AgentUpgrade)} {k : Nat}
    {task : UpgradeTask} (h : UpgradeTaskInv accepted spawned k task)
    (hspawned : k ∉ spawned.map Prod.fst → k ∉ spawned'.map Prod.fst)
    (haccepted : ∀ previous, (k, task.pkg) ∈ accepted →
      (∀ a ∈ accepted, a.2.version < task.pkg.version → a.2.version ≤ previous) →
        (k, task.pkg) ∈ accepted' ∧
          ∀ a ∈ accepted', a.2.version < task.pkg.version → a.2.version ≤ previous) :
    UpgradeTaskInv accepted' spawned' k task := by
  cases hpc : task.pc with
  | write state | link state | commit state =>
    simp only [UpgradeTaskInv, hpc] at h ⊢
    exact ⟨h.1, hspawned h.2⟩
  | spawn previous | restore previous =>
    simp only [UpgradeTaskInv, hpc] at h ⊢
    obtain ⟨hmem, hbelow⟩ := haccepted previous h.1 h.2.2
    exact ⟨hmem, hspawned h.2.1, hbelow⟩
  | exiting | exited => simp only [UpgradeTaskInv, hpc]
  | _ =>
    simp only [UpgradeTaskInv, hpc] at h ⊢
    exact hspawned h

private theorem eq_of_version_eq {node : Node} (h : UpgradeInv node) {a b : Nat × AgentUpgrade}
    (ha : a ∈ node.standingUpgrades) (hb : b ∈ node.standingUpgrades)
    (hv : a.2.version = b.2.version) : a = b := by
  have hpair := List.pairwise_map.mp h.rising
  have hsame : node.standingUpgrades.Pairwise fun a b ↦ a.2.version = b.2.version → a = b :=
    hpair.imp fun hlt he ↦ absurd he (Nat.ne_of_lt hlt)
  have hflip : node.standingUpgrades.Pairwise
      (flip fun a b : Nat × AgentUpgrade ↦ a.2.version = b.2.version → a = b) :=
    hpair.imp fun hlt he ↦ absurd he.symm (Nat.ne_of_lt hlt)
  exact hsame.forall_of_forall_of_flip (fun _ _ _ ↦ rfl) hflip ha hb hv

private theorem upgradeInv_frame {node d : Node} (h : UpgradeInv node)
    (hagent : d.site.loadState.agentVersion = node.site.loadState.agentVersion)
    (haccepted : d.standingUpgrades = node.standingUpgrades) (hspawned : d.spawned = node.spawned)
    (hlength : node.tasks.length ≤ d.tasks.length)
    (htasks : ∀ (k : Nat) task, d.tasks[k]? = some (.upgrade task) →
      UpgradeTaskInv node.standingUpgrades node.spawned k task) : UpgradeInv d where
  tasks k task hk := by
    rw [haccepted, hspawned]
    exact htasks k task hk
  rising := by
    rw [haccepted]
    exact h.rising
  bound a ha := by
    rw [haccepted] at ha
    rw [hagent]
    exact h.bound a ha
  spawnedAccepted p hp := by
    rw [hspawned] at hp
    rw [haccepted]
    exact h.spawnedAccepted p hp
  spawnedOnce := by
    rw [hspawned]
    exact h.spawnedOnce
  spawnedTasks p hp := by
    rw [hspawned] at hp
    exact Nat.lt_of_lt_of_le (h.spawnedTasks p hp) hlength

private theorem upgradeInv_resume {node : Node} (h : UpgradeInv node) {k : Nat} {site : Site}
    {next : Task} (hagent : site.loadState.agentVersion = node.site.loadState.agentVersion)
    (hnext : ∀ task, next = .upgrade task →
      UpgradeTaskInv node.standingUpgrades node.spawned k task) :
    UpgradeInv (node.resume k site next) := by
  have hlength : node.tasks.length ≤ (node.resume k site next).tasks.length := by
    change node.tasks.length ≤ (node.tasks.set k next).length
    rw [List.length_set]
  have htasks : ∀ (j : Nat) task, (node.resume k site next).tasks[j]? = some (.upgrade task) →
      UpgradeTaskInv node.standingUpgrades node.spawned j task := by
    intro j task hj
    rcases getElem?_set_cases hj with ⟨rfl, he⟩ | ⟨-, hj⟩
    · exact hnext task he.symm
    · exact h.tasks j task hj
  exact upgradeInv_frame h hagent rfl rfl hlength htasks

-- An upgrade about to be accepted is above all that stand.
private theorem standing_lt_of_commit {node : Node} (h : UpgradeInv node) {k : Nat}
    {task : UpgradeTask} {state : AgentState} (htask : node.tasks[k]? = some (.upgrade task))
    (hpc : task.pc = .commit state)
    (hread : node.site.loadState.agentVersion = state.agentVersion) :
    ∀ a ∈ node.standingUpgrades, a.2.version < task.pkg.version := by
  intro a ha
  have hbound := h.bound a ha
  have hadmitted := h.tasks k task htask
  simp only [UpgradeTaskInv, hpc] at hadmitted
  omega

private theorem upgradeInv_accept {node : Node} (h : UpgradeInv node) {k : Nat} {site : Site}
    {task : UpgradeTask} {state : AgentState} (htask : node.tasks[k]? = some (.upgrade task))
    (hpc : task.pc = .commit state) (hagent : site.loadState.agentVersion = task.pkg.version)
    (hread : node.site.loadState.agentVersion = state.agentVersion) :
    UpgradeInv ((node.resume k site (.upgrade { task with pc := .spawn state.agentVersion })).mark
      k task.pkg .accepted) := by
  have hold : state.agentVersion < task.pkg.version ∧ k ∉ node.spawned.map Prod.fst := by
    simpa [UpgradeTaskInv, hpc] using h.tasks k task htask
  have hbelow : ∀ a ∈ node.standingUpgrades, a.2.version ≤ state.agentVersion := by
    intro a ha
    rw [← hread]
    exact h.bound a ha
  have habove := standing_lt_of_commit h htask hpc hread
  constructor
  case tasks =>
    intro j other hj
    rcases getElem?_set_cases hj with ⟨rfl, he⟩ | ⟨-, hj⟩
    · cases he
      refine ⟨List.mem_append_right _ List.mem_cons_self, hold.2, ?_⟩
      intro a ha hlt
      rcases List.mem_append.mp ha with ha | ha
      · exact hbelow a ha
      · cases List.mem_singleton.mp ha
        exact absurd hlt (Nat.lt_irrefl _)
    · apply upgradeTaskInv_mono (h.tasks j other hj) id
      intro previous hmem hprev
      constructor
      · exact List.mem_append_left _ hmem
      · intro a ha hlt
        rcases List.mem_append.mp ha with ha | ha
        · exact hprev a ha hlt
        · -- the new version is above those accepted before, so above this one
          cases List.mem_singleton.mp ha
          exact absurd hlt (Nat.lt_asymm (habove _ hmem))
  case rising => exact rising_append _ h.rising habove
  case bound =>
    intro a ha
    change a.2.version ≤ site.loadState.agentVersion
    rw [hagent]
    rcases List.mem_append.mp ha with ha | ha
    · exact Nat.le_of_lt (habove a ha)
    · cases List.mem_singleton.mp ha
      exact Nat.le_refl _
  case spawnedAccepted =>
    intro p hp
    exact List.mem_append_left _ (h.spawnedAccepted p hp)
  case spawnedOnce => exact h.spawnedOnce
  case spawnedTasks =>
    intro p hp
    change p.1 < (node.tasks.set k _).length
    rw [List.length_set]
    exact h.spawnedTasks p hp

private theorem upgradeInv_spawn {node : Node} (h : UpgradeInv node) {k : Nat}
    {task : UpgradeTask} {previous : Nat} (htask : node.tasks[k]? = some (.upgrade task))
    (hpc : task.pc = .spawn previous) :
    UpgradeInv ((node.resume k node.site (.upgrade { task with pc := .exiting })).mark
      k task.pkg .spawned) := by
  have hold := h.tasks k task htask
  simp only [UpgradeTaskInv, hpc] at hold
  have hlt : k < node.tasks.length := (List.getElem?_eq_some_iff.mp htask).1
  constructor
  case tasks =>
    intro j other hj
    rcases getElem?_set_cases hj with ⟨rfl, he⟩ | ⟨hjk, hj⟩
    · cases he
      trivial
    · apply upgradeTaskInv_mono (h.tasks j other hj)
      · -- another task has another index, so the new process does not concern it
        intro hnot
        change j ∉ (node.spawned ++ [(k, task.pkg)]).map Prod.fst
        simp only [List.map_append, List.mem_append, List.map_cons, List.map_nil,
          List.mem_singleton, not_or]
        exact ⟨hnot, hjk⟩
      · intro _ hmem hprev
        exact ⟨hmem, hprev⟩
  case rising => exact h.rising
  case bound => exact h.bound
  case spawnedAccepted =>
    intro p hp
    rcases List.mem_append.mp hp with hp | hp
    · exact h.spawnedAccepted p hp
    · cases List.mem_singleton.mp hp
      exact hold.1
  case spawnedOnce =>
    change ((node.spawned ++ [(k, task.pkg)]).map Prod.fst).Nodup
    rw [List.map_append]
    exact h.spawnedOnce.append (List.nodup_singleton _) (by simpa using hold.2.1)
  case spawnedTasks =>
    intro p hp
    change p.1 < (node.tasks.set k _).length
    rw [List.length_set]
    rcases List.mem_append.mp hp with hp | hp
    · exact h.spawnedTasks p hp
    · cases List.mem_singleton.mp hp
      exact hlt

private theorem upgradeInv_restore {node : Node} (h : UpgradeInv node) {k : Nat} {site : Site}
    {task : UpgradeTask} {previous : Nat} (htask : node.tasks[k]? = some (.upgrade task))
    (hpc : task.pc = .restore previous) (hagent : site.loadState.agentVersion = previous)
    (hown : node.site.loadState.agentVersion = task.pkg.version) :
    UpgradeInv ((node.resume k site (.upgrade { task with pc := .rejected })).mark
      k task.pkg .withdrawn) := by
  have hold := h.tasks k task htask
  simp only [UpgradeTaskInv, hpc] at hold
  have hmem {a : Nat × AgentUpgrade} (ha : a ∈ node.standingUpgrades.filter (·.1 ≠ k)) :
      a ∈ node.standingUpgrades ∧ a.1 ≠ k := by
    simpa using List.mem_filter.mp ha
  constructor
  case tasks =>
    intro j other hj
    rcases getElem?_set_cases hj with ⟨rfl, he⟩ | ⟨hjk, hj⟩
    · cases he
      exact hold.2.1
    · apply upgradeTaskInv_mono (h.tasks j other hj) id
      intro _ hin hprev
      constructor
      · exact List.mem_filter.mpr ⟨hin, by simpa using hjk⟩
      · intro a ha hlt
        exact hprev a (hmem ha).1 hlt
  case rising => exact h.rising.sublist ((List.filter_sublist).map _)
  case bound =>
    -- what is left lies below the withdrawn version, so it was accepted before it
    intro a ha
    obtain ⟨ha, hak⟩ := hmem ha
    have hle := h.bound a ha
    have hne : a.2.version ≠ task.pkg.version := by
      intro he
      exact hak (congrArg Prod.fst (eq_of_version_eq h ha hold.1 he))
    change a.2.version ≤ site.loadState.agentVersion
    rw [hagent]
    exact hold.2.2 a ha (by omega)
  case spawnedAccepted =>
    intro p hp
    have hpk : p.1 ≠ k := by
      intro he
      exact hold.2.1 (List.mem_map.mpr ⟨p, hp, he⟩)
    exact List.mem_filter.mpr ⟨h.spawnedAccepted p hp, by simpa using hpk⟩
  case spawnedOnce => exact h.spawnedOnce
  case spawnedTasks =>
    intro p hp
    change p.1 < (node.tasks.set k _).length
    rw [List.length_set]
    exact h.spawnedTasks p hp

/-! ### Steps -/

private theorem pc_of_spawns_apply {event : Event} {task : ApplyTask}
    (h : event.Spawns (.apply task)) : task.pc = .check := by
  cases event with
  | applyManifest signed => exact h.2
  | _ => exact h.elim

private theorem isPush_of_spawns {event : Event} {task : PushTask}
    (h : event.Spawns (.push task)) : event.isPush = true := by
  cases event with
  | pushComponent pkg => rfl
  | webPush pkg => rfl
  | _ => exact h.elim

private theorem manifestInv_spawned {node : Node} (h : ManifestInv pushFree node) {task : Task}
    {event : Event} (hspawns : event.Spawns task) (hpush : pushFree → event.isPush = false) :
    ManifestInv pushFree (node.spawn task) := by
  have hnone : task.written = none := by
    cases task with
    | apply task =>
      simp [Task.written, pc_of_spawns_apply hspawns]
    | _ => rfl
  have hfreed : pushFree → ∀ (k : Nat) pushed,
      (node.spawn task).tasks[k]? ≠ some (.push pushed) := by
    intro hfree k pushed hk
    change (node.tasks ++ [task])[k]? = some (.push pushed) at hk
    rw [List.getElem?_append] at hk
    split at hk
    · exact h.noPush hfree k pushed hk
    · have hmem := List.mem_of_getElem? hk
      rw [← List.mem_singleton.mp hmem] at hspawns
      exact absurd (hpush hfree) (by rw [isPush_of_spawns hspawns]; simp)
  have hwritten : ∀ k, (node.spawn task).writtenAt k = node.writtenAt k := by
    intro k
    change ((node.tasks ++ [task])[k]?).bind Task.written = node.tasks[k]?.bind Task.written
    rw [List.getElem?_append]
    split
    · rfl
    · next hlt =>
      rw [List.getElem?_eq_none (Nat.le_of_not_lt hlt)]
      cases hk : [task][k - node.tasks.length]? with
      | none => rfl
      | some found =>
        cases List.mem_singleton.mp (List.mem_of_getElem? hk)
        exact hnone
  exact manifestInv_frame h hfreed rfl (fun _ ↦ rfl) rfl hwritten

private theorem upgradeInv_spawned {node : Node} (h : UpgradeInv node) {task : Task}
    {event : Event} (hspawns : event.Spawns task) : UpgradeInv (node.spawn task) := by
  have hlength : node.tasks.length ≤ (node.spawn task).tasks.length := by
    change node.tasks.length ≤ (node.tasks ++ [task]).length
    rw [List.length_append]
    omega
  have htasks : ∀ (k : Nat) found, (node.spawn task).tasks[k]? = some (.upgrade found) →
      UpgradeTaskInv node.standingUpgrades node.spawned k found := by
    intro k found hk
    change (node.tasks ++ [task])[k]? = some (.upgrade found) at hk
    rw [List.getElem?_append] at hk
    split at hk
    · exact h.tasks k found hk
    · next hlt =>
      have hin := List.mem_singleton.mp (List.mem_of_getElem? hk)
      subst hin
      have hpc : found.pc = .check := by
        cases event with
        | upgradeAgent pkg => exact hspawns.2
        | _ => exact hspawns.elim
      have hnot : k ∉ node.spawned.map Prod.fst := by
        intro hm
        obtain ⟨p, hp, rfl⟩ := List.mem_map.mp hm
        exact hlt (h.spawnedTasks p hp)
      simpa only [UpgradeTaskInv, hpc] using hnot
  exact upgradeInv_frame h rfl rfl rfl hlength htasks

private theorem manifestInv_apply {x : Env} {node : Node} (h : ManifestInv pushFree node) {k : Nat}
    {input : StepInput} {task : ApplyTask} {site : Site} {pc : ApplyPc} {accepted : Bool}
    (htask : node.tasks[k]? = some (.apply task))
    (hmoves : ApplyMoves x node.site task site pc accepted)
    (hcond : NoOvertaking node (.advance k input)) :
    ManifestInv pushFree { node.resume k site (.apply { task with pc }) with
      acceptedManifests := node.acceptedManifests ++
        if accepted then [(k, task.signed)] else [] } := by
  have hstaging {pc : ApplyPc} (hs : pc = .check ∨ pc.staging = true) :
      Task.written (.apply { task with pc }) = none := by
    cases pc <;> simp [ApplyPc.staging, Task.written] at hs ⊢
  have hold (hs : task.pc = .check ∨ task.pc.staging = true) :
      Task.written (.apply task) = none := hstaging hs
  cases hmoves with
  | refused hpc htrust =>
    rw [if_neg (by decide), List.append_nil]
    rcases htrust with hkeeps | ⟨u, -, htrust, hkeeps⟩
    · exact manifestInv_resume h htask (by simp) (congrArg _ (loadState_congr hkeeps.stateJson))
        hkeeps.desiredManifest (hold hpc).symm
    · exact manifestInv_resume h htask (by simp)
        (congrArg _ (loadState_congr (hkeeps.stateJson.trans htrust.stateJson_eq)))
        (hkeeps.desiredManifest.trans htrust.desiredManifest_eq) (hold hpc).symm
  | checked hpc _ htrust _ hnext =>
    rw [if_neg (by decide), List.append_nil]
    exact manifestInv_resume h htask (by simp) (congrArg _ (loadState_congr htrust.stateJson_eq))
      htrust.desiredManifest_eq ((hstaging (.inr hnext)).trans (hold (.inl hpc)).symm)
  | staged hpc hkeeps hnext =>
    rw [if_neg (by decide), List.append_nil]
    exact manifestInv_resume h htask (by simp) (congrArg _ (loadState_congr hkeeps.stateJson))
      hkeeps.desiredManifest ((hstaging (.inr hnext)).trans (hold (.inr hpc)).symm)
  | persisted hpc _ hstate hmanifest =>
    rw [if_neg (by decide), List.append_nil]
    obtain ⟨hhigher, halone⟩ := hcond.1 task _ _ htask hpc
    exact manifestInv_persist h htask (loadState_congr hstate) hmanifest hhigher halone
  | installed hpc hkeeps =>
    rw [if_neg (by decide), List.append_nil]
    exact manifestInv_resume h htask (by simp) (congrArg _ (loadState_congr hkeeps.stateJson))
      hkeeps.desiredManifest (by simp [Task.written, hpc])
  | committed hpc _ hstate hmanifest =>
    rw [if_pos rfl]
    exact manifestInv_commit h htask hpc (by simp [Site.loadState, hstate]) hmanifest

private theorem upgradeInv_apply {x : Env} {node : Node} (h : UpgradeInv node) {k : Nat}
    {task : ApplyTask} {site : Site} {pc : ApplyPc} {accepted : Bool}
    (hmoves : ApplyMoves x node.site task site pc accepted) :
    UpgradeInv { node.resume k site (.apply { task with pc }) with
      acceptedManifests := node.acceptedManifests ++
        if accepted then [(k, task.signed)] else [] } := by
  have hagent : site.loadState.agentVersion = node.site.loadState.agentVersion := by
    cases hmoves with
    | refused _ htrust =>
      rcases htrust with hkeeps | ⟨u, -, htrust, hkeeps⟩
      · rw [loadState_congr hkeeps.stateJson]
      · rw [loadState_congr hkeeps.stateJson, loadState_congr htrust.stateJson_eq]
    | checked _ _ htrust _ _ => rw [loadState_congr htrust.stateJson_eq]
    | staged _ hkeeps _ => rw [loadState_congr hkeeps.stateJson]
    | persisted _ _ hstate _ => rw [loadState_congr hstate]
    | installed _ hkeeps => rw [loadState_congr hkeeps.stateJson]
    | committed _ _ hstate _ => simp [Site.loadState, hstate]
  have hresume : UpgradeInv (node.resume k site (.apply { task with pc })) :=
    upgradeInv_resume h hagent (by simp)
  exact ⟨hresume.tasks, hresume.rising, hresume.bound, hresume.spawnedAccepted,
    hresume.spawnedOnce, hresume.spawnedTasks⟩

private theorem written_afterExit {task : Task} (h : task.written = none) :
    task.afterExit.written = none := by
  cases task with
  | apply task =>
    simp only [Task.afterExit]
    split
    · exact h
    · exact h
    · rfl
  | upgrade task =>
    simp only [Task.afterExit]
    split <;> rfl
  | push task =>
    simp only [Task.afterExit]
    split <;> rfl
  | killed => rfl

/-- A task that has outlived the exit was there before it. -/
theorem eq_of_afterExit {task next : Task} (h : task.afterExit = next)
    (hnext : next ≠ .killed) : task = next := by
  cases task with
  | apply task =>
    simp only [Task.afterExit] at h
    split at h
    · exact h
    · exact h
    · exact absurd h.symm hnext
  | upgrade task =>
    simp only [Task.afterExit] at h
    split at h
    · exact h
    · exact h
    · exact h
    · exact absurd h.symm hnext
  | push task =>
    simp only [Task.afterExit] at h
    split at h
    · exact h
    · exact h
    · exact absurd h.symm hnext
  | killed => exact h

private theorem getElem?_of_afterExit {tasks : List Task} {k : Nat} {task : Task}
    (h : (tasks.map Task.afterExit)[k]? = some task) (hlive : task ≠ .killed) :
    tasks[k]? = some task := by
  obtain ⟨old, hold, hexit⟩ := Option.map_eq_some_iff.mp ((List.getElem?_map ..).symm.trans h)
  rw [eq_of_afterExit hexit hlive] at hold
  exact hold

/-- Booking a step of an upgrade task brings in no task. -/
theorem Node.mem_of_mem_mark {node : Node} {k : Nat} {pkg : AgentUpgrade} {mark : UpgradeMark}
    {task : Task} (h : task ∈ (node.mark k pkg mark).tasks) (hlive : task ≠ .killed) :
    task ∈ node.tasks := by
  cases mark with
  | exit =>
    obtain ⟨old, hold, hexit⟩ := List.mem_map.mp h
    rw [eq_of_afterExit hexit hlive] at hold
    exact hold
  | _ => exact h

private theorem manifestInv_exit {node : Node} (h : ManifestInv pushFree node)
    (hnone : ∀ j, node.writtenAt j = none) :
    ManifestInv pushFree { node with tasks := node.tasks.map Task.afterExit } := by
  have hfreed : pushFree → ∀ (k : Nat) task,
      (node.tasks.map Task.afterExit)[k]? ≠ some (.push task) := by
    intro hfree k task hk
    exact h.noPush hfree k task (getElem?_of_afterExit hk (by simp))
  have hwritten : ∀ j, Node.writtenAt { node with tasks := node.tasks.map Task.afterExit } j =
      node.writtenAt j := by
    intro j
    rw [hnone j]
    have hj := hnone j
    unfold Node.writtenAt at hj ⊢
    rw [List.getElem?_map]
    cases hold : node.tasks[j]? with
    | none => rfl
    | some task =>
      rw [hold] at hj
      exact written_afterExit hj
  exact manifestInv_frame h hfreed rfl (fun _ ↦ rfl) rfl hwritten

private theorem upgradeInv_exit {node : Node} (h : UpgradeInv node) :
    UpgradeInv { node with tasks := node.tasks.map Task.afterExit } := by
  have htasks : ∀ (k : Nat) task,
      (node.tasks.map Task.afterExit)[k]? = some (.upgrade task) →
        UpgradeTaskInv node.standingUpgrades node.spawned k task := by
    intro k task hk
    exact h.tasks k task (getElem?_of_afterExit hk (by simp))
  exact upgradeInv_frame h rfl rfl rfl (by simp) htasks

private theorem manifestInv_upgrade {x : Env} {node : Node} (h : ManifestInv pushFree node)
    {k : Nat} {input : StepInput} {task : UpgradeTask} {site : Site} {pc : UpgradePc}
    {mark : UpgradeMark} (htask : node.tasks[k]? = some (.upgrade task))
    (hmoves : UpgradeMoves x node.site task site pc mark)
    (hcond : NoOvertaking node (.advance k input)) :
    ManifestInv pushFree
      ((node.resume k site (.upgrade { task with pc })).mark k task.pkg mark) := by
  obtain ⟨hread, -, hexit⟩ := hcond.2 task htask
  have hresume (hversion : site.loadState.manifestVersion = node.site.loadState.manifestVersion)
      (hmanifest : site.desiredManifest = node.site.desiredManifest) :
      ManifestInv pushFree (node.resume k site (.upgrade { task with pc })) :=
    manifestInv_resume h htask (by simp) hversion hmanifest rfl
  have hmark {d : Node} (hd : ManifestInv pushFree d) (hm : mark ≠ .exit) :
      ManifestInv pushFree (d.mark k task.pkg mark) := by
    cases mark with
    | exit => exact absurd rfl hm
    | _ => exact manifestInv_frame hd hd.noPush rfl (fun _ ↦ rfl) rfl fun _ ↦ rfl
  cases hmoves with
  | refused _ hkeeps | wrote _ hkeeps | linked _ hkeeps =>
    exact hresume (congrArg _ (loadState_congr hkeeps.stateJson)) hkeeps.desiredManifest
  | trusted _ hkeeps _ =>
    exact hresume (congrArg _ (loadState_congr hkeeps.stateJson)) hkeeps.desiredManifest
  | @committed site state hpc _ hstate hmanifest =>
    have hversion : site.loadState.manifestVersion = node.site.loadState.manifestVersion := by
      rw [(hread state hpc).1]
      simp [Site.loadState, hstate]
    exact hmark (hresume hversion hmanifest) (by simp)
  | restored _ _ hstate hmanifest =>
    apply hmark _ (by simp)
    apply hresume _ hmanifest
    simp [Site.loadState, hstate]
  | exits hpc =>
    apply manifestInv_exit (hresume rfl rfl)
    intro j
    have hsame : Task.written (.upgrade { task with pc := .exited }) =
        Task.written (.upgrade task) := rfl
    rw [writtenAt_resume_same htask hsame]
    exact hexit hpc j
  | spawned _ => exact hmark (hresume rfl rfl) (by simp)
  | _ => exact hresume rfl rfl

private theorem upgradeInv_upgrade {x : Env} {node : Node} (h : UpgradeInv node) {k : Nat}
    {input : StepInput} {task : UpgradeTask} {site : Site} {pc : UpgradePc} {mark : UpgradeMark}
    (htask : node.tasks[k]? = some (.upgrade task))
    (hmoves : UpgradeMoves x node.site task site pc mark)
    (hcond : NoOvertaking node (.advance k input)) :
    UpgradeInv ((node.resume k site (.upgrade { task with pc })).mark k task.pkg mark) := by
  obtain ⟨hread, hown, -⟩ := hcond.2 task htask
  have hold := h.tasks k task htask
  have hresume (hagent : site.loadState.agentVersion = node.site.loadState.agentVersion)
      (hnext : UpgradeTaskInv node.standingUpgrades node.spawned k { task with pc }) :
      UpgradeInv (node.resume k site (.upgrade { task with pc })) := by
    apply upgradeInv_resume h hagent
    intro next he
    cases he
    exact hnext
  cases hmoves with
  | refused hpc hkeeps =>
    apply hresume (congrArg _ (loadState_congr hkeeps.stateJson))
    rcases hpc with hpc | hpc | hpc | ⟨state, hpc⟩
    · simpa only [UpgradeTaskInv, hpc] using hold
    · simpa only [UpgradeTaskInv, hpc] using hold
    · simpa only [UpgradeTaskInv, hpc] using hold
    · simp only [UpgradeTaskInv, hpc] at hold
      exact hold.2
  | trusted hpc hkeeps hnext =>
    apply hresume (congrArg _ (loadState_congr hkeeps.stateJson))
    simp only [UpgradeTaskInv, hpc] at hold
    rcases hnext with rfl | rfl
    · exact hold
    · exact hold
  | admitted hpc hversion =>
    refine hresume rfl ⟨hversion, ?_⟩
    simpa only [UpgradeTaskInv, hpc] using hold
  | wrote hpc hkeeps | linked hpc hkeeps =>
    apply hresume (congrArg _ (loadState_congr hkeeps.stateJson))
    simpa only [UpgradeTaskInv, hpc] using hold
  | @committed site state hpc _ hstate _ =>
    exact upgradeInv_accept h htask hpc (by simp [Site.loadState, hstate]) (hread state hpc).2
  | spawned hpc => exact upgradeInv_spawn h htask hpc
  | spawnFailed hpc =>
    apply hresume rfl
    simpa only [UpgradeTaskInv, hpc] using hold
  | @restored site previous hpc _ hstate _ =>
    exact upgradeInv_restore h htask hpc (by simp [Site.loadState, hstate]) (hown previous hpc)
  | exits hpc => exact upgradeInv_exit (hresume rfl trivial)
  | checked hpc _ _ | suspended hpc _ _ | sniffed hpc | crashed hpc =>
    apply hresume rfl
    simpa only [UpgradeTaskInv, hpc] using hold

/-- A step that overtakes nobody keeps both invariants. -/
theorem versionInv_step {x : Env} {node d : Node} {event : Event} (hm : ManifestInv pushFree node)
    (hu : UpgradeInv node) (hpush : pushFree → event.isPush = false)
    (hcond : NoOvertaking node event) (hstep : step x node event = some d) :
    ManifestInv pushFree d ∧ UpgradeInv d := by
  cases moves_of_step hstep with
  | spawned hspawns =>
    exact ⟨manifestInv_spawned hm hspawns hpush, upgradeInv_spawned hu hspawns⟩
  | ignored _ => exact ⟨hm, hu⟩
  | @roles targetPeerIds newRoles roles site hsite =>
    have hload : site.loadState.manifestVersion = node.site.loadState.manifestVersion ∧
        site.loadState.agentVersion = node.site.loadState.agentVersion ∧
        site.desiredManifest = node.site.desiredManifest := by
      rcases hsite with rfl | rfl
      · exact ⟨rfl, rfl, rfl⟩
      · exact ⟨rfl, rfl, rfl⟩
    exact ⟨manifestInv_frame hm hm.noPush hload.1 (fun _ ↦ hload.2.2) rfl fun _ ↦ rfl,
      upgradeInv_frame hu hload.2.1 rfl rfl (Nat.le_refl _) hu.tasks⟩
  | apply htask hmoves =>
    exact ⟨manifestInv_apply hm htask hmoves hcond, upgradeInv_apply hu hmoves⟩
  | upgrade htask hmoves =>
    exact ⟨manifestInv_upgrade hm htask hmoves hcond, upgradeInv_upgrade hu htask hmoves hcond⟩
  | @push k input task site pc htask hmoves =>
    have hload : site.loadState = node.site.loadState := by
      apply loadState_congr
      cases hmoves with
      | refused => rfl
      | checked _ htrust => exact htrust.stateJson_eq
      | worked _ hkeeps _ => exact hkeeps.stateJson
      | persisted _ _ hstate => exact hstate
    have hsame : Task.written (.push { task with pc }) = Task.written (.push task) := rfl
    refine ⟨manifestInv_frame hm (fun hfree ↦ ?_) (congrArg _ hload) (fun hfree ↦ ?_) rfl
      (writtenAt_resume_same htask hsame site), upgradeInv_resume hu (congrArg _ hload) (by simp)⟩
    · exact absurd htask (hm.noPush hfree _ _)
    · exact absurd htask (hm.noPush hfree _ _)

/-- The invariants hold of a node whose handlers are all still to come. -/
theorem versionInv_init (site : Site) (roles : List String) :
    ManifestInv pushFree { site, roles } ∧ UpgradeInv { site, roles } := by
  constructor
  · constructor <;> simp [Node.writtenAt]
  · constructor <;> simp

-- Where the condition on the withdrawn upgrades is met, too, all acceptances keep rising.
private theorem accepted_rising_step {x : Env} {node d : Node} {event : Event}
    (hu : UpgradeInv node)
    (hrising : (node.acceptedUpgrades.map (·.2.version)).Pairwise (· < ·))
    (hcond : NoOvertaking node event) (hexceeds : ExceedsWithdrawn node event)
    (hstep : step x node event = some d) :
    (d.acceptedUpgrades.map (·.2.version)).Pairwise (· < ·) := by
  cases moves_of_step hstep with
  | spawned _ | ignored _ | roles _ | apply _ _ | push _ _ => exact hrising
  | @upgrade k input task site pc mark htask hmoves =>
    rw [Node.acceptedUpgrades_mark]
    change ((node.acceptedUpgrades ++ if mark = .accepted then [(k, task.pkg)] else []).map
      (·.2.version)).Pairwise (· < ·)
    cases hmoves with
    | @committed site state hpc _ _ _ =>
      have hread := ((hcond.2 task htask).1 state hpc).2
      have habove : ∀ a ∈ node.acceptedUpgrades, a.2.version < task.pkg.version := by
        intro a ha
        rcases hexceeds task state htask hpc a ha with hstands | hlt
        · exact standing_lt_of_commit hu htask hpc hread a hstands
        · exact hlt
      exact rising_append (k, task.pkg) hrising habove
    | _ => simpa using hrising

/-! ### Whole runs -/

/-- Once all handlers have come to their end, the last accepted manifest is the persisted one. -/
theorem persisted_of_finished {node : Node} (hm : ManifestInv True node)
    (hall : ∀ task ∈ node.tasks, task.finished) :
    ∀ last ∈ node.acceptedManifests.getLast?,
      node.site.desiredManifest = some last.2.manifestToml ∧
        node.site.loadState.manifestVersion = last.2.version := by
  intro last hlast
  refine ⟨hm.settled trivial (fun k ↦ ?_) last hlast, hm.last last hlast⟩
  unfold Node.writtenAt
  cases htask : node.tasks[k]? with
  | none => rfl
  | some task =>
    have hfin := hall task (List.mem_of_getElem? htask)
    cases task with
    | apply task =>
      rcases hfin with hpc | hpc
      · simp [Task.written, hpc]
      · simp [Task.written, hpc]
    | _ => rfl

private theorem versionsRise_of_inv {node : Node} (hm : ManifestInv True node)
    (hu : UpgradeInv node)
    (hrising : (node.acceptedUpgrades.map (·.2.version)).Pairwise (· < ·)) :
    VersionsRise node where
  manifests := hm.rising
  upgrades := hrising
  processes := by
    apply List.Nodup.map_on
    · intro a ha b hb hv
      exact eq_of_version_eq hu (hu.spawnedAccepted a ha) (hu.spawnedAccepted b hb) hv
    · exact List.Nodup.of_map _ hu.spawnedOnce
  persisted := persisted_of_finished hm

/-- In every run of apply and upgrade handlers on a node, whatever its files, if no handler
overtakes another between check and write and no upgrade is saved below one that was taken back,
then in every state reached the accepted versions rise, no version has spawned two processes,
and once all handlers have come to their end the persisted manifest and version are those of
the highest accepted one. -/
theorem versions_rise (x : Env) (site : Site) (roles : List String) (events : List Event)
    (hpush : ∀ event ∈ events, event.isPush = false)
    (hcond : StepsMeet (step x) (fun node event ↦ NoOvertaking node event ∧
      ExceedsWithdrawn node event) { site, roles } events) :
    Throughout (step x) VersionsRise { site, roles } events := by
  have hquiet : StepsMeet (step x) (fun _ event ↦ event.isPush = false) { site, roles } events :=
    stepsMeet_of_forall hpush _
  let inv (node : Node) : Prop := (ManifestInv True node ∧ UpgradeInv node) ∧
    (node.acceptedUpgrades.map (·.2.version)).Pairwise (· < ·)
  have hinv : ∀ node event d, inv node → (event.isPush = false ∧ NoOvertaking node event ∧
      ExceedsWithdrawn node event) → step x node event = some d → inv d := by
    intro node event d hi hp hstep
    constructor
    · exact versionInv_step hi.1.1 hi.1.2 (fun _ ↦ hp.1) hp.2.1 hstep
    · exact accepted_rising_step hi.1.2 hi.2 hp.2.1 hp.2.2 hstep
  apply throughout_of_invariant hinv (fun node hi ↦ versionsRise_of_inv hi.1.1 hi.1.2 hi.2)
  · exact ⟨versionInv_init site roles, List.Pairwise.nil⟩
  · exact (stepsMeet_and _ events).mpr ⟨hquiet, hcond⟩

/-- The condition as a test. -/
def steady (node : Node) : Event → Bool
  | .advance k _ =>
    match node.tasks[k]? with
    | some (.apply task) =>
      match task.pc with
      | .persist _ _ => node.site.loadState.manifestVersion < task.signed.version &&
          node.tasks.all (·.written.isNone)
      | _ => true
    | some (.upgrade task) =>
      match task.pc with
      | .commit state => node.site.loadState.manifestVersion == state.manifestVersion &&
          node.site.loadState.agentVersion == state.agentVersion
      | .restore _ => node.site.loadState.agentVersion == task.pkg.version
      | .exiting => node.tasks.all (·.written.isNone)
      | _ => true
    | _ => true
  | _ => true

private theorem writtenAt_of_all {node : Node} (h : node.tasks.all (·.written.isNone) = true)
    (j : Nat) : node.writtenAt j = none := by
  unfold Node.writtenAt
  cases hj : node.tasks[j]? with
  | none => rfl
  | some task =>
    have hnone := List.all_eq_true.mp h task (List.mem_of_getElem? hj)
    exact Option.isNone_iff_eq_none.mp hnone

/-- The test implies the condition. -/
theorem noOvertaking_of_steady (node : Node) (event : Event)
    (h : steady node event = true) : NoOvertaking node event := by
  cases event with
  | advance k input =>
    refine ⟨fun task applicable staged htask hpc ↦ ?_, fun task htask ↦ ⟨fun state hpc ↦ ?_,
      fun previous hpc ↦ ?_, fun hpc ↦ ?_⟩⟩
    · simp only [steady, htask, hpc, Bool.and_eq_true, decide_eq_true_eq] at h
      exact ⟨h.1, writtenAt_of_all h.2⟩
    · simpa only [steady, htask, hpc, Bool.and_eq_true, beq_iff_eq] using h
    · simpa only [steady, htask, hpc, beq_iff_eq] using h
    · simp only [steady, htask, hpc] at h
      exact writtenAt_of_all h
  | _ => trivial

/-- A manifest of the first owner. -/
def manifestA (version : Nat) (file signatureB64 : String) : SignedManifest where
  alg := "ed25519"
  ownerPubBs58 := "ed25519:AKnL4NNf3DGWZJS6cPknBuEGnVsV4A4m5tgebLHaRSZ9"
  version := version
  manifestToml := manifestText file
  signatureB64 := signatureB64

/-- Its first manifest. -/
def firstManifest (version : Nat) : SignedManifest :=
  manifestA version "web"
    "Uw0yilez4aG5g5n3phhhWyzBad0cqqF6rKx7che54XzGBEpwk5uBjFXpz5FN6u8dcjs2YlANCWPELnrHugkPAg=="

/-- Its second manifest. -/
def secondManifest (version : Nat) : SignedManifest :=
  manifestA version "next"
    "rT5/U3DO7rgl+8VMk7yieUe0Nukm3LErQrAqpWyegI9nhw2IGW2UV3jpP2XMeEsq7Cpfa+6HES2DXPekqHhKCg=="

/-- A handler step whose fetch, if it makes one, answers with the module. -/
def fetching (k : Nat) : Event := .advance k { fetched := .ok emptyWasm }

/-- Two manifests applied one after the other, an upgrade whose process fails to spawn, and then
a newer one. -/
def oneByOne : List Event :=
  .applyManifest (firstManifest 1) :: List.replicate 5 (fetching 0) ++
    .applyManifest (secondManifest 2) :: List.replicate 5 (fetching 1) ++
    .upgradeAgent (upgradeA 1) :: List.replicate 8 (.advance 2 { spawned := false }) ++
    .upgradeAgent (upgradeA 2) :: List.replicate 8 (fetching 3)

private theorem exceedsWithdrawn_of_test (node : Node) (event : Event)
    (h : (match event with
      | .advance k _ => match node.tasks[k]? with
        | some (.upgrade task) => node.acceptedUpgrades.all fun a ↦
            node.standingUpgrades.contains a || a.2.version < task.pkg.version
        | _ => true
      | _ => true) = true) : ExceedsWithdrawn node event := by
  cases event with
  | advance k input =>
    intro task state htask hpc a ha
    simp only [htask] at h
    simpa using List.all_eq_true.mp h a ha
  | _ => trivial

/-- In that run both manifests and both upgrades are accepted, the newer one runs, and all is as
it should be. -/
theorem versions_rise_oneByOne :
    (run (step sampleEnv) {} oneByOne).map (fun d ↦ (d.acceptedManifests.map (·.2.version),
      d.acceptedUpgrades.map (·.2.version), d.spawned.map (·.2.version))) =
        some ([1, 2], [1, 2], [2]) ∧
      Throughout (step sampleEnv) VersionsRise {} oneByOne :=
  ⟨by decide +kernel,
    versions_rise sampleEnv {} [] oneByOne (by decide) ((stepsMeet_and _ _).mpr
      ⟨stepsMeet_of_checkSteps noOvertaking_of_steady (by decide +kernel),
        stepsMeet_of_checkSteps exceedsWithdrawn_of_test (by decide +kernel)⟩)⟩

/-- The first manifest is checked, then the second one is checked and applied, then the first
one goes on. -/
def overtakenApply : List Event :=
  [.applyManifest (firstManifest 1), fetching 0, .applyManifest (secondManifest 2)] ++
    List.replicate 5 (fetching 1) ++ List.replicate 4 (fetching 0)

/-- Version 1 is accepted after version 2 and stays the persisted one. -/
theorem versions_fall :
    ¬ Throughout (step sampleEnv) VersionsRise {} overtakenApply := by
  intro h
  have hrun : (run (step sampleEnv) {} overtakenApply).map
      (fun d ↦ d.acceptedManifests.map (·.2.version)) = some [2, 1] := by decide +kernel
  obtain ⟨d, hd, hversions⟩ := Option.map_eq_some_iff.mp hrun
  have hrise := (h overtakenApply [] (by simp) d hd).manifests
  rw [hversions] at hrise
  exact absurd hrise (by decide)

end PeerDeploy.Deploy
