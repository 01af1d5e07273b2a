import PeerDeploy.Deploy.Owner
import PeerDeploy.Supervisor.Accounting

/-!
# Stopping a component

`api_component_stop` of `crates/agent/src/web/handlers.rs:1167–1258`. "Stop the component by
removing it from the supervisor's desired state", its comment says; the code aborts the tasks
and edits the persisted manifest. The work directory that the cleanup removes and the log lines
are left out.
-/

namespace PeerDeploy.Supervisor

open PeerDeploy.Common PeerDeploy.Base PeerDeploy.Deploy

/-- What the handler works on. -/
structure WebNode where
  supervisor : SupervisorState
  /-- Text of `desired_manifest.toml`. -/
  desiredManifest : Option String

/-- The text that is saved, or the error; `crates/agent/src/web/handlers.rs:1233–1258`. -/
def removeComponentFromPersistentManifest (x : Externals) (serializeError : String)
    (desiredManifest : Option String) (name : String) : Except String String :=
  match desiredManifest with
  | none => .error "No persistent manifest found"
  | some toml =>
    match x.tomlParse toml with
    | .error e => .error s!"Failed to parse manifest: {e}"
    | .ok manifest =>
      if manifest.components.contains name then
        match x.tomlWrite ⟨manifest.components.erase name⟩ with
        | none => .error s!"Failed to serialize manifest: {serializeError}"
        | some updated => .ok updated
      else .error s!"Component '{name}' not found in manifest"

/-- `crates/agent/src/web/handlers.rs:1220–1231`. -/
def stopComponent (x : Externals) (serializeError : String) (n : WebNode) (name : String) :
    WebNode × Except String Unit :=
  let supervisor := n.supervisor.cleanupComponent name
  match removeComponentFromPersistentManifest x serializeError n.desiredManifest name with
  | .error e => ({ n with supervisor }, .error e)
  | .ok updated =>
    ({ supervisor := { supervisor with componentsRunning := supervisor.componentsRunning - 1 }
       desiredManifest := some updated }, .ok ())

/-- Status and body of the response; `crates/agent/src/web/handlers.rs:1167–1218`. -/
def apiComponentStop (x : Externals) (serializeError : String) (n : WebNode) (name : String) :
    WebNode × Nat × String :=
  if name = "" then (n, 400, "Component name cannot be empty")
  else if n.supervisor.desired.contains name then
    match stopComponent x serializeError n name with
    | (n, .ok ()) => (n, 200, s!"Component '{name}' stopped successfully")
    | (n, .error e) => (n, 500, s!"Failed to stop component: {e}")
  else (n, 404, s!"Component '{name}' not found")

/-- The component with that name in the persisted manifest. -/
def WebNode.persisted (x : Externals) (n : WebNode) (name : String) : Option ComponentSpec :=
  match n.desiredManifest.map x.tomlParse with
  | some (.ok manifest) => manifest.components[name]?
  | _ => none

/-- The component is stopped: it is neither desired nor persisted, no replica of it is live, and
none will be until it is desired again; then as many are started as are wanted. The other
components are as they were. -/
structure Stopped (x : Externals) (dataDir name : String) (before after : WebNode) : Prop where
  undesired : after.supervisor.desired[name]? = none
  unpersisted : after.persisted x name = none
  quiet : liveCount after.supervisor name = 0
  silent : ∀ events u, (∀ event ∈ events, event.updates = false) →
    run (step dataDir) after.supervisor events = some u → liveCount u name = 0
  others : ∀ other, other ≠ name →
    after.supervisor.desired[other]? = before.supervisor.desired[other]? ∧
    after.supervisor.count other = before.supervisor.count other ∧
    after.supervisor.tasks[other]? = before.supervisor.tasks[other]? ∧
    liveCount after.supervisor other = liveCount before.supervisor other ∧
    after.persisted x other = before.persisted x other
  again : ∀ component inputs u, component.name = name →
    run (step dataDir) after.supervisor
      (.upsertComponent component :: .reconcile :: advances inputs) = some u →
    u.reconcile = none → name ∉ u.httpStaged → liveCount u name = wanted component

/-- The call finds the component everywhere, and the rest of the manifest can be written. -/
structure Stoppable (x : Externals) (n : WebNode) (name : String) : Prop where
  named : name ≠ ""
  desired : n.supervisor.desired.contains name = true
  persisted : ∃ toml manifest, n.desiredManifest = some toml ∧
    x.tomlParse toml = .ok manifest ∧ manifest.components.contains name = true ∧
    (x.tomlWrite ⟨manifest.components.erase name⟩).isSome = true

section Stop

variable {x : Externals} {serializeError : String} {n : WebNode} {name : String}

private theorem cleanupComponent_keeps (s : SupervisorState) (name : String) :
    (s.cleanupComponent name).desired = s.desired ∧
      (s.cleanupComponent name).counts = s.counts ∧
        (s.cleanupComponent name).reconcile = s.reconcile := by
  unfold SupervisorState.cleanupComponent
  split
  · exact ⟨rfl, rfl, rfl⟩
  · exact ⟨rfl, rfl, rfl⟩

private theorem removeComponent_ok {updated : String} :
    removeComponentFromPersistentManifest x serializeError n.desiredManifest name = .ok updated ↔
      ∃ toml manifest, n.desiredManifest = some toml ∧ x.tomlParse toml = .ok manifest ∧
        manifest.components.contains name = true ∧
          x.tomlWrite ⟨manifest.components.erase name⟩ = some updated := by
  unfold removeComponentFromPersistentManifest
  cases htoml : n.desiredManifest with
  | none => simp
  | some toml =>
    cases hparse : x.tomlParse toml with
    | error e => simp [hparse]
    | ok manifest =>
      by_cases hin : name ∈ manifest.components
      · cases hwrite : x.tomlWrite ⟨manifest.components.erase name⟩ <;> simp [hparse, hin, hwrite]
      · simp [hparse, hin]

/-- The call returns OK exactly when it finds the component everywhere. -/
theorem stop_ok_iff :
    (apiComponentStop x serializeError n name).2.1 = 200 ↔ Stoppable x n name := by
  unfold apiComponentStop stopComponent
  by_cases hname : name = ""
  · rw [if_pos hname]
    exact ⟨fun h ↦ absurd (show 400 = 200 from h) (by decide), fun h ↦ absurd hname h.named⟩
  rw [if_neg hname]
  by_cases hdesired : n.supervisor.desired.contains name = true
  · rw [if_pos hdesired]
    dsimp only
    cases hremove :
        removeComponentFromPersistentManifest x serializeError n.desiredManifest name with
    | error e =>
      refine ⟨fun h ↦ absurd (show 500 = 200 from h) (by decide), fun h ↦ ?_⟩
      obtain ⟨toml, manifest, htoml, hparse, hin, hwrite⟩ := h.persisted
      obtain ⟨updated, hupdated⟩ := Option.isSome_iff_exists.mp hwrite
      rw [removeComponent_ok.mpr ⟨toml, manifest, htoml, hparse, hin, hupdated⟩] at hremove
      cases hremove
    | ok updated =>
      refine ⟨fun _ ↦ ⟨hname, hdesired, ?_⟩, fun _ ↦ rfl⟩
      obtain ⟨toml, manifest, htoml, hparse, hin, hwrite⟩ := removeComponent_ok.mp hremove
      exact ⟨toml, manifest, htoml, hparse, hin, by rw [hwrite]; rfl⟩
  · rw [if_neg hdesired]
    exact ⟨fun h ↦ absurd (show 404 = 200 from h) (by decide), fun h ↦ absurd h.desired hdesired⟩

/-- The call leaves the desired map and the counters alone. -/
theorem stop_keeps (x : Externals) (serializeError : String) (n : WebNode) (name : String) :
    (apiComponentStop x serializeError n name).1.supervisor.desired = n.supervisor.desired ∧
      (apiComponentStop x serializeError n name).1.supervisor.counts = n.supervisor.counts := by
  have hkeeps := cleanupComponent_keeps n.supervisor name
  unfold apiComponentStop stopComponent
  split
  · exact ⟨rfl, rfl⟩
  · split
    · dsimp only
      split
      · next heq =>
        split at heq
        · cases heq
        · cases heq
          exact ⟨hkeeps.1, hkeeps.2.1⟩
      · next heq =>
        split at heq
        · cases heq
          exact ⟨hkeeps.1, hkeeps.2.1⟩
        · cases heq
    · exact ⟨rfl, rfl⟩

/-- The component is never stopped: whenever the call returns OK, something of it is left. -/
theorem stopped_iff (x : Externals) (serializeError dataDir : String) (n : WebNode)
    (name : String) :
    ((apiComponentStop x serializeError n name).2.1 = 200 →
        Stopped x dataDir name n (apiComponentStop x serializeError n name).1) ↔
      ¬ Stoppable x n name := by
  rw [stop_ok_iff]
  constructor
  · intro hstopped hstop
    -- the component is still desired
    have hnone := (hstopped hstop).undesired
    rw [(stop_keeps x serializeError n name).1] at hnone
    have hsome := hstop.desired
    rw [Std.ExtTreeMap.contains_eq_isSome_getElem?, hnone] at hsome
    cases hsome
  · exact fun hno hstop ↦ absurd hstop hno

/-- A component that is desired again after a stop gets the wanted replicas less those that
were counted before. -/
theorem liveCount_upsert_after_stop {dataDir : String} {component : DesiredComponent}
    {inputs : List LaunchInput} {u : SupervisorState} (hname : component.name = name)
    (hrun : run (step dataDir) (apiComponentStop x serializeError n name).1.supervisor
      (.upsertComponent component :: .reconcile :: advances inputs) = some u)
    (hdone : u.reconcile = none) (hhttp : name ∉ u.httpStaged) :
    liveCount u name = liveCount (apiComponentStop x serializeError n name).1.supervisor name +
      (wanted component - n.supervisor.count name) := by
  obtain ⟨t, ht, hrest⟩ := run_cons_eq_some.mp hrun
  cases ht
  generalize hafter : (apiComponentStop x serializeError n name).1.supervisor = s at hrest ⊢
  have hcounts : s.counts = n.supervisor.counts := by
    rw [← hafter, (stop_keeps x serializeError n name).2]
  subst hname
  have hdesired : (s.upsertComponent component).desired[component.name]? = some component := by
    change (s.desired.insert component.name component)[component.name]? = some component
    rw [Table.getElem?_insert, if_pos rfl]
  have hcount : (s.upsertComponent component).count component.name =
      n.supervisor.count component.name := by
    unfold SupervisorState.upsertComponent
    rw [count_ensureCount]
    change s.counts[component.name]?.getD 0 = n.supervisor.counts[component.name]?.getD 0
    rw [hcounts]
  rw [← hcount]
  exact liveWith_reconcile (fun _ ↦ rfl) hdesired hrest hdone hhttp

end Stop

/-! ### A clock that is stopped -/

/-- The manifest text of the clock. -/
def clockToml : String := "[components.clock]\nsource = \"cached:1\"\nsha256_hex = \"1\"\n"

/-- A library that reads and writes this manifest and the empty one. -/
def clockLibrary : Externals :=
  { sampleLibrary with
    tomlParse := fun text ↦
      if text = clockToml then .ok ⟨(∅ : Std.ExtTreeMap String ComponentSpec).insert "clock"
        (clock "/a.wasm").spec⟩
      else if text = "[components]\n" then .ok ⟨∅⟩
      else .error "TOML parse error"
    tomlWrite := fun manifest ↦
      some (if manifest.components.contains "clock" then clockToml else "[components]\n") }

/-- A node that runs the clock. -/
def clockNode : WebNode where
  supervisor :=
    ((({} : SupervisorState).upsertComponent (clock "/a.wasm")).launchReplica "/data" "clock"
      (clock "/a.wasm") {}).keepHandle "clock" 0
  desiredManifest := some clockToml

/-- The clock is stopped with success, but stays desired; and when it is desired anew, none is
started. -/
theorem clock_not_stopped :
    (apiComponentStop clockLibrary "" clockNode "clock").2 =
        (200, "Component 'clock' stopped successfully") ∧
      ¬ Stopped clockLibrary "/data" "clock" clockNode
        (apiComponentStop clockLibrary "" clockNode "clock").1 ∧
      (run (step "/data") (apiComponentStop clockLibrary "" clockNode "clock").1.supervisor
        (.upsertComponent (clock "/a.wasm") :: .reconcile :: advances (List.replicate 3 {}))).map
          (fun u ↦ (u.reconcile.isNone, u.httpStaged, liveCount u "clock")) =
            some (true, [], 0) := by
  refine ⟨by decide, fun h ↦ ?_, by decide⟩
  have hsome : (apiComponentStop clockLibrary "" clockNode "clock").1.supervisor.desired[
      "clock"]? = some (clock "/a.wasm") := by
    decide
  rw [h.undesired] at hsome
  cases hsome

end PeerDeploy.Supervisor
