import PeerDeploy.Cluster.SubmitTask
import PeerDeploy.Job.Snapshot
import Mathlib.Logic.Function.Basic

/-!
# Nodes that share jobs by gossip

Any number of agents, each with its job store and its handler tasks, and the messages they
have published. A message can reach every other node at any later time, more than once or
never; a node never receives its own. The events are the job commands of
`crates/agent/src/p2p/mod.rs:1136–1363`, the steps of the handler tasks, the builders of
SyncJobs messages and any other local change of a store. Acknowledgements and the
suppression of repeated status messages are the matter of `PeerDeploy.Broadcast`.
-/

namespace PeerDeploy.Cluster

open PeerDeploy.Common PeerDeploy.Base PeerDeploy.Job

/-- The part of an agent that deals with jobs. -/
structure Node where
  platform : String
  roles : List String
  jobs : JobManagerState := {}
  tasks : List SubmitTask := []
  lastJobStateHash : Option UInt64 := none

/-- All agents by their peer id, and what has been published, with the agent that published
it (`none` for a client). A peer id that takes part in no event stands for a node that does
not exist. -/
structure Mesh where
  node : String → Node
  sent : List (Option String × Command) := []

/-- A local change of a store that leaves every record under its own id. -/
structure LocalChange where
  apply : JobManagerState → JobManagerState
  keyed : ∀ s, s.Keyed → (apply s).Keyed

/-- The manager's methods are local changes. -/
def LocalChange.call (op : ManagerOp) (now : Clock) : LocalChange where
  apply s := op.apply s now
  keyed _ h := keyed_apply h now op

/-- A local submission, by the schedule tick or with an id of its own, is a local change. -/
def LocalChange.submit (nodeId : String) (spec : JobSpec) (originNodeId jobId : Option String)
    (now : Clock) : LocalChange where
  apply s := (s.submitJob nodeId spec originNodeId jobId now).1
  keyed _ h := JobManagerState.keyed_submitJob h nodeId spec originNodeId jobId now

/-- What can happen in the mesh. -/
inductive Event where
  /-- A client publishes a command. -/
  | client (cmd : Command)
  /-- Node `n` receives the `i`-th published message. -/
  | deliver (n : String) (i : Nat) (now : Clock) (order : List String)
  /-- The `k`-th handler task of node `n` takes its next step. -/
  | advance (n : String) (k : Nat) (input : StepInput)
  /-- The periodic job sync of node `n`. -/
  | syncTick (n : String) (order : List String)
  /-- Node `n` gets a new connection. -/
  | connectionEstablished (n : String) (order : List String)
  /-- Executors, artifact staging and schedules of node `n` change its store. -/
  | change (n : String) (change : LocalChange)

/-- The job commands that clients publish. -/
def isClientCommand : Command → Bool
  | .submitJob _ _ _ | .cancelJob _ | .jobSyncRequest _ => true
  | _ => false

/-- The event loop of node `n` takes a job command: the node after it and what it publishes.
`order` is the iteration order of its hash map. -/
def Node.receive (n : String) (node : Node) (now : Clock) (order : List String) :
    Command → Option (Node × List Command)
  | .submitJob originNodeId jobId spec =>
    some ({ node with tasks := node.tasks ++ [{ originNodeId, jobId, spec, roles := node.roles }] },
      [])
  | .syncJobs _ jobs => some ({ node with jobs := node.jobs.syncJobs jobs }, [])
  | .jobSyncRequest _ =>
    if order.Perm node.jobs.jobs.keys then
      some (node, [.syncJobs n (replySnapshot (node.jobs.recordsIn order))])
    else none
  | cmd => (handleJobCommand node.jobs now cmd).map fun jobs ↦ ({ node with jobs }, [])

/-- The periodic sync of node `n`; `crates/agent/src/p2p/mod.rs:686–717`. It is skipped when
there is nothing to send, or nothing has changed since the last one. -/
def Node.syncTick (hash : List StateKey → UInt64) (n : String) (node : Node)
    (order : List String) : Node × List Command :=
  let trimmed := tickSnapshot (node.jobs.recordsIn order)
  let current := hash (trimmed.map stateKey)
  if trimmed.isEmpty ∨ node.lastJobStateHash = some current then (node, [])
  else ({ node with lastJobStateHash := some current }, [.syncJobs n trimmed])

/-- Replace a node and publish what it sends. -/
def Mesh.put (c : Mesh) (n : String) (out : Node × List Command) : Mesh where
  node := Function.update c.node n out.1
  sent := c.sent ++ out.2.map (some n, ·)

/-- One event in the mesh. -/
def step (hash : List StateKey → UInt64) (c : Mesh) : Event → Option Mesh
  | .client cmd =>
    if isClientCommand cmd then some { c with sent := c.sent ++ [(none, cmd)] } else none
  | .deliver n i now order =>
    match c.sent[i]? with
    | some (src, cmd) =>
      if src = some n then none else ((c.node n).receive n now order cmd).map (c.put n)
    | none => none
  | .advance n k input =>
    match (c.node n).tasks[k]? with
    | some task =>
      (task.advance ⟨n, (c.node n).platform⟩ (c.node n).jobs input).map fun (jobs, pc, cmds) ↦
        c.put n ({ c.node n with jobs, tasks := (c.node n).tasks.set k { task with pc } }, cmds)
    | none => none
  | .syncTick n order =>
    if order.Perm (c.node n).jobs.jobs.keys then
      some (c.put n ((c.node n).syncTick hash n order))
    else none
  | .connectionEstablished n order =>
    if order.Perm (c.node n).jobs.jobs.keys then
      some (c.put n (c.node n, [.syncJobs n (replySnapshot ((c.node n).jobs.recordsIn order))]))
    else none
  | .change n change =>
    some (c.put n ({ c.node n with jobs := change.apply (c.node n).jobs }, []))

/-- Agents that have just started with empty stores, on any hosts and with any roles. -/
def startMesh (platform : String → String) (roles : String → List String) : Mesh where
  node n := { platform := platform n, roles := roles n }

/-! ### What a step can do -/

/-- The steps of the mesh, one case for each event that is enabled. -/
inductive Moves (hash : List StateKey → UInt64) (c : Mesh) : Event → Mesh → Prop where
  | client {cmd : Command} (hcmd : isClientCommand cmd = true) :
    Moves hash c (.client cmd) { c with sent := c.sent ++ [(none, cmd)] }
  | deliver {n : String} {i : Nat} {now : Clock} {order : List String} {src : Option String}
    {cmd : Command} {out : Node × List Command} (hsent : c.sent[i]? = some (src, cmd))
    (hsrc : src ≠ some n) (hout : (c.node n).receive n now order cmd = some out) :
    Moves hash c (.deliver n i now order) (c.put n out)
  | advance {n : String} {k : Nat} {input : StepInput} {task : SubmitTask}
    {jobs : JobManagerState} {pc : SubmitPc} {cmds : List Command}
    (htask : (c.node n).tasks[k]? = some task)
    (hadv : task.advance ⟨n, (c.node n).platform⟩ (c.node n).jobs input = some (jobs, pc, cmds)) :
    Moves hash c (.advance n k input)
      (c.put n ({ c.node n with jobs, tasks := (c.node n).tasks.set k { task with pc } }, cmds))
  | syncTick {n : String} {order : List String} (horder : order.Perm (c.node n).jobs.jobs.keys) :
    Moves hash c (.syncTick n order) (c.put n ((c.node n).syncTick hash n order))
  | connectionEstablished {n : String} {order : List String}
    (horder : order.Perm (c.node n).jobs.jobs.keys) :
    Moves hash c (.connectionEstablished n order)
      (c.put n (c.node n, [.syncJobs n (replySnapshot ((c.node n).jobs.recordsIn order))]))
  | change {n : String} {change : LocalChange} :
    Moves hash c (.change n change)
      (c.put n ({ c.node n with jobs := change.apply (c.node n).jobs }, []))

/-- Every enabled event is one of these moves. -/
theorem moves_of_step {hash : List StateKey → UInt64} {c d : Mesh} {event : Event}
    (h : step hash c event = some d) : Moves hash c event d := by
  cases event with
  | client cmd =>
    simp only [step] at h
    split at h
    · next hc =>
      cases h
      exact .client hc
    · cases h
  | deliver n i now order =>
    simp only [step] at h
    split at h
    · next src cmd hs =>
      split at h
      · cases h
      · next hsrc =>
        obtain ⟨out, ho, rfl⟩ := Option.map_eq_some_iff.mp h
        exact .deliver hs hsrc ho
    · cases h
  | advance n k input =>
    simp only [step] at h
    split at h
    · next task ht =>
      obtain ⟨⟨jobs, pc, cmds⟩, ha, rfl⟩ := Option.map_eq_some_iff.mp h
      exact .advance ht ha
    · cases h
  | syncTick n order =>
    simp only [step] at h
    split at h
    · next ho =>
      cases h
      exact .syncTick ho
    · cases h
  | connectionEstablished n order =>
    simp only [step] at h
    split at h
    · next ho =>
      cases h
      exact .connectionEstablished ho
    · cases h
  | change n change =>
    cases h
    exact .change

/-- A node takes a command by spawning a task, merging records, sending a snapshot, or with
one call of its job manager. -/
theorem receive_cases {n : String} {node : Node} {now : Clock} {order : List String}
    {cmd : Command} {out : Node × List Command} (h : node.receive n now order cmd = some out) :
    (∃ task, task.pc = .submit ∧ out = ({ node with tasks := node.tasks ++ [task] }, [])) ∨
      (∃ src jobs, cmd = .syncJobs src jobs ∧
        out = ({ node with jobs := node.jobs.syncJobs jobs }, [])) ∨
      (order.Perm node.jobs.jobs.keys ∧
        out = (node, [.syncJobs n (replySnapshot (node.jobs.recordsIn order))])) ∨
      ∃ op, commandOp cmd = some op ∧ out = ({ node with jobs := op.apply node.jobs now }, []) := by
  unfold Node.receive at h
  split at h
  · cases h
    exact .inl ⟨_, rfl, rfl⟩
  · cases h
    exact .inr (.inl ⟨_, _, rfl, rfl⟩)
  · split at h
    · next ho =>
      cases h
      exact .inr (.inr (.inl ⟨ho, rfl⟩))
    · cases h
  · rw [handleJobCommand_eq, Option.map_map] at h
    obtain ⟨op, ho, rfl⟩ := Option.map_eq_some_iff.mp h
    exact .inr (.inr (.inr ⟨op, ho, rfl⟩))

/-- The node that moved is the given one. -/
@[simp] theorem node_put_self (c : Mesh) (n : String) (out : Node × List Command) :
    (c.put n out).node n = out.1 := by
  simp [Mesh.put]

/-- The other nodes stay as they are. -/
@[simp] theorem node_put_ne (c : Mesh) {m n : String} (h : m ≠ n) (out : Node × List Command) :
    (c.put n out).node m = c.node m := by
  simp [Mesh.put, h]

end PeerDeploy.Cluster
