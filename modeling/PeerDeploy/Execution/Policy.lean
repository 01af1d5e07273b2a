import PeerDeploy.Base.Serde
import PeerDeploy.Base.Text
import PeerDeploy.Common.JsonFile
import PeerDeploy.Execution.Agent

/-!
# The execution policy

`policy.json` and its overrides by the environment (`crates/agent/src/policy.rs:20–44,63–73`), the
commands that change it (`crates/agent/src/cmd/policy.rs:9–20`,
`crates/agent/src/web/handlers.rs:562–567`), and the executors of native and emulated jobs, which
ask it first. The file lies among those that executors write: an attachment may take its place. A
process may die in the middle of a save.
-/

namespace PeerDeploy.Execution

open PeerDeploy.Common PeerDeploy.Base PeerDeploy.Base.Serde PeerDeploy.Storage

/-! ### The file -/

namespace ExecutionPolicy

/-- The fields in the order of their declaration; `crates/agent/src/policy.rs:3–9`. -/
def members (policy : ExecutionPolicy) : List (String × Json) :=
  [("allow_native_execution", .bool policy.allowNativeExecution),
    ("allow_emulation", .bool policy.allowEmulation)]

/-- `crates/agent/src/policy.rs:3–9`. -/
def ofJson : Json → Option ExecutionPolicy :=
  record ["allow_native_execution", "allow_emulation"] fun fields ↦ do
    let allowNativeExecution ← defaulted Json.asBool false fields "allow_native_execution"
    let allowEmulation ← defaulted Json.asBool false fields "allow_emulation"
    return { allowNativeExecution, allowEmulation }

/-- A policy is read back. -/
theorem ofJson_members (policy : ExecutionPolicy) : ofJson (.obj policy.members) = some policy := by
  have hkeys : (policy.members.map Prod.fst).Nodup :=
    (by decide : ["allow_native_execution", "allow_emulation"].Nodup)
  have hnative : defaulted Json.asBool false (.named policy.members) "allow_native_execution" =
      some policy.allowNativeExecution := defaulted_member hkeys List.mem_cons_self rfl
  have hemulation : defaulted Json.asBool false (.named policy.members) "allow_emulation" =
      some policy.allowEmulation :=
    defaulted_member hkeys (List.mem_cons_of_mem _ List.mem_cons_self) rfl
  rw [ofJson, record, hnative, hemulation]
  rfl

end ExecutionPolicy

/-- The two kinds of execution that a policy can allow. -/
inductive Switch where
  | native
  | emulation

/-- The switch that a job's runtime needs. -/
def switchOf : JobRuntime → Option Switch
  | .wasm .. => none
  | .native .. => some .native
  | .qemu .. => some .emulation

/-- The error of a job that the policy does not allow;
`crates/agent/src/p2p/jobs_native.rs:23–27`, `crates/agent/src/p2p/jobs_qemu.rs:25–29`. -/
def refusal (h : Host) (job : JobSpec) : Switch → String
  | .native =>
    s!"job failed: native execution is disabled by policy for job {job.name}. {policyEnableHelp h}"
  | .emulation =>
    s!"job failed: QEMU emulation is disabled by policy for job {job.name}. {policyEnableHelp h}"

/-- The executor has not begun, or it was refused. -/
def Refused (h : Host) (switch : Switch) (task : ExecTask) : Prop :=
  switchOf task.job.runtime = some switch →
    task.pc = .start ∨ task.pc = .failed (refusal h task.job switch)

section Steps

variable {h : Host} {switch : Switch}

end Steps

private def backup : JobSpec where
  name := "backup"
  runtime := .native "/bin/backup" none [] []

end PeerDeploy.Execution
