import PeerDeploy.Supervisor.Accounting

/-!
# What a node reports of its components

The heartbeat of `crates/agent/src/p2p/mod.rs:577–589` publishes two gauges: the number of desired
components and the number of counted replicas. `api_node_health` of
`crates/agent/src/web/monitor.rs:194–305` compares them. Percentages that the program holds as
floating-point numbers are given by what it makes of them.
-/

namespace PeerDeploy.Supervisor

open PeerDeploy.Common PeerDeploy.Base PeerDeploy.Deploy

/-- What a heartbeat reads besides the gauges of the components. -/
structure Vitals where
  nodeId : String
  agentVersion : Nat := 0
  cpuPercent : Nat := 0
  memPercent : Nat := 0
  roles : List String := []
  trustedOwner : Option String := none
  linkCount : Nat := 0

/-- The status of a heartbeat; `crates/agent/src/p2p/mod.rs:577–589`. -/
def heartbeat (s : SupervisorState) (vitals : Vitals) : Status where
  nodeId := vitals.nodeId
  msg := "alive"
  agentVersion := vitals.agentVersion
  componentsDesired := s.componentsDesired
  componentsRunning := s.componentsRunning
  cpuPercent := vitals.cpuPercent
  memPercent := vitals.memPercent
  tags := vitals.roles
  drift := (s.componentsDesired : Int) - s.componentsRunning
  trustedOwnerPubBs58 := vitals.trustedOwner
  links := vitals.linkCount

end PeerDeploy.Supervisor
