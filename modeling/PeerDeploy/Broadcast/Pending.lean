import PeerDeploy.Common.Command
import Mathlib.Algebra.Ring.Nat
import Mathlib.Data.Finset.Basic

/-!
# Pending status broadcasts

The table of status messages that an agent repeats until all peers have acknowledged them:
`crates/agent/src/p2p/mod.rs:13–16,53–125,448,489–499` and the interval tick of lines
599–650. Instants are nanoseconds of the process's monotonic clock, and one turn of the
event loop is taken to read one instant. The table is a list in an order in which the hash
map yields its entries.
-/

namespace PeerDeploy.Broadcast

open PeerDeploy.Common

/-- A second on the monotonic clock. -/
def second : Nat := 1000000000

/-- `crates/agent/src/p2p/mod.rs:14`. -/
def maxPendingBroadcasts : Nat := 50000

/-- `crates/agent/src/p2p/mod.rs:16`. -/
def pendingEntryTtl : Nat := 30 * 60 * second

/-- Job id, status text and message id. -/
abbrev JobStatusKey := String × String × String

/-- `crates/agent/src/p2p/mod.rs:53–59`. -/
structure PendingJob where
  cmd : Command
  peers : Finset String
  created : Nat
  lastSent : Nat
  retryCount : Nat

/-- Entries in iteration order. -/
abbrev PendingTable := List (JobStatusKey × PendingJob)

/-- `crates/agent/src/p2p/mod.rs:61–77`. -/
def jobStatusKey : Command → Option JobStatusKey
  | .jobAccepted jobId _ messageId => some (jobId, "accepted", messageId)
  | .jobStarted jobId _ messageId => some (jobId, "started", messageId)
  | .jobCompleted jobId _ _ messageId => some (jobId, "completed", messageId)
  | .jobFailed jobId _ _ messageId => some (jobId, "failed", messageId)
  | _ => none

/-- Job id, status text, assigned node and message id; `crates/agent/src/p2p/mod.rs:79–124`. -/
def jobStatusTuple : Command → Option (String × String × String × String)
  | .jobAccepted jobId assignedNode messageId =>
    some (jobId, "accepted", assignedNode, messageId)
  | .jobStarted jobId assignedNode messageId => some (jobId, "started", assignedNode, messageId)
  | .jobCompleted jobId assignedNode _ messageId =>
    some (jobId, "completed", assignedNode, messageId)
  | .jobFailed jobId assignedNode _ messageId =>
    some (jobId, "failed", assignedNode, messageId)
  | _ => none

namespace PendingTable

/-- `pending_job_broadcasts.remove`. -/
def remove (table : PendingTable) (key : JobStatusKey) : PendingTable :=
  table.filter (·.1 ≠ key)

/-- `pending_job_broadcasts.insert`: an entry replaces the one under its key. -/
def insert (table : PendingTable) (key : JobStatusKey) (entry : PendingJob) : PendingTable :=
  remove table key ++ [(key, entry)]

/-- The entries in another iteration order, given by the keys. -/
def inOrder (table : PendingTable) (order : List JobStatusKey) : PendingTable :=
  order.filterMap fun key ↦ (table.lookup key).map (key, ·)

/-- Track a new status broadcast; `crates/agent/src/p2p/mod.rs:491–497`. -/
def track (table : PendingTable) (cmd : Command) (connected : Finset String) (now : Nat) :
    PendingTable :=
  match jobStatusKey cmd with
  | some key =>
    insert table key { cmd, peers := connected, created := now, lastSent := now, retryCount := 0 }
  | none => table

/-- Drop the entries past their lifetime; `crates/agent/src/p2p/mod.rs:600–609`. -/
def prune (table : PendingTable) (now : Nat) : PendingTable :=
  table.filter fun (_, entry) ↦ ¬ pendingEntryTtl < now - entry.created

/-- The first of the entries that were created earliest. -/
def oldest : PendingTable → Option (JobStatusKey × PendingJob)
  | [] => none
  | first :: rest =>
    match oldest rest with
    | some later => if later.2.created < first.2.created then some later else some first
    | none => some first

/-- Evict the oldest entry, `excess` times; `crates/agent/src/p2p/mod.rs:624–630`. -/
def evictOldest (table : PendingTable) : Nat → PendingTable
  | 0 => table
  | excess + 1 =>
    match oldest table with
    | some (key, _) => evictOldest (remove table key) excess
    | none => evictOldest table excess

/-- `crates/agent/src/p2p/mod.rs:622–631`. -/
def evict (table : PendingTable) : PendingTable :=
  if maxPendingBroadcasts < table.length then
    evictOldest table (table.length - maxPendingBroadcasts)
  else table

/-- The wait before the next retry, in seconds; `crates/agent/src/p2p/mod.rs:638–644`. The
random number is taken modulo the size of the range that it is drawn from. -/
def delaySecs (retryCount random : Nat) : Nat :=
  let backoffSecs := if 5 ≤ retryCount then 32 else 2 ^ retryCount
  let half := backoffSecs / 2
  max 1 (half + random % (half + 1))

/-- The entry after its turn in the retry loop, and whether it was published again;
`crates/agent/src/p2p/mod.rs:633–649`. -/
def retryEntry (connected : Finset String) (random now : Nat) (entry : PendingJob) :
    PendingJob × Bool :=
  let entry := if entry.peers = ∅ then { entry with peers := connected } else entry
  if entry.peers ≠ ∅ ∧ delaySecs entry.retryCount random * second ≤ now - entry.lastSent then
    ({ entry with lastSent := now, retryCount := min (entry.retryCount + 1) (2 ^ 32 - 1) }, true)
  else (entry, false)

/-- The retry loop over all entries: the table after it and the commands published. -/
def retry (table : PendingTable) (connected : Finset String) (random : JobStatusKey → Nat)
    (now : Nat) : PendingTable × List Command :=
  (table.map fun (key, entry) ↦ (key, (retryEntry connected (random key) now entry).1),
    table.filterMap fun (key, entry) ↦
      if (retryEntry connected (random key) now entry).2 then some entry.cmd else none)

/-- The part of the interval tick that deals with pending broadcasts;
`crates/agent/src/p2p/mod.rs:599–609,621–650`. -/
def tick (table : PendingTable) (connected : Finset String) (random : JobStatusKey → Nat)
    (now : Nat) : PendingTable × List Command :=
  retry (evict (prune table now)) connected random now

/-- `crates/agent/src/p2p/mod.rs:1350–1360`; `peer` is the sender named in the message, if it
parses as a peer id. -/
def acknowledge (table : PendingTable) (key : JobStatusKey) (peer : Option String) :
    PendingTable :=
  match peer with
  | none => table
  | some peer =>
    match table.lookup key with
    | some entry =>
      if entry.peers.erase peer = ∅ then remove table key
      else table.map fun (k, e) ↦ if k = key then (k, { e with peers := e.peers.erase peer })
        else (k, e)
    | none => table

/-- A new connection is expected to acknowledge everything;
`crates/agent/src/p2p/mod.rs:1404–1406`. -/
def expect (table : PendingTable) (peer : String) : PendingTable :=
  table.map fun (key, entry) ↦ (key, { entry with peers := Insert.insert peer entry.peers })

end PendingTable

end PeerDeploy.Broadcast
