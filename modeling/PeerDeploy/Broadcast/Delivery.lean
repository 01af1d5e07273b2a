import PeerDeploy.Base.Transition
import PeerDeploy.Broadcast.Pending
import PeerDeploy.Job.Lifecycle
import Mathlib.Logic.Function.Basic

/-!
# Repeated status messages

Agents that publish status messages, repeat them from their pending tables and drop the
copies they have seen: `crates/agent/src/p2p/mod.rs:449–454,489–499,599–650,860–877` with
the handlers of lines 1322–1360. A published message can reach every other agent at any
later time, more than once or never. Each agent has its own monotonic clock. The log of
arrivals is an observer: no step reads it.
-/

namespace PeerDeploy.Broadcast

open PeerDeploy.Common PeerDeploy.Base PeerDeploy.Job

/-- `DEDUP_CACHE_TTL`; `crates/agent/src/p2p/mod.rs:454`. -/
def dedupCacheTtl : Nat := 10 * 60 * second

/-- When a message id was stored, with the job id, status and node of the message. -/
abbrev SeenCache := Std.ExtTreeMap String (Nat × String × String × String)

/-- Drop the expired entries; `crates/agent/src/p2p/mod.rs:613,866`. -/
def SeenCache.retain (cache : SeenCache) (now : Nat) : SeenCache :=
  cache.filter fun _ (timestamp, _) ↦ now - timestamp < dedupCacheTtl

/-- The part of an agent that deals with status messages. -/
structure Endpoint where
  jobs : JobManagerState := {}
  pending : PendingTable := []
  seen : SeenCache := ∅
  clock : Nat := 0

/-- A status message that has reached an agent. -/
structure Arrival where
  receiver : String
  messageId : String
  time : Nat
  /-- It was handed to the job store. -/
  applied : Bool
  deriving DecidableEq

/-- All agents by peer id, what they have published, and the arrivals so far. -/
structure Exchange where
  node : String → Endpoint := fun _ ↦ {}
  sent : List (String × Command) := []
  arrivals : List Arrival := []

/-- What can happen; each event carries the reading of its agent's monotonic clock. -/
inductive Event where
  /-- A command from the broadcast channel of agent `n` is published. -/
  | broadcast (n : String) (cmd : Command) (connected : Finset String) (now : Nat)
  /-- The interval tick of agent `n`; `order` is the iteration order of its table. -/
  | tick (n : String) (order : List JobStatusKey) (connected : Finset String)
    (random : JobStatusKey → Nat) (now : Nat)
  /-- Agent `n` receives the `i`-th published message. -/
  | deliver (n : String) (i : Nat) (now : Nat) (wall : Clock)
  /-- Agent `n` gets a connection to a peer. -/
  | connectionEstablished (n peer : String) (now : Nat)
  /-- Other messages and tasks of agent `n` change its job store. -/
  | change (n : String) (jobs : JobManagerState)

/-- A received command: the agent after it, what it publishes, and for a status message its
id and whether it was applied. `fromStr` parses a peer id. -/
def Endpoint.receive (fromStr : String → Option String) (n : String) (node : Endpoint) (now : Nat)
    (wall : Clock) (cmd : Command) : Endpoint × List Command × Option (String × Bool) :=
  match jobStatusTuple cmd with
  | some (jobId, status, assignedNode, messageId) =>
    let cache := node.seen.retain now
    if cache.contains messageId then
      ({ node with seen := cache }, [.jobStatusAck jobId status n messageId],
        some (messageId, false))
    else
      ({ node with
          seen := cache.insert messageId (now, jobId, status, assignedNode)
          jobs := (handleJobCommand node.jobs wall cmd).getD node.jobs },
        [.jobStatusAck jobId status n messageId], some (messageId, true))
  | none =>
    match cmd with
    | .jobStatusAck jobId status sender messageId =>
      ({ node with
          pending := node.pending.acknowledge (jobId, status, messageId) (fromStr sender) }, [],
        none)
    | _ => (node, [], none)

/-- Replace an agent, publish what it sends and note an arrival. -/
def Exchange.put (c : Exchange) (n : String) (now : Nat)
    (out : Endpoint × List Command × Option (String × Bool)) : Exchange where
  node := Function.update c.node n { out.1 with clock := now }
  sent := c.sent ++ out.2.1.map (n, ·)
  arrivals := c.arrivals ++ (out.2.2.map fun (messageId, applied) ↦
    { receiver := n, messageId, time := now, applied }).toList

/-- One event. -/
def step (fromStr : String → Option String) (c : Exchange) : Event → Option Exchange
  | .broadcast n cmd connected now =>
    if (c.node n).clock ≤ now then
      some (c.put n now ({ c.node n with
        pending := (c.node n).pending.track cmd connected now }, [cmd], none))
    else none
  | .tick n order connected random now =>
    if (c.node n).clock ≤ now ∧ order.Perm ((c.node n).pending.map Prod.fst) then
      let (pending, cmds) := ((c.node n).pending.inOrder order).tick connected random now
      some (c.put n now ({ c.node n with pending, seen := (c.node n).seen.retain now }, cmds, none))
    else none
  | .deliver n i now wall =>
    match c.sent[i]? with
    | some (src, cmd) =>
      if src ≠ n ∧ (c.node n).clock ≤ now then
        some (c.put n now ((c.node n).receive fromStr n now wall cmd))
      else none
    | none => none
  | .connectionEstablished n peer now =>
    if (c.node n).clock ≤ now then
      some (c.put n now ({ c.node n with pending := (c.node n).pending.expect peer }, [], none))
    else none
  | .change n jobs =>
    some (c.put n (c.node n).clock ({ c.node n with jobs }, [], none))

/-- The times at which agent `n` applied the message to its job store. -/
def appliedTimes (c : Exchange) (n messageId : String) : List Nat :=
  c.arrivals.filterMap fun a ↦
    if a.applied = true ∧ a.receiver = n ∧ a.messageId = messageId then some a.time else none

/-- No agent has applied a message twice. -/
def AppliedOnce (c : Exchange) : Prop := ∀ n messageId, (appliedTimes c n messageId).length ≤ 1

/-- A copy of a status message that reaches an agent does so within the lifetime of a cache
entry after every earlier copy, so also after the first. -/
def ArrivesInTime (c : Exchange) : Event → Prop
  | .deliver n i now _ => ∀ src cmd jobId status assignedNode messageId,
    c.sent[i]? = some (src, cmd) → src ≠ n → (c.node n).clock ≤ now →
    jobStatusTuple cmd = some (jobId, status, assignedNode, messageId) →
    ∀ a ∈ c.arrivals, a.receiver = n → a.messageId = messageId → now < a.time + dedupCacheTtl
  | _ => True

/-! ### The cache and the log -/

/-- The clean-up keeps exactly the entries that have not expired. -/
theorem getElem?_retain (cache : SeenCache) (now : Nat) (messageId : String) :
    (cache.retain now)[messageId]? =
      cache[messageId]?.filter fun entry ↦ now - entry.1 < dedupCacheTtl := by
  rw [SeenCache.retain, Std.ExtTreeMap.getElem?_filter']

/-- An id is found after the clean-up when it was stored less than the lifetime ago. -/
theorem contains_retain_iff (cache : SeenCache) (now : Nat) (messageId : String) :
    (cache.retain now).contains messageId = true ↔
      ∃ entry, cache[messageId]? = some entry ∧ now - entry.1 < dedupCacheTtl := by
  rw [Std.ExtTreeMap.contains_eq_isSome_getElem?, getElem?_retain]
  cases cache[messageId]? with
  | none => simp
  | some entry => simp [Option.filter]

/-- A step adds the time of the arrival it applies and nothing else. -/
theorem appliedTimes_put (c : Exchange) (n m messageId : String) (now : Nat)
    (out : Endpoint × List Command × Option (String × Bool)) :
    appliedTimes (c.put n now out) m messageId =
      appliedTimes c m messageId ++
        if n = m ∧ out.2.2 = some (messageId, true) then [now] else [] := by
  obtain ⟨node, cmds, res⟩ := out
  unfold appliedTimes Exchange.put
  rw [List.filterMap_append]
  congr 1
  cases res with
  | none => simp
  | some res =>
    obtain ⟨id, applied⟩ := res
    by_cases hn : n = m
    · by_cases hid : id = messageId
      · cases applied <;> simp [hn, hid]
      · simp [hn, hid]
    · simp [hn]

/-- The agent that moved is the given one with its clock set. -/
theorem node_put_self (c : Exchange) (n : String) (now : Nat)
    (out : Endpoint × List Command × Option (String × Bool)) :
    (c.put n now out).node n = { out.1 with clock := now } := by
  simp [Exchange.put]

/-- The other agents stay as they are. -/
theorem node_put_ne (c : Exchange) {m n : String} (h : m ≠ n) (now : Nat)
    (out : Endpoint × List Command × Option (String × Bool)) :
    (c.put n now out).node m = c.node m := by
  simp [Exchange.put, h]

/-! ### The invariant -/

/-- What the caches of all agents say about the log. -/
structure DedupInv (c : Exchange) : Prop where
  /-- No arrival lies in the future of its receiver. -/
  past : ∀ a ∈ c.arrivals, a.time ≤ (c.node a.receiver).clock
  /-- A cached timestamp is the time of an application. -/
  stored : ∀ n messageId entry, (c.node n).seen[messageId]? = some entry →
    entry.1 ∈ appliedTimes c n messageId
  /-- An id stays cached for the whole lifetime after each application. -/
  kept : ∀ n messageId t, t ∈ appliedTimes c n messageId → (c.node n).clock < t + dedupCacheTtl →
    ∃ entry, (c.node n).seen[messageId]? = some entry ∧ t ≤ entry.1
  /-- The first copy to arrive was applied. -/
  first : ∀ a ∈ c.arrivals, ∃ t ∈ appliedTimes c a.receiver a.messageId, t ≤ a.time

private theorem dedupInv_start : DedupInv {} := by
  constructor <;> simp [appliedTimes]

private theorem mem_appliedTimes_put_of_mem {c : Exchange} {n m messageId : String} {now t : Nat}
    {out : Endpoint × List Command × Option (String × Bool)}
    (h : t ∈ appliedTimes c m messageId) : t ∈ appliedTimes (c.put n now out) m messageId := by
  rw [appliedTimes_put]
  exact List.mem_append_left _ h

private theorem le_clock_of_mem {c : Exchange} (h : DedupInv c) {n messageId : String} {t : Nat}
    (ht : t ∈ appliedTimes c n messageId) : t ≤ (c.node n).clock := by
  obtain ⟨a, ha, hif⟩ := List.mem_filterMap.mp ht
  split at hif
  · next hap =>
    have hp := h.past a ha
    rw [Option.some.inj hif, hap.2.1] at hp
    exact hp
  · cases hif

private theorem past_put {c : Exchange} (h : DedupInv c) {n : String} {now : Nat}
    (hnow : (c.node n).clock ≤ now) (out : Endpoint × List Command × Option (String × Bool)) :
    ∀ a ∈ (c.put n now out).arrivals, a.time ≤ ((c.put n now out).node a.receiver).clock := by
  intro a ha
  rcases List.mem_append.mp ha with ha | ha
  · by_cases hm : a.receiver = n
    · have hp := h.past a ha
      rw [hm] at hp ⊢
      rw [node_put_self]
      exact Nat.le_trans hp hnow
    · rw [node_put_ne c hm]
      exact h.past a ha
  · obtain ⟨res, -, rfl⟩ := Option.map_eq_some_iff.mp (Option.mem_toList.mp ha)
    rw [node_put_self]

private theorem dedupInv_quiet {c : Exchange} (h : DedupInv c) {n : String} {now : Nat}
    (hnow : (c.node n).clock ≤ now) (node : Endpoint) (cmds : List Command)
    (hseen : node.seen = (c.node n).seen ∨ node.seen = (c.node n).seen.retain now) :
    DedupInv (c.put n now (node, cmds, none)) := by
  have hat (m messageId : String) :
      appliedTimes (c.put n now (node, cmds, none)) m messageId = appliedTimes c m messageId := by
    simp [appliedTimes_put]
  have harr : (c.put n now (node, cmds, none)).arrivals = c.arrivals := by simp [Exchange.put]
  constructor
  case past => exact past_put h hnow _
  case stored =>
    intro m messageId entry he
    rw [hat]
    by_cases hm : m = n
    · subst hm
      rw [node_put_self] at he
      rcases hseen with hs | hs
      · exact h.stored m messageId entry (by rw [← hs]; exact he)
      · simp only [hs, getElem?_retain] at he
        exact h.stored m messageId entry (Option.filter_eq_some_iff.mp he).1
    · rw [node_put_ne c hm] at he
      exact h.stored m messageId entry he
  case kept =>
    intro m messageId t ht hlt
    rw [hat] at ht
    by_cases hm : m = n
    · subst hm
      rw [node_put_self] at hlt ⊢
      change now < t + dedupCacheTtl at hlt
      obtain ⟨entry, he, hle⟩ := h.kept m messageId t ht (by omega)
      have hpos : 0 < dedupCacheTtl := by decide
      have hyoung : now - entry.1 < dedupCacheTtl := by omega
      have hfound : node.seen[messageId]? = some entry := by
        rcases hseen with hs | hs
        · rw [hs, he]
        · simp [hs, getElem?_retain, he, Option.filter, hyoung]
      exact ⟨entry, hfound, hle⟩
    · rw [node_put_ne c hm] at hlt ⊢
      exact h.kept m messageId t ht hlt
  case first =>
    intro a ha
    rw [harr] at ha
    obtain ⟨t, ht, hle⟩ := h.first a ha
    exact ⟨t, mem_appliedTimes_put_of_mem ht, hle⟩

private theorem dedupInv_duplicate {c : Exchange} (h : DedupInv c) {n messageId : String}
    {now : Nat} (hnow : (c.node n).clock ≤ now) {node : Endpoint} {cmds : List Command}
    (hseen : node.seen = (c.node n).seen.retain now)
    (hdup : ((c.node n).seen.retain now).contains messageId = true) :
    DedupInv (c.put n now (node, cmds, some (messageId, false))) := by
  have hq := dedupInv_quiet h hnow node cmds (.inr hseen)
  have hat (m id : String) : appliedTimes (c.put n now (node, cmds, some (messageId, false))) m id =
      appliedTimes (c.put n now (node, cmds, none)) m id := by
    simp [appliedTimes_put]
  constructor
  case past => exact past_put h hnow _
  case stored =>
    intro m id entry he
    rw [hat]
    exact hq.stored m id entry he
  case kept =>
    intro m id t ht hlt
    rw [hat] at ht
    exact hq.kept m id t ht hlt
  case first =>
    intro a ha
    rw [hat]
    rcases List.mem_append.mp ha with ha | ha
    · exact hq.first a (List.mem_append_left _ ha)
    · cases List.mem_singleton.mp ha
      obtain ⟨entry, he, -⟩ := (contains_retain_iff _ _ _).mp hdup
      have hm := h.stored n messageId entry he
      have hle : entry.1 ≤ now := Nat.le_trans (le_clock_of_mem h hm) hnow
      exact ⟨entry.1, mem_appliedTimes_put_of_mem hm, hle⟩

private theorem dedupInv_apply {c : Exchange} (h : DedupInv c) {n messageId : String}
    {now : Nat} (hnow : (c.node n).clock ≤ now) {node : Endpoint} {cmds : List Command}
    {content : String × String × String}
    (hseen : node.seen = ((c.node n).seen.retain now).insert messageId (now, content)) :
    DedupInv (c.put n now (node, cmds, some (messageId, true))) := by
  have hq := dedupInv_quiet h hnow { node with seen := (c.node n).seen.retain now } cmds (.inr rfl)
  -- the log differs from that of a quiet step only in the new application
  have hat (m id : String) : appliedTimes (c.put n now (node, cmds, some (messageId, true))) m id =
      appliedTimes c m id ++ if n = m ∧ messageId = id then [now] else [] := by
    simp [appliedTimes_put]
  have hquiet (m id : String) : appliedTimes (c.put n now
      ({ node with seen := (c.node n).seen.retain now }, cmds, none)) m id =
        appliedTimes c m id := by
    simp [appliedTimes_put]
  constructor
  case past => exact past_put h hnow _
  case stored =>
    intro m id entry he
    rw [hat]
    by_cases hm : m = n
    · subst hm
      rw [node_put_self] at he
      simp only [hseen, Std.ExtTreeMap.getElem?_insert, Std.compare_eq_iff_eq] at he
      split at he
      · next hid =>
        cases he
        simp [hid]
      · have hs := hq.stored m id entry (by rw [node_put_self]; exact he)
        rw [hquiet] at hs
        exact List.mem_append_left _ hs
    · rw [node_put_ne c hm] at he
      exact List.mem_append_left _ (h.stored m id entry he)
  case kept =>
    intro m id t ht hlt
    rw [hat] at ht
    by_cases hm : m = n
    · subst hm
      rw [node_put_self] at hlt ⊢
      simp only [hseen, Std.ExtTreeMap.getElem?_insert, Std.compare_eq_iff_eq]
      change now < t + dedupCacheTtl at hlt
      by_cases hid : messageId = id
      · have hle : t ≤ now := by
          rcases List.mem_append.mp ht with ht | ht
          · exact Nat.le_trans (le_clock_of_mem h ht) hnow
          · simp only [hid, and_self, if_true, List.mem_singleton] at ht
            exact Nat.le_of_eq ht
        exact ⟨_, if_pos hid, hle⟩
      · simp only [hid, and_false, if_false, List.append_nil] at ht
        obtain ⟨entry, he, hle⟩ := hq.kept m id t (by rw [hquiet]; exact ht)
          (by rw [node_put_self]; exact hlt)
        rw [node_put_self] at he
        exact ⟨entry, by rw [if_neg hid]; exact he, hle⟩
    · rw [node_put_ne c hm] at hlt ⊢
      simp only [Ne.symm hm, false_and, if_false, List.append_nil] at ht
      exact h.kept m id t ht hlt
  case first =>
    intro a ha
    rcases List.mem_append.mp ha with ha | ha
    · obtain ⟨t, ht, hle⟩ := h.first a ha
      exact ⟨t, mem_appliedTimes_put_of_mem ht, hle⟩
    · cases List.mem_singleton.mp ha
      exact ⟨now, by simp [hat], Nat.le_refl _⟩

private theorem dedupInv_step {fromStr : String → Option String} {c d : Exchange} {event : Event}
    (h : DedupInv c) (hstep : step fromStr c event = some d) : DedupInv d := by
  cases event with
  | broadcast n cmd connected now =>
    simp only [step] at hstep
    split at hstep
    · next hnow =>
      cases hstep
      exact dedupInv_quiet h hnow _ _ (.inl rfl)
    · cases hstep
  | tick n order connected random now =>
    simp only [step] at hstep
    split at hstep
    · next hnow =>
      cases hstep
      exact dedupInv_quiet h hnow.1 _ _ (.inr rfl)
    · cases hstep
  | deliver n i now wall =>
    simp only [step] at hstep
    split at hstep
    · next src cmd hsent =>
      split at hstep
      · next hnow =>
        cases hstep
        unfold Endpoint.receive
        split
        · simp only
          split
          · next hdup => exact dedupInv_duplicate h hnow.2 rfl hdup
          · exact dedupInv_apply h hnow.2 rfl
        · split
          · exact dedupInv_quiet h hnow.2 _ _ (.inl rfl)
          · exact dedupInv_quiet h hnow.2 _ _ (.inl rfl)
      · cases hstep
    · cases hstep
  | connectionEstablished n peer now =>
    simp only [step] at hstep
    split at hstep
    · next hnow =>
      cases hstep
      exact dedupInv_quiet h hnow _ _ (.inl rfl)
    · cases hstep
  | change n jobs =>
    cases hstep
    exact dedupInv_quiet h (Nat.le_refl _) _ _ (.inl rfl)

/-! ### At most one application -/

-- In a state where nothing was applied twice, an arriving copy is in time exactly when it is the
-- first one or its id is still cached.
private theorem inTime_iff {c : Exchange} (h : DedupInv c) (hone : AppliedOnce c)
    {n messageId : String} {now : Nat} (hnow : (c.node n).clock ≤ now) :
    (∀ a ∈ c.arrivals, a.receiver = n → a.messageId = messageId → now < a.time + dedupCacheTtl) ↔
      appliedTimes c n messageId = [] ∨
        ((c.node n).seen.retain now).contains messageId = true := by
  constructor
  · intro hin
    by_cases hnil : appliedTimes c n messageId = []
    · exact .inl hnil
    · obtain ⟨t, ht⟩ := List.exists_mem_of_ne_nil _ hnil
      obtain ⟨a, ha, hif⟩ := List.mem_filterMap.mp ht
      split at hif
      · next hap =>
        have hlt := hin a ha hap.2.1 hap.2.2
        rw [Option.some.inj hif] at hlt
        obtain ⟨entry, he, hle⟩ := h.kept n messageId t ht (by omega)
        have hpos : 0 < dedupCacheTtl := by decide
        exact .inr ((contains_retain_iff _ _ _).mpr ⟨entry, he, by omega⟩)
      · cases hif
  · rintro hor a ha rfl rfl
    obtain ⟨t, ht, hle⟩ := h.first a ha
    rcases hor with hnil | hdup
    · rw [hnil] at ht
      cases ht
    · obtain ⟨entry, he, hlt⟩ := (contains_retain_iff _ _ _).mp hdup
      have hsame : entry.1 = t := by
        have hm := h.stored a.receiver a.messageId entry he
        obtain ⟨x, hx⟩ := List.length_eq_one_iff.mp (Nat.le_antisymm
          (hone a.receiver a.messageId) (List.length_pos_of_mem ht))
        rw [hx, List.mem_singleton] at hm ht
        rw [hm, ht]
      omega

-- A copy that arrives leaves at most one application exactly when it is in time.
private theorem appliedOnce_deliver_iff {fromStr : String → Option String} {c : Exchange}
    (h : DedupInv c) (hone : AppliedOnce c) {n messageId : String} {now : Nat} {wall : Clock}
    {cmd : Command} {jobId status assignedNode : String} (hnow : (c.node n).clock ≤ now)
    (hcmd : jobStatusTuple cmd = some (jobId, status, assignedNode, messageId)) :
    AppliedOnce (c.put n now ((c.node n).receive fromStr n now wall cmd)) ↔
      ∀ a ∈ c.arrivals, a.receiver = n → a.messageId = messageId →
        now < a.time + dedupCacheTtl := by
  rw [inTime_iff h hone hnow]
  by_cases hdup : ((c.node n).seen.retain now).contains messageId = true
  · apply iff_of_true
    · intro m id
      rw [appliedTimes_put]
      simpa [Endpoint.receive, hcmd, hdup] using hone m id
    · exact .inr hdup
  · have hres : ((c.node n).receive fromStr n now wall cmd).2.2 = some (messageId, true) := by
      simp [Endpoint.receive, hcmd, hdup]
    constructor
    · intro hafter
      have hlen := hafter n messageId
      rw [appliedTimes_put, hres, if_pos ⟨rfl, rfl⟩, List.length_append, List.length_singleton]
        at hlen
      exact .inl (List.length_eq_zero_iff.mp (by omega))
    · intro hor m id
      rw [appliedTimes_put, hres]
      split
      · next hif =>
        obtain ⟨rfl, hid⟩ := hif
        cases hid
        rw [hor.resolve_right hdup]
        exact Nat.le_refl 1
      · rw [List.append_nil]
        exact hone m id

private theorem appliedOnce_quiet {c : Exchange} (hone : AppliedOnce c) {n : String} {now : Nat}
    {node : Endpoint} {cmds : List Command} :
    AppliedOnce (c.put n now (node, cmds, none)) := by
  intro m id
  simpa [appliedTimes_put] using hone m id

private theorem arrivesInTime_iff (fromStr : String → Option String) (c : Exchange) (event : Event)
    (h : DedupInv c) (hone : AppliedOnce c) :
    ArrivesInTime c event ↔ ∀ d, step fromStr c event = some d → AppliedOnce d := by
  cases event with
  | deliver n i now wall =>
    constructor
    · intro hin d hstep
      simp only [step] at hstep
      split at hstep
      · next src cmd hsent =>
        split at hstep
        · next hnow =>
          cases hstep
          cases hcmd : jobStatusTuple cmd with
          | some tuple =>
            obtain ⟨jobId, status, assignedNode, messageId⟩ := tuple
            exact (appliedOnce_deliver_iff h hone hnow.2 hcmd).mpr
              (hin src cmd _ _ _ _ hsent hnow.1 hnow.2 hcmd)
          | none =>
            unfold Endpoint.receive
            simp only [hcmd]
            split <;> exact appliedOnce_quiet hone
        · cases hstep
      · cases hstep
    · intro hall src cmd jobId status assignedNode messageId hsent hsrc hnow hcmd
      have hstep : step fromStr c (.deliver n i now wall) =
          some (c.put n now ((c.node n).receive fromStr n now wall cmd)) := by
        simp [step, hsent, hsrc, hnow]
      exact (appliedOnce_deliver_iff h hone hnow hcmd).mp (hall _ hstep)
  | change n jobs =>
    apply iff_of_true trivial
    intro d hstep
    cases hstep
    exact appliedOnce_quiet hone
  | _ =>
    apply iff_of_true trivial
    intro d hstep
    simp only [step] at hstep
    split at hstep
    · cases hstep
      exact appliedOnce_quiet hone
    · cases hstep

/-- In a run of agents that start with empty tables, each agent applies each status message at
most once exactly when no copy reaches an agent ten minutes or more after an earlier one. -/
theorem status_applied_once_iff (fromStr : String → Option String) (events : List Event) :
    Throughout (step fromStr) AppliedOnce {} events ↔
      StepsMeet (step fromStr) ArrivesInTime {} events :=
  throughout_iff_stepsMeet DedupInv (fun _ _ _ h hstep ↦ dedupInv_step h hstep)
    (fun c event h hone ↦ arrivesInTime_iff fromStr c event h hone) dedupInv_start
    (by intro n id; simp [appliedTimes]) events

/-- Node a tells two peers that a job started. Node b acknowledges, node c never does, so the
message is still pending and repeated eleven minutes later. -/
def silentPeer : List Event :=
  [.broadcast "node-a" (.jobStarted "job-1" "node-a" "m-1") {"node-b", "node-c"} 0,
    .deliver "node-b" 0 (1 * second) fun _ ↦ 100, .deliver "node-a" 1 (2 * second) fun _ ↦ 101,
    .tick "node-a" [("job-1", "started", "m-1")] ∅ (fun _ ↦ 0) (660 * second),
    .deliver "node-b" 2 (661 * second) fun _ ↦ 761]

/-- Node b applies the message twice. -/
theorem status_applied_twice : ¬ Throughout (step some) AppliedOnce {} silentPeer := by
  intro h
  have hlen := h silentPeer [] rfl _ rfl "node-b" "m-1"
  exact absurd hlen (by decide +kernel)

end PeerDeploy.Broadcast
