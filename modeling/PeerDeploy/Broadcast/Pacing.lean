import PeerDeploy.Broadcast.Retire

/-!
# How often a pending broadcast is sent

The retry loop of the interval tick (`crates/agent/src/p2p/mod.rs:633–649`) waits longer after
each retry, and the entries are pruned after half an hour (lines 600–609). Whatever the peers
acknowledge and whatever is drawn at random, a broadcast is not repeated without end.
-/

namespace PeerDeploy.Broadcast

open PeerDeploy.Common PeerDeploy.Base PeerDeploy.Job

/-- What a turn publishes; `crates/agent/src/p2p/mod.rs:498,645–649`. -/
def Turn.publishes (table : PendingTable) : Turn → List Command
  | .broadcast cmd _ _ => [cmd]
  | .tick order connected random now => ((table.inOrder order).tick connected random now).2
  | .connectionEstablished _ | .jobStatusAck .. => []

/-- What a run publishes, in order. -/
def published (fromStr : String → Option String) : Loop → List Turn → List Command
  | _, [] => []
  | s, turn :: rest =>
    (s.step fromStr turn).elim [] fun next ↦ turn.publishes s.table ++ published fromStr next rest

/-- The status broadcast that a turn starts. -/
def Turn.key : Turn → Option JobStatusKey
  | .broadcast cmd _ _ => jobStatusKey cmd
  | .connectionEstablished _ | .jobStatusAck .. | .tick .. => none

/-! ### The shortest times -/

/-- The shortest wait before the next retry, in seconds. -/
def leastDelay (retryCount : Nat) : Nat :=
  if 5 ≤ retryCount then 16 else max 1 (2 ^ retryCount / 2)

/-- The shortest time from the creation of an entry to its last retry, in seconds. -/
def leastAge : Nat → Nat
  | 0 => 0
  | retryCount + 1 => leastAge retryCount + leastDelay retryCount

/-- As many retries fit into the lifetime of an entry. -/
def maxRetries : Nat := 116

/-- No delay is below the least one. -/
theorem leastDelay_le (retryCount random : Nat) :
    leastDelay retryCount ≤ PendingTable.delaySecs retryCount random := by
  unfold leastDelay PendingTable.delaySecs
  split
  · exact Nat.le_trans (Nat.le_add_right 16 _) (Nat.le_max_right 1 _)
  · exact max_le_max (Nat.le_refl 1) (Nat.le_add_right _ _)

/-- Every retry waits. -/
theorem leastDelay_pos (retryCount : Nat) : 0 < leastDelay retryCount := by
  unfold leastDelay
  split <;> omega

/-- From the fifth retry on the wait is the longest one. -/
theorem leastAge_add_five (extra : Nat) : leastAge (extra + 5) = 16 * extra + 16 := by
  induction extra with
  | zero => rfl
  | succ extra ih =>
    have hdelay : leastDelay (extra + 5) = 16 := if_pos (Nat.le_add_left 5 extra)
    rw [Nat.add_right_comm, leastAge, ih, hdelay]
    omega

/-- No more retries fit into the lifetime. -/
theorem le_maxRetries {retryCount : Nat} (h : leastAge retryCount * second ≤ pendingEntryTtl) :
    retryCount ≤ maxRetries := by
  have hage : leastAge retryCount ≤ 30 * 60 := Nat.le_of_mul_le_mul_right h (by decide)
  unfold maxRetries
  by_cases hfive : 5 ≤ retryCount
  · rw [← Nat.sub_add_cancel hfive, leastAge_add_five] at hage
    omega
  · omega

private theorem spend {retryCount : Nat} (h : retryCount + 1 ≤ maxRetries) :
    1 + (maxRetries - (retryCount + 1)) = maxRetries - retryCount := by omega

/-! ### One entry -/

/-- An entry stands under the key of its command, and its retries took their time. -/
structure Paced (item : JobStatusKey × PendingJob) : Prop where
  key : jobStatusKey item.2.cmd = some item.1
  age : item.2.created + leastAge item.2.retryCount * second ≤ item.2.lastSent

/-- What the retry loop does to an entry, its peers aside. -/
inductive Retried (random now : Nat) (entry : PendingJob) : PendingJob × Bool → Prop where
  | waits {next : PendingJob} (cmd : next.cmd = entry.cmd) (created : next.created = entry.created)
    (lastSent : next.lastSent = entry.lastSent) (retryCount : next.retryCount = entry.retryCount) :
    Retried random now entry (next, false)
  | repeats {next : PendingJob} (cmd : next.cmd = entry.cmd)
    (created : next.created = entry.created)
    (due : PendingTable.delaySecs entry.retryCount random * second ≤ now - entry.lastSent)
    (lastSent : next.lastSent = now)
    (retryCount : next.retryCount = min (entry.retryCount + 1) (2 ^ 32 - 1)) :
    Retried random now entry (next, true)

/-- The retry loop lets an entry wait or sends it again. -/
theorem retried_retryEntry (connected : Finset String) (random now : Nat) (entry : PendingJob) :
    Retried random now entry (PendingTable.retryEntry connected random now entry) := by
  unfold PendingTable.retryEntry
  by_cases hempty : entry.peers = ∅
  · simp only [hempty, if_true]
    split
    · next hdue => exact .repeats rfl rfl hdue.2 rfl rfl
    · exact .waits rfl rfl rfl rfl
  · simp only [hempty, if_false]
    split
    · next hdue => exact .repeats rfl rfl hdue.2 rfl rfl
    · exact .waits rfl rfl rfl rfl

private theorem paced_retried {key : JobStatusKey} {entry : PendingJob} (h : Paced (key, entry))
    {now random : Nat} (hlive : now - entry.created ≤ pendingEntryTtl) {out : PendingJob × Bool}
    (hout : Retried random now entry out) :
    Paced (key, out.1) ∧ (if out.2 then 1 else 0) + (maxRetries - out.1.retryCount) ≤
      maxRetries - entry.retryCount := by
  have hkey : jobStatusKey entry.cmd = some key := h.key
  have hage : entry.created + leastAge entry.retryCount * second ≤ entry.lastSent := h.age
  cases hout with
  | waits cmd created lastSent retryCount =>
    constructor
    · exact { key := by rw [cmd, hkey], age := by rw [created, lastSent, retryCount]; exact hage }
    · simp [retryCount]
  | repeats cmd created due lastSent retryCount =>
    have hdelay := Nat.mul_le_mul_right second (leastDelay_le entry.retryCount random)
    have hnext : leastAge (entry.retryCount + 1) * second =
        leastAge entry.retryCount * second + leastDelay entry.retryCount * second :=
      Nat.add_mul _ _ _
    have hpositive : 0 < leastDelay entry.retryCount * second :=
      Nat.mul_pos (leastDelay_pos entry.retryCount) (by decide)
    have hreached : entry.created + leastAge (entry.retryCount + 1) * second ≤ now := by omega
    have hfits : entry.retryCount + 1 ≤ maxRetries := le_maxRetries (by omega)
    have hcount : min (entry.retryCount + 1) (2 ^ 32 - 1) = entry.retryCount + 1 :=
      Nat.min_eq_left (Nat.le_trans hfits (by decide))
    rw [hcount] at retryCount
    constructor
    · exact { key := by rw [cmd, hkey]
              age := by rw [created, lastSent, retryCount]; exact hreached }
    · rw [retryCount, if_pos rfl, spend hfits]

/-! ### The table -/

namespace PendingTable

/-- The retries that a broadcast has left. -/
def retriesLeft (key : JobStatusKey) (table : PendingTable) : Nat :=
  (table.map fun item ↦ if item.1 = key then maxRetries - item.2.retryCount else 0).sum

/-- The retries left of a table are those of its first entry and of the others. -/
theorem retriesLeft_cons (key : JobStatusKey) (item : JobStatusKey × PendingJob)
    (rest : PendingTable) : retriesLeft key (item :: rest) =
      (if item.1 = key then maxRetries - item.2.retryCount else 0) + retriesLeft key rest :=
  List.sum_cons

/-- The retries left of two tables add up. -/
theorem retriesLeft_append (key : JobStatusKey) (table more : PendingTable) :
    retriesLeft key (table ++ more) = retriesLeft key table + retriesLeft key more := by
  rw [retriesLeft, List.map_append, List.sum_append]
  rfl

/-- Fewer entries have no more retries left. -/
theorem retriesLeft_sublist (key : JobStatusKey) {table more : PendingTable}
    (h : table.Sublist more) : retriesLeft key table ≤ retriesLeft key more := by
  induction h with
  | slnil => exact Nat.le_refl _
  | cons item _ ih =>
    rw [retriesLeft_cons]
    omega
  | cons_cons item _ ih =>
    rw [retriesLeft_cons, retriesLeft_cons]
    omega

/-- A change of the peer set at most. -/
structure SamePace (item next : JobStatusKey × PendingJob) : Prop where
  key : next.1 = item.1
  cmd : next.2.cmd = item.2.cmd
  created : next.2.created = item.2.created
  lastSent : next.2.lastSent = item.2.lastSent
  retryCount : next.2.retryCount = item.2.retryCount

/-- The retries left do not depend on the peer sets. -/
theorem retriesLeft_map (key : JobStatusKey) (table : PendingTable)
    {change : JobStatusKey × PendingJob → JobStatusKey × PendingJob}
    (h : ∀ item, SamePace item (change item)) :
    retriesLeft key (table.map change) = retriesLeft key table := by
  rw [retriesLeft, List.map_map, retriesLeft]
  congr 1
  apply List.map_congr_left
  intro item _
  rw [Function.comp_apply, (h item).key, (h item).retryCount]

/-- Every iteration order goes through all entries. -/
theorem inOrder_perm {table : PendingTable} (h : (table.map Prod.fst).Nodup)
    {order : List JobStatusKey} (horder : order.Perm (table.map Prod.fst)) :
    (table.inOrder order).Perm table := by
  have hnodup := nodup_inOrder table (horder.nodup_iff.mpr h)
  apply (List.perm_ext_iff_of_nodup hnodup.of_map h.of_map).mpr
  intro item
  exact mem_inOrder h horder

/-- Each entry published again has one retry less. -/
theorem retriesLeft_retry (key : JobStatusKey) (connected : Finset String)
    (random : JobStatusKey → Nat) {now : Nat} {table : PendingTable}
    (h : ∀ item ∈ table, Paced item ∧ now - item.2.created ≤ pendingEntryTtl) :
    (table.retry connected random now).2.countP (jobStatusKey · = some key) +
      retriesLeft key (table.retry connected random now).1 ≤ retriesLeft key table := by
  induction table with
  | nil => exact Nat.le_refl _
  | cons item rest ih =>
    obtain ⟨hpaced, hlive⟩ := h item List.mem_cons_self
    have hrest := ih fun other hother ↦ h other (List.mem_cons_of_mem _ hother)
    have hone := (paced_retried hpaced hlive
      (retried_retryEntry connected (random item.1) now item.2)).2
    have hkey := hpaced.key
    simp only [retry] at hrest ⊢
    rw [List.map_cons, retriesLeft_cons, retriesLeft_cons, List.filterMap_cons]
    cases hsent : (retryEntry connected (random item.1) now item.2).2 with
    | true =>
      simp only [hsent, if_true] at hone ⊢
      rw [List.countP_cons]
      simp only [hkey, Option.some.injEq, decide_eq_true_eq]
      split <;> omega
    | false =>
      simp only [hsent, Bool.false_eq_true, if_false] at hone ⊢
      split <;> omega

end PendingTable

/-- The entries of the table are paced, each under a key of its own. -/
structure TablePaced (table : PendingTable) : Prop where
  keys : (table.map Prod.fst).Nodup
  entries : ∀ item ∈ table, Paced item

section Turns

variable {fromStr : String → Option String} {table : PendingTable} {key : JobStatusKey}

private theorem tablePaced_map (h : TablePaced table)
    {change : JobStatusKey × PendingJob → JobStatusKey × PendingJob}
    (hsame : ∀ item, PendingTable.SamePace item (change item)) : TablePaced (table.map change) where
  keys := by
    rw [List.map_map, show Prod.fst ∘ change = Prod.fst from funext fun item ↦ (hsame item).key]
    exact h.keys
  entries item hitem := by
    obtain ⟨old, hold, rfl⟩ := List.mem_map.mp hitem
    have hpaced := h.entries old hold
    constructor
    · rw [(hsame old).cmd, (hsame old).key]
      exact hpaced.key
    · rw [(hsame old).created, (hsame old).retryCount, (hsame old).lastSent]
      exact hpaced.age

private theorem tablePaced_sublist {less : PendingTable} (h : TablePaced table)
    (hsub : less.Sublist table) : TablePaced less where
  keys := h.keys.sublist (hsub.map _)
  entries item hitem := h.entries item (hsub.subset hitem)

/-- A turn publishes a status broadcast at most as often as it uses up its retries, unless it
starts the broadcast. -/
theorem retriesLeft_turn (h : TablePaced table) {turn : Turn} (henabled : turn.enabled table) :
    TablePaced (turn.table fromStr table) ∧
      (turn.publishes table).countP (jobStatusKey · = some key) +
        (turn.table fromStr table).retriesLeft key ≤
          table.retriesLeft key + if turn.key = some key then maxRetries + 1 else 0 := by
  cases turn with
  | broadcast cmd connected now =>
    simp only [Turn.table, Turn.publishes, Turn.key, PendingTable.track, List.countP_singleton,
      decide_eq_true_eq]
    split
    · next started hcmd =>
      have hremove : (table.remove started).Sublist table := List.filter_sublist
      have hleft := PendingTable.retriesLeft_sublist key hremove
      have hpaced := tablePaced_sublist h hremove
      constructor
      · constructor
        · rw [PendingTable.insert, List.map_append, List.nodup_append]
          refine ⟨hpaced.keys, List.nodup_singleton _, ?_⟩
          rintro k hk _ hk' rfl
          obtain ⟨item, hitem, rfl⟩ := List.mem_map.mp hk
          have hne := (List.mem_filter.mp hitem).2
          simp only [List.map_cons, List.map_nil, List.mem_singleton] at hk'
          simp [hk'] at hne
        · intro item hitem
          rcases List.mem_append.mp hitem with hold | hnew
          · exact hpaced.entries item hold
          · rw [List.mem_singleton.mp hnew]
            exact ⟨hcmd, by simp [leastAge]⟩
      · rw [PendingTable.insert, PendingTable.retriesLeft_append, PendingTable.retriesLeft_cons]
        simp only [hcmd, Option.some.injEq]
        change _ + (_ + (_ + 0)) ≤ _
        split <;> omega
    · next hcmd =>
      simp only [hcmd, reduceCtorEq, if_false]
      exact ⟨h, by omega⟩
  | connectionEstablished peer =>
    constructor
    · exact tablePaced_map h fun _ ↦ ⟨rfl, rfl, rfl, rfl, rfl⟩
    · change 0 + PendingTable.retriesLeft key (table.map _) ≤ _
      rw [PendingTable.retriesLeft_map key table]
      · exact Nat.le_of_eq (Nat.zero_add _)
      · exact fun _ ↦ ⟨rfl, rfl, rfl, rfl, rfl⟩
  | jobStatusAck jobId status sender messageId =>
    change TablePaced (table.acknowledge _ _) ∧
      0 + (table.acknowledge _ _).retriesLeft key ≤ table.retriesLeft key + 0
    unfold PendingTable.acknowledge
    split
    · exact ⟨h, by omega⟩
    · next peer hsender =>
      split
      · split
        · have hremove : (table.remove (jobId, status, messageId)).Sublist table :=
            List.filter_sublist
          have hleft := PendingTable.retriesLeft_sublist key hremove
          exact ⟨tablePaced_sublist h hremove, by omega⟩
        · have hsame : ∀ item : JobStatusKey × PendingJob, PendingTable.SamePace item
              (if item.1 = (jobId, status, messageId) then
                (item.1, { item.2 with peers := item.2.peers.erase peer }) else item) := by
            intro item
            split
            · exact ⟨rfl, rfl, rfl, rfl, rfl⟩
            · exact ⟨rfl, rfl, rfl, rfl, rfl⟩
          constructor
          · exact tablePaced_map h hsame
          · rw [Nat.zero_add]
            exact Nat.le_of_eq (PendingTable.retriesLeft_map key table hsame)
      · exact ⟨h, by omega⟩
  | tick order connected random now =>
    have hperm := PendingTable.inOrder_perm h.keys henabled
    have hsub : ((table.inOrder order).prune now).evict.Sublist (table.inOrder order) :=
      (PendingTable.evict_sublist _).trans List.filter_sublist
    have hordered : TablePaced (table.inOrder order) :=
      { keys := (hperm.map Prod.fst).nodup_iff.mpr h.keys
        entries := fun item hitem ↦ h.entries item (hperm.mem_iff.mp hitem) }
    have hkept := tablePaced_sublist hordered hsub
    have hlive : ∀ item ∈ ((table.inOrder order).prune now).evict,
        Paced item ∧ now - item.2.created ≤ pendingEntryTtl := by
      intro item hitem
      have hpruned := (List.mem_filter.mp ((PendingTable.evict_sublist _).subset hitem)).2
      exact ⟨hkept.entries item hitem, by simpa using hpruned⟩
    constructor
    · constructor
      · change ((((table.inOrder order).prune now).evict.map _).map Prod.fst).Nodup
        rw [List.map_map]
        exact hkept.keys
      · intro item hitem
        obtain ⟨old, hold, rfl⟩ := List.mem_map.mp hitem
        obtain ⟨hpaced, hage⟩ := hlive old hold
        exact (paced_retried hpaced hage
          (retried_retryEntry connected (random old.1) now old.2)).1
    · have hretry := PendingTable.retriesLeft_retry key connected random hlive
      have hless := PendingTable.retriesLeft_sublist key hsub
      have hsame : (table.inOrder order).retriesLeft key = table.retriesLeft key :=
        (hperm.map _).sum_nat
      change _ + _ ≤ _ + 0
      exact Nat.le_trans hretry (by omega)

end Turns

private theorem starts_cons (key : JobStatusKey) (turn : Turn) (rest : List Turn) :
    (maxRetries + 1) * (turn :: rest).countP (·.key = some key) =
      (maxRetries + 1) * rest.countP (·.key = some key) +
        if turn.key = some key then maxRetries + 1 else 0 := by
  rw [List.countP_cons, Nat.mul_add]
  congr 1
  split
  · next hkey => rw [if_pos (of_decide_eq_true hkey), Nat.mul_one]
  · next hkey => rw [if_neg (by simpa using hkey), Nat.mul_zero]

/-- From a paced table on, the retries left are all that is published of the broadcasts that are
not started anew. -/
theorem published_from (fromStr : String → Option String) (key : JobStatusKey) (turns : List Turn)
    {s : Loop} (hs : TablePaced s.table) :
    (published fromStr s turns).countP (jobStatusKey · = some key) ≤
      s.table.retriesLeft key + (maxRetries + 1) * turns.countP (·.key = some key) := by
  induction turns generalizing s with
  | nil => exact Nat.zero_le _
  | cons turn rest ih =>
    unfold published Loop.step
    by_cases henabled : turn.enabled s.table
    · obtain ⟨hpaced, hturn⟩ := @retriesLeft_turn fromStr s.table key hs turn henabled
      rw [if_pos henabled, Option.elim_some, List.countP_append, starts_cons]
      have hrest := @ih { table := turn.table fromStr s.table
                          log := s.log ++ turn.notes fromStr s.table } hpaced
      change _ ≤ (turn.table fromStr s.table).retriesLeft key + _ at hrest
      omega
    · rw [if_neg henabled]
      exact Nat.zero_le _

/-- In every run, a status broadcast is published at most 117 times for each time it is started,
whatever is acknowledged and whenever the ticks come. -/
theorem published_bounded (fromStr : String → Option String) (key : JobStatusKey)
    (turns : List Turn) :
    (published fromStr {} turns).countP (jobStatusKey · = some key) ≤
      (maxRetries + 1) * turns.countP (·.key = some key) := by
  have hempty : TablePaced ({} : Loop).table := ⟨List.nodup_nil, fun _ hitem ↦ nomatch hitem⟩
  have hstart := published_from fromStr key turns hempty
  have hnone : PendingTable.retriesLeft key [] = 0 := rfl
  change _ ≤ PendingTable.retriesLeft key [] + _ at hstart
  rwa [hnone, Nat.zero_add] at hstart

end PeerDeploy.Broadcast
