import PeerDeploy.Broadcast.Delivery

/-!
# When a pending broadcast is dropped

The event loop of one agent, as far as it touches the table of pending broadcasts:
`crates/agent/src/p2p/mod.rs:489–499,599–650,1350–1360,1401–1406`. Acknowledgements come from
anywhere and name anyone. The log says which peers were put into which peer set and which
acknowledgements were processed; no turn reads it.
-/

namespace PeerDeploy.Broadcast

open PeerDeploy.Common PeerDeploy.Base PeerDeploy.Job

/-- An entry of the log. -/
inductive Note where
  /-- The peers were put into the peer set of the entry. -/
  | put (key : JobStatusKey) (peers : Finset String)
  /-- An acknowledgement that names the peer was processed. -/
  | acked (key : JobStatusKey) (peer : String)

/-- The pending broadcasts of an agent, and the log. -/
structure Loop where
  table : PendingTable := []
  log : List Note := []

/-- What the event loop turns to. -/
inductive Turn where
  | broadcast (cmd : Command) (connected : Finset String) (now : Nat)
  | connectionEstablished (peer : String)
  | jobStatusAck (jobId status sender messageId : String)
  /-- `order` is the iteration order of the table. -/
  | tick (order : List JobStatusKey) (connected : Finset String) (random : JobStatusKey → Nat)
    (now : Nat)

/-- The message id of a new status broadcast. -/
def Turn.messageId : Turn → Option String
  | .broadcast cmd _ _ => (jobStatusKey cmd).map fun key ↦ key.2.2
  | .connectionEstablished .. | .jobStatusAck .. | .tick .. => none

/-- What a turn does to the peer sets. -/
def Turn.notes (fromStr : String → Option String) (table : PendingTable) : Turn → List Note
  | .broadcast cmd connected _ =>
    match jobStatusKey cmd with
    | some key => [.put key connected]
    | none => []
  | .connectionEstablished peer => table.map fun (key, _) ↦ .put key {peer}
  | .jobStatusAck jobId status sender messageId =>
    match fromStr sender with
    | some peer => [.acked (jobId, status, messageId) peer]
    | none => []
  | .tick order connected _ now =>
    ((table.inOrder order).prune now).evict.filterMap fun (key, entry) ↦
      if entry.peers = ∅ then some (.put key connected) else none

/-- The table after a turn. -/
def Turn.table (fromStr : String → Option String) (table : PendingTable) : Turn → PendingTable
  | .broadcast cmd connected now => table.track cmd connected now
  | .connectionEstablished peer => table.expect peer
  | .jobStatusAck jobId status sender messageId =>
    table.acknowledge (jobId, status, messageId) (fromStr sender)
  | .tick order connected random now => ((table.inOrder order).tick connected random now).1

/-- The iteration order of a tick is one of the table. -/
def Turn.enabled (table : PendingTable) : Turn → Prop
  | .tick order _ _ _ => order.Perm (table.map Prod.fst)
  | _ => True

/-- Whether a turn can be taken is decidable. -/
instance (table : PendingTable) : (turn : Turn) → Decidable (turn.enabled table)
  | .tick order _ _ _ => inferInstanceAs (Decidable (order.Perm (table.map Prod.fst)))
  | .broadcast .. | .connectionEstablished .. | .jobStatusAck .. => isTrue trivial

/-- One turn of the event loop. -/
def Loop.step (fromStr : String → Option String) (s : Loop) (turn : Turn) : Option Loop :=
  if turn.enabled s.table then
    some { table := turn.table fromStr s.table, log := s.log ++ turn.notes fromStr s.table }
  else none

/-- The table stays as it is or takes a turn. -/
def TurnsInto (fromStr : String → Option String) (table next : PendingTable) : Prop :=
  next = table ∨ ∃ turn : Turn, turn.enabled table ∧ next = turn.table fromStr table

private theorem turnsInto_put {fromStr : String → Option String} (c : Exchange) (n m : String)
    (now : Nat) (out : Endpoint × List Command × Option (String × Bool))
    (h : TurnsInto fromStr (c.node n).pending out.1.pending) :
    TurnsInto fromStr (c.node m).pending ((c.put n now out).node m).pending := by
  by_cases hm : m = n
  · subst hm
    rw [node_put_self]
    exact h
  · rw [node_put_ne c hm]
    exact .inl rfl

private theorem turnsInto_receive (fromStr : String → Option String) (n : String) (node : Endpoint)
    (now : Nat) (wall : Clock) (cmd : Command) :
    TurnsInto fromStr node.pending (node.receive fromStr n now wall cmd).1.pending := by
  unfold Endpoint.receive
  split
  · simp only
    split
    · exact .inl rfl
    · exact .inl rfl
  · split
    · next jobId status sender messageId _ =>
      exact .inr ⟨.jobStatusAck jobId status sender messageId, trivial, rfl⟩
    · exact .inl rfl

/-- Between agents, too, a table changes only by such turns. -/
theorem turnsInto_of_step {fromStr : String → Option String} {c d : Exchange} {event : Event}
    (h : step fromStr c event = some d) (m : String) :
    TurnsInto fromStr (c.node m).pending (d.node m).pending := by
  cases event with
  | broadcast n cmd connected now =>
    simp only [step] at h
    split at h
    · cases h
      exact turnsInto_put c n m now _ (.inr ⟨.broadcast cmd connected now, trivial, rfl⟩)
    · cases h
  | tick n order connected random now =>
    simp only [step] at h
    split at h
    · next hnow =>
      cases h
      exact turnsInto_put c n m now _ (.inr ⟨.tick order connected random now, hnow.2, rfl⟩)
    · cases h
  | deliver n i now wall =>
    simp only [step] at h
    split at h
    · next src cmd hsent =>
      split at h
      · cases h
        exact turnsInto_put c n m now _ (turnsInto_receive fromStr n _ now wall cmd)
      · cases h
    · cases h
  | connectionEstablished n peer now =>
    simp only [step] at h
    split at h
    · cases h
      exact turnsInto_put c n m now _ (.inr ⟨.connectionEstablished peer, trivial, rfl⟩)
    · cases h
  | change n jobs =>
    cases h
    exact turnsInto_put c n m _ _ (.inl rfl)

/-- Every peer that was put into the peer set of the entry is named by an acknowledgement of the
entry that was processed later, whenever it was put in. -/
def AckedSince (log : List Note) (key : JobStatusKey) : Prop :=
  ∀ earlier later peers, log = earlier ++ .put key peers :: later →
    ∀ peer ∈ peers, .acked key peer ∈ later

/-! ### What is owed -/

/-- The peers whose acknowledgement is owed, after one more entry of the log. -/
def owes (key : JobStatusKey) (owed : Finset String) : Note → Finset String
  | .put k peers => if k = key then owed ∪ peers else owed
  | .acked k peer => if k = key then owed.erase peer else owed

/-- The peers that were put into the peer set of an entry and not acknowledged since. -/
def unacked (key : JobStatusKey) (log : List Note) : Finset String := log.foldl (owes key) ∅

/-- What is owed after a longer log. -/
theorem unacked_append (key : JobStatusKey) (log notes : List Note) :
    unacked key (log ++ notes) = notes.foldl (owes key) (unacked key log) :=
  List.foldl_append

private theorem mem_foldl_owes {key : JobStatusKey} {peer : String} {later : List Note}
    (hlater : .acked key peer ∉ later) {owed : Finset String} (h : peer ∈ owed) :
    peer ∈ later.foldl (owes key) owed := by
  induction later generalizing owed with
  | nil => exact h
  | cons note rest ih =>
    rw [List.foldl_cons]
    apply ih (fun hin ↦ hlater (List.mem_cons_of_mem _ hin))
    cases note with
    | put k peers =>
      simp only [owes]
      split
      · exact Finset.mem_union_left _ h
      · exact h
    | acked k other =>
      simp only [owes]
      split
      · next heq =>
        apply Finset.mem_erase_of_ne_of_mem _ h
        rintro rfl
        exact hlater (by rw [heq]; exact List.mem_cons_self)
      · exact h

/-- Once nothing is owed, every peer has acknowledged after it was put in. -/
theorem ackedSince_of_unacked {key : JobStatusKey} {log : List Note} (h : unacked key log = ∅) :
    AckedSince log key := by
  rintro earlier later peers rfl peer hpeer
  apply Classical.byContradiction
  intro hlater
  have hput : peer ∈ owes key (unacked key earlier) (.put key peers) := by
    simp only [owes, if_true]
    exact Finset.mem_union_right _ hpeer
  have hin := mem_foldl_owes hlater hput
  rw [unacked_append, List.foldl_cons] at h
  rw [h] at hin
  exact absurd hin (Finset.notMem_empty peer)

private theorem foldl_owes_subset {key : JobStatusKey} {notes : List Note} {target : Finset String}
    (hnotes : ∀ note ∈ notes, ∃ k peers, note = .put k peers ∧ (k = key → peers ⊆ target))
    {owed : Finset String} (howed : owed ⊆ target) : notes.foldl (owes key) owed ⊆ target := by
  induction notes generalizing owed with
  | nil => exact howed
  | cons note rest ih =>
    obtain ⟨k, peers, rfl, hpeers⟩ := hnotes note List.mem_cons_self
    rw [List.foldl_cons]
    apply ih (fun note hin ↦ hnotes note (List.mem_cons_of_mem _ hin))
    simp only [owes]
    split
    · next heq => exact Finset.union_subset howed (hpeers heq)
    · exact howed

private theorem unacked_eq_empty {key : JobStatusKey} {log : List Note}
    (h : ∀ peers, .put key peers ∉ log) : unacked key log = ∅ := by
  have hfold : ∀ log : List Note, (∀ peers, .put key peers ∉ log) →
      log.foldl (owes key) ∅ = ∅ := by
    intro log hlog
    induction log with
    | nil => rfl
    | cons note rest ih =>
      have hrest : ∀ peers, .put key peers ∉ rest :=
        fun peers hin ↦ hlog peers (List.mem_cons_of_mem _ hin)
      rw [List.foldl_cons]
      cases note with
      | put k peers =>
        have hne : k ≠ key := by
          rintro rfl
          exact hlog peers List.mem_cons_self
        rw [owes, if_neg hne]
        exact ih hrest
      | acked k peer =>
        rw [owes, Finset.erase_empty, ite_self]
        exact ih hrest
  exact hfold log h

/-! ### Entries of the changed table -/

private theorem lookup_eq_some_iff_mem {α β : Type} [BEq α] [LawfulBEq α] {table : List (α × β)}
    (h : (table.map Prod.fst).Nodup) {key : α} {value : β} :
    table.lookup key = some value ↔ (key, value) ∈ table := by
  induction table with
  | nil => simp
  | cons head rest ih =>
    obtain ⟨k, v⟩ := head
    obtain ⟨hk, hrest⟩ := List.nodup_cons.mp h
    rw [List.lookup_cons, List.mem_cons]
    by_cases heq : key = k
    · subst heq
      have hnotin : (key, value) ∉ rest := fun hin ↦ hk (List.mem_map.mpr ⟨_, hin, rfl⟩)
      simp [hnotin, eq_comm]
    · have hne : (key == k) = false := by simpa using heq
      simp [hne, heq, ih hrest]

private theorem eq_of_mem {table : PendingTable} (h : (table.map Prod.fst).Nodup)
    {key : JobStatusKey} {e e' : PendingJob} (he : (key, e) ∈ table) (he' : (key, e') ∈ table) :
    e = e' := by
  rw [← lookup_eq_some_iff_mem h] at he he'
  exact Option.some.inj (he.symm.trans he')

namespace PendingTable

/-- The order of a table does not change its entries. -/
theorem mem_inOrder {table : PendingTable} (h : (table.map Prod.fst).Nodup)
    {order : List JobStatusKey} (horder : order.Perm (table.map Prod.fst)) {key : JobStatusKey}
    {entry : PendingJob} : (key, entry) ∈ table.inOrder order ↔ (key, entry) ∈ table := by
  rw [inOrder, List.mem_filterMap]
  constructor
  · rintro ⟨k, -, hk⟩
    obtain ⟨e, he, heq⟩ := Option.map_eq_some_iff.mp hk
    cases heq
    exact (lookup_eq_some_iff_mem h).mp he
  · intro hin
    refine ⟨key, horder.mem_iff.mpr (List.mem_map.mpr ⟨_, hin, rfl⟩), ?_⟩
    rw [(lookup_eq_some_iff_mem h).mpr hin]
    rfl

/-- Any order keeps the keys apart. -/
theorem nodup_inOrder (table : PendingTable) {order : List JobStatusKey}
    (h : order.Nodup) : ((table.inOrder order).map Prod.fst).Nodup := by
  have hsub : ((table.inOrder order).map Prod.fst).Sublist order := by
    induction order with
    | nil => exact List.Sublist.refl _
    | cons key rest ih =>
      have ih := ih (List.nodup_cons.mp h).2
      unfold inOrder at ih ⊢
      cases hkey : table.lookup key with
      | none =>
        rw [List.filterMap_cons_none (by rw [hkey]; rfl)]
        exact ih.cons key
      | some entry =>
        rw [List.filterMap_cons_some (by rw [hkey]; rfl), List.map_cons]
        exact ih.cons_cons key
  exact h.sublist hsub

private theorem evictOldest_sublist (table : PendingTable) (excess : Nat) :
    (evictOldest table excess).Sublist table := by
  induction excess generalizing table with
  | zero => exact List.Sublist.refl _
  | succ excess ih =>
    unfold evictOldest
    split
    · exact (ih _).trans List.filter_sublist
    · exact ih table

/-- Evicting drops entries. -/
theorem evict_sublist (table : PendingTable) : (evict table).Sublist table := by
  unfold evict
  split
  · exact evictOldest_sublist table _
  · exact List.Sublist.refl _

/-- Nothing is evicted unless the table is over its capacity. -/
theorem evict_of_le {table : PendingTable} (h : table.length ≤ maxPendingBroadcasts) :
    evict table = table := by
  rw [evict, if_neg (Nat.not_lt.mpr h)]

end PendingTable

/-! ### The invariant -/

/-- What the table says about the log. -/
structure Tracked (s : Loop) (ids : List String) : Prop where
  keys : (s.table.map Prod.fst).Nodup
  /-- The message ids of the log were broadcast. -/
  used : ∀ key peers, .put key peers ∈ s.log → key.2.2 ∈ ids
  /-- The creation of an entry is in the log. -/
  logged : ∀ key entry, (key, entry) ∈ s.table → ∃ peers, .put key peers ∈ s.log
  /-- A peer that has not acknowledged is in the peer set. -/
  owed : ∀ key entry, (key, entry) ∈ s.table → unacked key s.log ⊆ entry.peers

private theorem tracked_broadcast {fromStr : String → Option String} {s : Loop} {ids : List String}
    (h : Tracked s ids) {cmd : Command} {connected : Finset String} {now : Nat}
    (hfresh : ∀ id, (Turn.broadcast cmd connected now).messageId = some id → id ∉ ids) :
    Tracked
      { table := (Turn.broadcast cmd connected now).table fromStr s.table
        log := s.log ++ (Turn.broadcast cmd connected now).notes fromStr s.table }
      (ids ++ (Turn.broadcast cmd connected now).messageId.toList) := by
  simp only [Turn.messageId] at hfresh
  simp only [Turn.messageId, Turn.table, Turn.notes, PendingTable.track]
  cases hkey : jobStatusKey cmd with
  | none =>
    simp only [Option.map_none, Option.toList_none, List.append_nil]
    exact h
  | some new =>
    have hid : new.2.2 ∉ ids := hfresh new.2.2 (by rw [hkey]; rfl)
    have hnone : ∀ peers, .put new peers ∉ s.log := fun peers hin ↦ hid (h.used new peers hin)
    simp only [Option.map_some, Option.toList_some]
    -- The entries under other keys stay, with the same peers and the same acknowledgements.
    have hmem : ∀ key entry, (key, entry) ∈ PendingTable.insert s.table new
        { cmd, peers := connected, created := now, lastSent := now, retryCount := 0 } →
          (key = new ∧ entry.peers = connected) ∨ (key ≠ new ∧ (key, entry) ∈ s.table) := by
      intro key entry hin
      rcases List.mem_append.mp hin with hin | hin
      · obtain ⟨hin, hne⟩ := List.mem_filter.mp hin
        exact .inr ⟨by simpa using hne, hin⟩
      · cases List.mem_singleton.mp hin
        exact .inl ⟨rfl, rfl⟩
    constructor
    case keys =>
      have hsub : ((PendingTable.remove s.table new).map Prod.fst).Sublist
          (s.table.map Prod.fst) := List.filter_sublist.map _
      rw [PendingTable.insert, List.map_append, List.nodup_append]
      refine ⟨h.keys.sublist hsub, by simp, ?_⟩
      intro key hin other hother heq
      obtain ⟨pair, hpair, rfl⟩ := List.mem_map.mp hin
      have hne := (List.mem_filter.mp hpair).2
      simp_all
    case used =>
      intro key peers hin
      rcases List.mem_append.mp hin with hin | hin
      · exact List.mem_append_left _ (h.used key peers hin)
      · cases List.mem_singleton.mp hin
        exact List.mem_append_right _ List.mem_cons_self
    case logged =>
      intro key entry hin
      rcases hmem key entry hin with ⟨rfl, -⟩ | ⟨-, hin⟩
      · exact ⟨connected, List.mem_append_right _ List.mem_cons_self⟩
      · obtain ⟨peers, hput⟩ := h.logged key entry hin
        exact ⟨peers, List.mem_append_left _ hput⟩
    case owed =>
      intro key entry hin
      rw [unacked_append]
      rcases hmem key entry hin with ⟨rfl, hpeers⟩ | ⟨hne, hin⟩
      · rw [unacked_eq_empty hnone, hpeers]
        simp only [List.foldl_cons, List.foldl_nil, owes, if_true]
        exact Finset.union_subset (Finset.empty_subset _) (Finset.Subset.refl _)
      · simp only [List.foldl_cons, List.foldl_nil, owes, if_neg (Ne.symm hne)]
        exact h.owed key entry hin

private theorem tracked_of_puts {s t : Loop} {ids : List String} (h : Tracked s ids)
    (hkeys : (t.table.map Prod.fst).Nodup) {notes : List Note} (hlog : t.log = s.log ++ notes)
    (hentries : ∀ key entry, (key, entry) ∈ t.table →
      ∃ old, (key, old) ∈ s.table ∧ old.peers ⊆ entry.peers)
    (hnotes : ∀ note ∈ notes, ∃ key peers old, note = .put key peers ∧ (key, old) ∈ s.table ∧
      ∀ entry, (key, entry) ∈ t.table → peers ⊆ entry.peers) : Tracked t ids := by
  constructor
  case keys => exact hkeys
  case used =>
    intro key peers hin
    rw [hlog] at hin
    rcases List.mem_append.mp hin with hin | hin
    · exact h.used key peers hin
    · obtain ⟨k, ps, old, heq, hold, -⟩ := hnotes _ hin
      cases heq
      obtain ⟨ps, hput⟩ := h.logged key old hold
      exact h.used key ps hput
  case logged =>
    intro key entry hin
    obtain ⟨old, hold, -⟩ := hentries key entry hin
    obtain ⟨peers, hput⟩ := h.logged key old hold
    exact ⟨peers, by rw [hlog]; exact List.mem_append_left _ hput⟩
  case owed =>
    intro key entry hin
    obtain ⟨old, hold, hsub⟩ := hentries key entry hin
    rw [hlog, unacked_append]
    apply foldl_owes_subset _ ((h.owed key old hold).trans hsub)
    intro note hnote
    obtain ⟨k, peers, old', rfl, -, hpeers⟩ := hnotes note hnote
    refine ⟨k, peers, rfl, ?_⟩
    rintro rfl
    exact hpeers entry hin

private theorem tracked_connectionEstablished {s : Loop} {ids : List String} (h : Tracked s ids)
    (peer : String) :
    Tracked { table := s.table.expect peer
              log := s.log ++ s.table.map fun (key, _) ↦ .put key {peer} } ids := by
  apply tracked_of_puts h _ rfl
  · rintro key entry hin
    obtain ⟨⟨k, old⟩, hold, heq⟩ := List.mem_map.mp hin
    cases heq
    exact ⟨old, hold, Finset.subset_insert peer old.peers⟩
  · intro note hin
    obtain ⟨⟨key, old⟩, hold, rfl⟩ := List.mem_map.mp hin
    refine ⟨key, {peer}, old, rfl, hold, ?_⟩
    intro entry hentry
    obtain ⟨⟨k, e⟩, -, heq⟩ := List.mem_map.mp hentry
    cases heq
    exact Finset.singleton_subset_iff.mpr (Finset.mem_insert_self peer e.peers)
  · have hkeys : (s.table.expect peer).map Prod.fst = s.table.map Prod.fst := by
      rw [PendingTable.expect, List.map_map]
      rfl
    rw [hkeys]
    exact h.keys

private theorem retryEntry_peers (connected : Finset String) (random now : Nat)
    (entry : PendingJob) :
    (PendingTable.retryEntry connected random now entry).1.peers =
      if entry.peers = ∅ then connected else entry.peers := by
  unfold PendingTable.retryEntry
  by_cases hempty : entry.peers = ∅
  · simp only [hempty, if_true]
    split
    · rfl
    · rfl
  · simp only [hempty, if_false]
    split
    · rfl
    · rfl

private theorem tracked_tick {s : Loop} {ids : List String} (h : Tracked s ids)
    {order : List JobStatusKey} (horder : order.Perm (s.table.map Prod.fst))
    (connected : Finset String) (random : JobStatusKey → Nat) (now : Nat) :
    Tracked
      { table := ((s.table.inOrder order).tick connected random now).1
        log := s.log ++ (Turn.tick order connected random now).notes (fun _ ↦ none) s.table }
      ids := by
  have hkept : (((s.table.inOrder order).prune now).evict.map Prod.fst).Nodup := by
    have hsub : ((s.table.inOrder order).prune now).evict.Sublist (s.table.inOrder order) :=
      (PendingTable.evict_sublist _).trans List.filter_sublist
    have hnodup := PendingTable.nodup_inOrder s.table (horder.nodup_iff.mpr h.keys)
    exact hnodup.sublist (hsub.map _)
  have hfrom : ∀ key entry, (key, entry) ∈ ((s.table.inOrder order).prune now).evict →
      (key, entry) ∈ s.table := by
    intro key entry hin
    have hpruned := (PendingTable.evict_sublist _).subset hin
    exact (PendingTable.mem_inOrder h.keys horder).mp (List.mem_filter.mp hpruned).1
  apply tracked_of_puts h _ rfl
  · intro key entry hin
    obtain ⟨⟨k, old⟩, hold, heq⟩ := List.mem_map.mp hin
    cases heq
    refine ⟨old, hfrom key old hold, ?_⟩
    rw [retryEntry_peers]
    split
    · next hempty =>
      rw [hempty]
      exact Finset.empty_subset connected
    · exact Finset.Subset.refl _
  · intro note hin
    obtain ⟨⟨key, old⟩, hold, hif⟩ := List.mem_filterMap.mp hin
    simp only at hif
    split at hif
    · next hempty =>
      cases hif
      refine ⟨key, connected, old, rfl, hfrom key old hold, ?_⟩
      intro entry hentry
      obtain ⟨⟨k, e⟩, he, heq⟩ := List.mem_map.mp hentry
      cases heq
      cases eq_of_mem hkept hold he
      rw [retryEntry_peers, if_pos hempty]
    · cases hif
  · have hkeys : ((s.table.inOrder order).tick connected random now).1.map Prod.fst =
        ((s.table.inOrder order).prune now).evict.map Prod.fst := by
      rw [PendingTable.tick, PendingTable.retry, List.map_map]
      rfl
    rw [hkeys]
    exact hkept

private theorem mem_acknowledge {table : PendingTable} (h : (table.map Prod.fst).Nodup)
    {key acked : JobStatusKey} {peer : String} {entry : PendingJob}
    (hin : (key, entry) ∈ table.acknowledge acked (some peer)) :
    ∃ old, (key, old) ∈ table ∧
      entry.peers = if key = acked then old.peers.erase peer else old.peers := by
  unfold PendingTable.acknowledge at hin
  cases hfound : table.lookup acked with
  | none =>
    simp only [hfound] at hin
    refine ⟨entry, hin, (if_neg ?_).symm⟩
    rintro rfl
    rw [(lookup_eq_some_iff_mem h).mpr hin] at hfound
    cases hfound
  | some found =>
    simp only [hfound] at hin
    split at hin
    · obtain ⟨hin, hne⟩ := List.mem_filter.mp hin
      exact ⟨entry, hin, (if_neg (by simpa using hne)).symm⟩
    · obtain ⟨⟨k, old⟩, hold, heq⟩ := List.mem_map.mp hin
      simp only at heq
      split at heq
      · next hkey =>
        cases heq
        exact ⟨old, hold, (if_pos hkey).symm⟩
      · next hkey =>
        cases heq
        exact ⟨_, hold, (if_neg hkey).symm⟩

private theorem nodup_acknowledge {table : PendingTable} (h : (table.map Prod.fst).Nodup)
    (acked : JobStatusKey) (peer : Option String) :
    ((table.acknowledge acked peer).map Prod.fst).Nodup := by
  unfold PendingTable.acknowledge
  split
  · exact h
  · next name =>
    split
    · split
      · exact h.sublist (List.filter_sublist.map _)
      · have hsame : ∀ x : JobStatusKey × PendingJob,
            (if x.1 = acked then (x.1, { x.2 with peers := x.2.peers.erase name })
              else (x.1, x.2)).1 = x.1 := by
          intro x
          split
          · rfl
          · rfl
        rw [List.map_map]
        exact (List.map_congr_left fun x _ ↦ hsame x) ▸ h
    · exact h

private theorem tracked_ack {s : Loop} {ids : List String} (h : Tracked s ids)
    (acked : JobStatusKey) (peer : String) :
    Tracked { table := s.table.acknowledge acked (some peer)
              log := s.log ++ [.acked acked peer] } ids := by
  constructor
  case keys => exact nodup_acknowledge h.keys acked (some peer)
  case used =>
    intro key peers hin
    rcases List.mem_append.mp hin with hin | hin
    · exact h.used key peers hin
    · cases List.mem_singleton.mp hin
  case logged =>
    intro key entry hin
    obtain ⟨old, hold, -⟩ := mem_acknowledge h.keys hin
    obtain ⟨peers, hput⟩ := h.logged key old hold
    exact ⟨peers, List.mem_append_left _ hput⟩
  case owed =>
    intro key entry hin
    obtain ⟨old, hold, hpeers⟩ := mem_acknowledge h.keys hin
    rw [unacked_append, hpeers]
    simp only [List.foldl_cons, List.foldl_nil, owes]
    by_cases hkey : key = acked
    · rw [if_pos hkey.symm, if_pos hkey]
      exact Finset.erase_subset_erase peer (h.owed key old hold)
    · rw [if_neg (Ne.symm hkey), if_neg hkey]
      exact h.owed key old hold

-- The log accounts for the table, as long as message ids are fresh.
private theorem tracked_step (fromStr : String → Option String) (s : Loop) (seen : List Turn)
    (turn : Turn) (t : Loop)
    (h : (seen.filterMap Turn.messageId).Nodup → Tracked s (seen.filterMap Turn.messageId))
    (hstep : s.step fromStr turn = some t)
    (hfresh : ((seen ++ [turn]).filterMap Turn.messageId).Nodup) :
    Tracked t ((seen ++ [turn]).filterMap Turn.messageId) := by
  have hids : (seen ++ [turn]).filterMap Turn.messageId =
      seen.filterMap Turn.messageId ++ turn.messageId.toList := by
    rw [List.filterMap_append]
    cases hid : turn.messageId with
    | none => rw [List.filterMap_cons_none hid, List.filterMap_nil, Option.toList_none]
    | some id => rw [List.filterMap_cons_some hid, List.filterMap_nil, Option.toList_some]
  rw [hids] at hfresh ⊢
  rw [List.nodup_append] at hfresh
  have h := h hfresh.1
  unfold Loop.step at hstep
  split at hstep
  · next henabled =>
    cases hstep
    cases turn with
    | broadcast cmd connected now =>
      apply tracked_broadcast h
      intro id hid hin
      exact hfresh.2.2 id hin id (by rw [hid]; exact List.mem_cons_self) rfl
    | connectionEstablished peer =>
      rw [Turn.messageId, Option.toList_none, List.append_nil]
      exact tracked_connectionEstablished h peer
    | jobStatusAck jobId status sender messageId =>
      rw [Turn.messageId, Option.toList_none, List.append_nil, Turn.table, Turn.notes]
      cases fromStr sender with
      | none =>
        rw [List.append_nil]
        exact h
      | some peer => exact tracked_ack h (jobId, status, messageId) peer
    | tick order connected random now =>
      rw [Turn.messageId, Option.toList_none, List.append_nil]
      exact tracked_tick h henabled connected random now
  · cases hstep

private theorem tracked_of_run {fromStr : String → Option String} {turns : List Turn} {s : Loop}
    (hrun : run (Loop.step fromStr) {} turns = some s)
    (hfresh : (turns.filterMap Turn.messageId).Nodup) :
    Tracked s (turns.filterMap Turn.messageId) := by
  have hempty : ∀ key entry, (key, entry) ∉ ({} : Loop).table :=
    fun _ _ hin ↦ absurd hin List.not_mem_nil
  have hstart : Tracked {} [] :=
    { keys := List.nodup_nil
      used := fun _ _ hin ↦ absurd hin List.not_mem_nil
      logged := fun key entry hin ↦ absurd hin (hempty key entry)
      owed := fun key entry hin ↦ absurd hin (hempty key entry) }
  let inv : Loop → List Turn → Prop := fun s seen ↦
    (seen.filterMap Turn.messageId).Nodup → Tracked s (seen.filterMap Turn.messageId)
  have hstep : ∀ s seen turn t, inv s seen → True → s.step fromStr turn = some t →
      inv t (seen ++ [turn]) :=
    fun s seen turn t h _ hstep ↦ tracked_step fromStr s seen turn t h hstep
  have hinv : inv {} [] := fun _ ↦ hstart
  exact run_history hstep (fun _ _ ↦ trivial) hinv hrun hfresh

/-! ### Leaving the table -/

/-- The entry is older than the lifetime of a pending broadcast. -/
def Expires (entry : PendingJob) : Turn → Prop
  | .tick _ _ _ now => pendingEntryTtl < now - entry.created
  | _ => False

/-- There are more entries than the table may have. -/
def Overflows (table : PendingTable) : Turn → Prop
  | .tick order _ _ now => maxPendingBroadcasts < ((table.inOrder order).prune now).length
  | _ => False

private theorem track_keeps {table : PendingTable} {key : JobStatusKey} {entry : PendingJob}
    (h : (key, entry) ∈ table) (cmd : Command) (connected : Finset String) (now : Nat) :
    ∃ e, (key, e) ∈ table.track cmd connected now := by
  unfold PendingTable.track
  split
  · next new _ =>
    by_cases hkey : key = new
    · exact ⟨_, List.mem_append_right _ (by rw [hkey]; exact List.mem_cons_self)⟩
    · exact ⟨entry, List.mem_append_left _ (List.mem_filter.mpr ⟨h, by simpa using hkey⟩)⟩
  · exact ⟨entry, h⟩

private theorem acknowledge_drops {table : PendingTable} (h : (table.map Prod.fst).Nodup)
    {key acked : JobStatusKey} {entry : PendingJob} (hin : (key, entry) ∈ table) {peer : String}
    (hgone : ∀ e, (key, e) ∉ table.acknowledge acked (some peer)) :
    key = acked ∧ entry.peers.erase peer = ∅ := by
  unfold PendingTable.acknowledge at hgone
  cases hfound : table.lookup acked with
  | none =>
    simp only [hfound] at hgone
    exact absurd hin (hgone entry)
  | some found =>
    simp only [hfound] at hgone
    split at hgone
    · next hlast =>
      have hkey : key = acked := by
        apply Classical.byContradiction
        intro hne
        exact hgone entry (List.mem_filter.mpr ⟨hin, by simpa using hne⟩)
      subst hkey
      rw [(lookup_eq_some_iff_mem h).mpr hin] at hfound
      cases hfound
      exact ⟨rfl, hlast⟩
    · by_cases hkey : key = acked
      · have hmapped := hgone { entry with peers := entry.peers.erase peer }
        exact absurd (List.mem_map.mpr ⟨_, hin, by rw [if_pos hkey]⟩) hmapped
      · exact absurd (List.mem_map.mpr ⟨_, hin, by rw [if_neg hkey]⟩) (hgone entry)

private theorem tick_drops {table : PendingTable} (h : (table.map Prod.fst).Nodup)
    {order : List JobStatusKey} (horder : order.Perm (table.map Prod.fst)) {key : JobStatusKey}
    {entry : PendingJob} (hin : (key, entry) ∈ table) {connected : Finset String}
    {random : JobStatusKey → Nat} {now : Nat}
    (hgone : ∀ e, (key, e) ∉ ((table.inOrder order).tick connected random now).1) :
    pendingEntryTtl < now - entry.created ∨
      maxPendingBroadcasts < ((table.inOrder order).prune now).length := by
  apply Classical.byContradiction
  intro hnot
  obtain ⟨hyoung, hroom⟩ := not_or.mp hnot
  have hkept : (key, entry) ∈ ((table.inOrder order).prune now).evict := by
    rw [PendingTable.evict_of_le (Nat.not_lt.mp hroom)]
    apply List.mem_filter.mpr
    exact ⟨(PendingTable.mem_inOrder h horder).mpr hin, by simpa using hyoung⟩
  exact hgone _ (List.mem_map.mpr ⟨_, hkept, rfl⟩)

/-- The acknowledgement that the handler of a status message sends at its first delivery;
`crates/agent/src/p2p/mod.rs:1322–1349`. -/
def statusAck (localPeerId : String) : Command → Option Command
  | .jobAccepted jobId _ messageId =>
    some (.jobStatusAck jobId "accepted" localPeerId messageId)
  | .jobStarted jobId _ messageId => some (.jobStatusAck jobId "started" localPeerId messageId)
  | .jobCompleted jobId _ _ messageId =>
    some (.jobStatusAck jobId "completed" localPeerId messageId)
  | .jobFailed jobId _ _ messageId => some (.jobStatusAck jobId "failed" localPeerId messageId)
  | _ => none

/-- Sender and receivers agree on the key of a status message, on both paths. -/
theorem receive_acks {fromStr : String → Option String} {cmd : Command} {key : JobStatusKey}
    (h : jobStatusKey cmd = some key) (node : Endpoint) (n : String) (now : Nat) (wall : Clock) :
    statusAck n cmd = some (.jobStatusAck key.1 key.2.1 n key.2.2) ∧
      (node.receive fromStr n now wall cmd).2.1 = [.jobStatusAck key.1 key.2.1 n key.2.2] := by
  have hreceive : ∀ jobId status assignedNode messageId,
      jobStatusTuple cmd = some (jobId, status, assignedNode, messageId) →
        (node.receive fromStr n now wall cmd).2.1 = [.jobStatusAck jobId status n messageId] := by
    intro jobId status assignedNode messageId htuple
    simp only [Endpoint.receive, htuple]
    split
    · rfl
    · rfl
  cases cmd with
  | jobAccepted jobId assignedNode messageId =>
    cases h
    exact ⟨rfl, hreceive _ _ _ _ rfl⟩
  | jobStarted jobId assignedNode messageId =>
    cases h
    exact ⟨rfl, hreceive _ _ _ _ rfl⟩
  | jobCompleted jobId assignedNode exitCode messageId =>
    cases h
    exact ⟨rfl, hreceive _ _ _ _ rfl⟩
  | jobFailed jobId assignedNode error messageId =>
    cases h
    exact ⟨rfl, hreceive _ _ _ _ rfl⟩
  | _ => cases h

/-- An entry leaves the table only past its lifetime, when there are too many entries, or when
every peer put into its peer set has acknowledged it since. The acknowledgements of a status
message carry the key under which its sender keeps it. -/
theorem retires_acked (fromStr : String → Option String) :
    (∀ (before : List Turn) (turn : Turn) (s t : Loop) (key : JobStatusKey) (entry : PendingJob),
      ((before ++ [turn]).filterMap Turn.messageId).Nodup →
      run (Loop.step fromStr) {} before = some s → s.step fromStr turn = some t →
      (key, entry) ∈ s.table → (∀ e, (key, e) ∉ t.table) →
        Expires entry turn ∨ Overflows s.table turn ∨ AckedSince t.log key) ∧
    ∀ (cmd : Command) (key : JobStatusKey), jobStatusKey cmd = some key →
      (∀ (table : PendingTable) (connected : Finset String) (now : Nat), ∃ entry,
        (key, entry) ∈ table.track cmd connected now ∧ entry.cmd = cmd) ∧
      ∀ (node : Endpoint) (n : String) (now : Nat) (wall : Clock),
        statusAck n cmd = some (.jobStatusAck key.1 key.2.1 n key.2.2) ∧
          (node.receive fromStr n now wall cmd).2.1 = [.jobStatusAck key.1 key.2.1 n key.2.2] := by
  constructor
  · intro before turn s t key entry hfresh hrun hstep hin hgone
    rw [List.filterMap_append] at hfresh
    have h := tracked_of_run hrun (List.nodup_append.mp hfresh).1
    unfold Loop.step at hstep
    split at hstep
    · next henabled =>
      cases hstep
      cases turn with
      | broadcast cmd connected now =>
        obtain ⟨e, he⟩ := track_keeps hin cmd connected now
        exact absurd he (hgone e)
      | connectionEstablished peer =>
        exact absurd (List.mem_map.mpr ⟨_, hin, rfl⟩) (hgone _)
      | jobStatusAck jobId status sender messageId =>
        rw [Turn.table] at hgone
        cases hsender : fromStr sender with
        | none =>
          rw [hsender] at hgone
          exact absurd hin (hgone entry)
        | some peer =>
          rw [hsender] at hgone
          obtain ⟨rfl, hlast⟩ := acknowledge_drops h.keys hin hgone
          refine .inr (.inr (ackedSince_of_unacked ?_))
          simp only [Turn.notes, hsender, unacked_append, List.foldl_cons, List.foldl_nil, owes,
            if_true]
          apply Finset.subset_empty.mp
          rw [← hlast]
          exact Finset.erase_subset_erase peer (h.owed _ entry hin)
      | tick order connected random now =>
        rcases tick_drops h.keys henabled hin hgone with hold | hfull
        · exact .inl hold
        · exact .inr (.inl hfull)
    · cases hstep
  · intro cmd key hkey
    constructor
    · intro table connected now
      simp only [PendingTable.track, hkey]
      exact ⟨_, List.mem_append_right _ List.mem_cons_self, rfl⟩
    · exact receive_acks hkey

/-- A broadcast to two peers is acknowledged by one and, after a broadcast of another job, by the
other. -/
theorem retires_acked_answered :
    let key := ("job-1", "started", "m-1")
    let before := [Turn.broadcast (.jobStarted "job-1" "node-a" "m-1") {"node-b", "node-c"} 0,
      .jobStatusAck "job-1" "started" "node-b" "m-1",
      .broadcast (.jobAccepted "job-2" "node-a" "m-2") {"node-b"} 1]
    ∃ s t entry, run (Loop.step some) {} before = some s ∧
      s.step some (.jobStatusAck "job-1" "started" "node-c" "m-1") = some t ∧
      (key, entry) ∈ s.table ∧ (∀ e, (key, e) ∉ t.table) ∧ AckedSince t.log key := by
  intro key before
  obtain ⟨s, hs⟩ : ∃ s, run (Loop.step some) {} before = some s := ⟨_, rfl⟩
  obtain ⟨t, ht⟩ : ∃ t, s.step some (.jobStatusAck "job-1" "started" "node-c" "m-1") = some t :=
    ⟨_, if_pos trivial⟩
  have hin : ∃ entry, (key, entry) ∈ s.table := by
    cases hs
    exact ⟨_, List.mem_cons_self⟩
  have hgone : key ∉ t.table.map Prod.fst := by
    cases hs
    cases ht
    decide
  obtain ⟨entry, hentry⟩ := hin
  have hdropped : ∀ e, (key, e) ∉ t.table := fun e he ↦ hgone (List.mem_map_of_mem he)
  refine ⟨s, t, entry, hs, ht, hentry, hdropped, ?_⟩
  have hretired := (retires_acked some).1 before _ s t key entry (by decide) hs ht hentry hdropped
  rcases hretired with hold | hfull | hacked
  · exact hold.elim
  · exact hfull.elim
  · exact hacked

end PeerDeploy.Broadcast
