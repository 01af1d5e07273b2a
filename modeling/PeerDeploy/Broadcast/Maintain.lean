import PeerDeploy.Broadcast.Pending
import Mathlib.Data.List.Perm.Basic

/-!
# Upkeep of the pending table

The interval tick drops the entries past their lifetime and then, while there are too many,
searches the table for the oldest one (`crates/agent/src/p2p/mod.rs:599–631`). The hash map may
yield its entries in any order, also another one at every search.
-/

namespace PeerDeploy.Broadcast

open PeerDeploy.Common

namespace PendingTable

/-- Evict the oldest entry, `excess` times; `reorder` is the order in which the hash map yields
its entries at a search. `crates/agent/src/p2p/mod.rs:624–630`. -/
def evictOldestIn (reorder : PendingTable → PendingTable) (table : PendingTable) :
    Nat → PendingTable
  | 0 => table
  | excess + 1 =>
    match oldest (reorder table) with
    | some (key, _) => evictOldestIn reorder (remove table key) excess
    | none => evictOldestIn reorder table excess

/-- `crates/agent/src/p2p/mod.rs:599–609,621–631`. -/
def maintain (reorder : PendingTable → PendingTable) (table : PendingTable) (now : Nat) :
    PendingTable :=
  let pruned := prune table now
  if maxPendingBroadcasts < pruned.length then
    evictOldestIn reorder pruned (pruned.length - maxPendingBroadcasts)
  else pruned

/-- The tick works on the maintained table, for the order in which it stands. -/
theorem tick_eq_retry_maintain (table : PendingTable) (connected : Finset String)
    (random : JobStatusKey → Nat) (now : Nat) :
    tick table connected random now = retry (maintain id table now) connected random now := by
  have hevict (t : PendingTable) (excess : Nat) :
      evictOldest t excess = evictOldestIn id t excess := by
    induction excess generalizing t with
    | zero => rfl
    | succ excess ih =>
      unfold evictOldest evictOldestIn
      rw [id]
      cases oldest t with
      | none => exact ih t
      | some item => exact ih _
  rw [tick, maintain, evict]
  simp only [hevict]

/-- The entry has not outlived its time. -/
def Live (now : Nat) (item : JobStatusKey × PendingJob) : Prop :=
  now - item.2.created ≤ pendingEntryTtl

/-- Whether an entry is live is decidable. -/
instance (now : Nat) : DecidablePred (Live now) := fun item ↦
  inferInstanceAs (Decidable (now - item.2.created ≤ pendingEntryTtl))

/-- What the upkeep leaves: live entries of the table, no more than fit, and the newest of them. -/
structure Maintained (now : Nat) (before after : PendingTable) : Prop where
  distinct : (after.map Prod.fst).Nodup
  kept : after ⊆ before
  live : ∀ item ∈ after, Live now item
  bounded : after.length ≤ maxPendingBroadcasts
  newest : ∀ evicted ∈ before, Live now evicted → evicted ∉ after →
    ∀ item ∈ after, evicted.2.created ≤ item.2.created
  removed : ∀ gone ∈ before, gone ∉ after →
    ¬ Live now gone ∨ maxPendingBroadcasts < before.countP (Live now)
  excess : after.length + (before.countP (Live now) - maxPendingBroadcasts) =
    before.countP (Live now)

/-- The search finds an entry, and none that was created before it. -/
theorem oldest_of_ne_nil {table : PendingTable} (h : table ≠ []) :
    ∃ first ∈ table, oldest table = some first ∧
      ∀ item ∈ table, first.2.created ≤ item.2.created := by
  induction table with
  | nil => exact absurd rfl h
  | cons item rest ih =>
    by_cases hrest : rest = []
    · subst hrest
      refine ⟨item, List.mem_cons_self, rfl, fun other hother ↦ ?_⟩
      rw [List.mem_singleton.mp hother]
    · obtain ⟨first, hfirst, holdest, hmin⟩ := ih hrest
      by_cases hlater : first.2.created < item.2.created
      · refine ⟨first, List.mem_cons_of_mem item hfirst, ?_, fun other hother ↦ ?_⟩
        · unfold oldest
          rw [holdest]
          exact if_pos hlater
        · rcases List.mem_cons.mp hother with rfl | hother
          · exact Nat.le_of_lt hlater
          · exact hmin other hother
      · refine ⟨item, List.mem_cons_self, ?_, fun other hother ↦ ?_⟩
        · unfold oldest
          rw [holdest]
          exact if_neg hlater
        · rcases List.mem_cons.mp hother with rfl | hother
          · exact Nat.le_refl _
          · exact (Nat.le_of_not_lt hlater).trans (hmin other hother)

private theorem perm_remove {table : PendingTable} (h : (table.map Prod.fst).Nodup)
    {item : JobStatusKey × PendingJob} (hitem : item ∈ table) :
    table.Perm (item :: remove table item.1) := by
  obtain ⟨before, after, rfl⟩ := List.append_of_mem hitem
  have hmiddle : (before ++ item :: after).Perm (item :: (before ++ after)) := List.perm_middle
  have hkeys := (hmiddle.map Prod.fst).nodup_iff.mp h
  rw [List.map_cons, List.nodup_cons] at hkeys
  have hothers : ∀ other ∈ before ++ after, decide (other.1 ≠ item.1) = true := fun other hother ↦
    decide_eq_true fun heq ↦ hkeys.1 (heq ▸ List.mem_map_of_mem hother)
  refine hmiddle.trans (List.Perm.cons item ?_)
  rw [remove, (hmiddle.filter _).congr_right, List.filter_cons_of_neg (by simp),
    List.filter_eq_self.mpr hothers]

-- Searches and removals split the table: what is evicted is as old as anything that stays.
private theorem evictOldestIn_spec {reorder : PendingTable → PendingTable}
    (hreorder : ∀ t, (reorder t).Perm t) (excess : Nat) {table : PendingTable}
    (h : (table.map Prod.fst).Nodup) (hle : excess ≤ table.length) :
    ∃ evicted, (evicted ++ evictOldestIn reorder table excess).Perm table ∧
      evicted.length = excess ∧
      ∀ item ∈ evicted, ∀ other ∈ evictOldestIn reorder table excess,
        item.2.created ≤ other.2.created := by
  induction excess generalizing table with
  | zero => exact ⟨[], List.Perm.refl _, rfl, by simp⟩
  | succ excess ih =>
    have hne : reorder table ≠ [] := by
      intro hnil
      have hlen := (hreorder table).length_eq
      rw [hnil, List.length_nil] at hlen
      omega
    obtain ⟨first, hfirst, holdest, hmin⟩ := oldest_of_ne_nil hne
    have hperm := perm_remove h ((hreorder table).mem_iff.mp hfirst)
    have hrest : ((remove table first.1).map Prod.fst).Nodup :=
      ((List.filter_sublist).map Prod.fst).nodup h
    have hlen := hperm.length_eq
    rw [List.length_cons] at hlen
    obtain ⟨evicted, hsplit, hcount, hold⟩ := ih hrest (by omega)
    have hstep : evictOldestIn reorder table (excess + 1) =
        evictOldestIn reorder (remove table first.1) excess := by
      rw [evictOldestIn, holdest]
    rw [hstep]
    refine ⟨first :: evicted, ((hsplit.cons first).trans hperm.symm), by simp [hcount], ?_⟩
    intro item hitem other hother
    rcases List.mem_cons.mp hitem with rfl | hitem
    · apply hmin other
      rw [(hreorder table).mem_iff, hperm.mem_iff]
      exact List.mem_cons_of_mem _ (hsplit.mem_iff.mp (List.mem_append_right _ hother))
    · exact hold item hitem other hother

private theorem mem_prune {table : PendingTable} {now : Nat} {item : JobStatusKey × PendingJob} :
    item ∈ prune table now ↔ item ∈ table ∧ Live now item := by
  rw [prune, List.mem_filter, decide_eq_true_iff, Nat.not_lt, Live]

/-- The upkeep leaves the newest live entries, as many as fit, in whatever order the hash map
yields them. -/
theorem maintained_maintain {reorder : PendingTable → PendingTable}
    (hreorder : ∀ t, (reorder t).Perm t) {table : PendingTable}
    (hkeys : (table.map Prod.fst).Nodup) (now : Nat) :
    Maintained now table (maintain reorder table now) := by
  have hpruned : ((prune table now).map Prod.fst).Nodup :=
    ((List.filter_sublist).map Prod.fst).nodup hkeys
  have hlive : (prune table now).length = table.countP (Live now) := by
    rw [List.countP_eq_length_filter, prune]
    refine congrArg List.length (List.filter_congr fun item _ ↦ ?_)
    rw [decide_eq_decide, Nat.not_lt, Live]
  -- without an excess nothing is evicted
  have hsplit : ∃ evicted, (evicted ++ maintain reorder table now).Perm (prune table now) ∧
      evicted.length = (prune table now).length - maxPendingBroadcasts ∧
      ∀ item ∈ evicted, ∀ other ∈ maintain reorder table now,
        item.2.created ≤ other.2.created := by
    by_cases hfull : maxPendingBroadcasts < (prune table now).length
    · have heq : maintain reorder table now = evictOldestIn reorder (prune table now)
          ((prune table now).length - maxPendingBroadcasts) := if_pos hfull
      rw [heq]
      exact evictOldestIn_spec hreorder _ hpruned (Nat.sub_le _ _)
    · have heq : maintain reorder table now = prune table now := if_neg hfull
      rw [heq]
      refine ⟨[], List.Perm.refl _, ?_, by simp⟩
      exact (Nat.sub_eq_zero_of_le (Nat.le_of_not_lt hfull)).symm
  obtain ⟨evicted, hperm, hcount, hold⟩ := hsplit
  have hlen := hperm.length_eq
  rw [List.length_append] at hlen
  have hstays : ∀ item ∈ maintain reorder table now, item ∈ table ∧ Live now item :=
    fun item hitem ↦ mem_prune.mp (hperm.mem_iff.mp (List.mem_append_right _ hitem))
  have hevicted : ∀ item ∈ table, Live now item → item ∉ maintain reorder table now →
      item ∈ evicted := fun item hitem hyoung hgone ↦
    (List.mem_append.mp (hperm.mem_iff.mpr (mem_prune.mpr ⟨hitem, hyoung⟩))).resolve_right hgone
  exact {
    distinct := by
      rw [← (hperm.map Prod.fst).nodup_iff, List.map_append] at hpruned
      exact hpruned.of_append_right
    kept := fun item hitem ↦ (hstays item hitem).1
    live := fun item hitem ↦ (hstays item hitem).2
    bounded := by omega
    newest := fun item hitem hyoung hgone ↦ hold item (hevicted item hitem hyoung hgone)
    removed := by
      intro item hitem hgone
      by_cases hyoung : Live now item
      · right
        have hpos := List.length_pos_of_mem (hevicted item hitem hyoung hgone)
        omega
      · exact .inl hyoung
    excess := by omega }

-- Two started jobs, the first of them past its lifetime.
private def twoStarted : PendingTable :=
  [(("job-1", "started", "m1"), ⟨.jobStarted "job-1" "node-b" "m1", ∅, 1, 1, 0⟩),
    (("job-2", "started", "m2"), ⟨.jobStarted "job-2" "node-b" "m2", ∅, 2, 2, 0⟩)]

/-- A table that is searched from the end. -/
theorem maintained_maintain_two : Maintained (pendingEntryTtl + 2) twoStarted
    (maintain List.reverse twoStarted (pendingEntryTtl + 2)) :=
  maintained_maintain List.reverse_perm (by decide) (pendingEntryTtl + 2)

end PendingTable

end PeerDeploy.Broadcast
