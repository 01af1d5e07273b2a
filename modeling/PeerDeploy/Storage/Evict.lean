import PeerDeploy.Storage.Collect

/-!
# What a collection removes

`gc_to_target` (`crates/agent/src/storage/mod.rs:129–153`) goes through the entries by their
last access. The result says which ones it removes, by lists that do not mention the loop:
the unpinned entries in their order, cut where the rest fits the target.
-/

namespace PeerDeploy.Storage

open PeerDeploy.Common PeerDeploy.Base

/-- Each entry is listed under a digest and has its blob. -/
def Indexed (base : String) (s : Store) : Prop :=
  ∀ digest entry, s.index[digest]? = some entry →
    IsDigest digest ∧ ∃ bytes, s.files[blobPlace base digest]? = some (.file bytes)

/-- A store whose index agrees with its blobs has them. -/
theorem Agrees.indexed {sha256Hex : Bytes → String} {base : String} {stored : List Bytes}
    {s : Store} (hsha : ∀ bytes, IsDigest (sha256Hex bytes))
    (h : Agrees sha256Hex base stored s) : Indexed base s := by
  intro digest entry hentry
  obtain ⟨bytes, -, rfl, -, hat⟩ := h.blob digest entry hentry
  exact ⟨hsha bytes, bytes, hat⟩

/-- `crates/agent/src/storage/mod.rs:123–127`. -/
def Store.totalSizeBytes (s : Store) : Nat := Store.totalSize s.list

/-- The sizes of some entries together. -/
def sizesOf (items : List (String × IndexEntry)) : Nat :=
  (items.map fun item ↦ item.2.sizeBytes).sum

/-- An entry comes before another one: it was accessed earlier, or at the same time and has the
smaller digest. -/
def Older (x y : String × IndexEntry) : Prop :=
  x.2.lastAccessedUnix < y.2.lastAccessedUnix ∨
    (x.2.lastAccessedUnix = y.2.lastAccessedUnix ∧ compare x.1 y.1 = .lt)

/-- `t` is `s` without the entries `removed` and their blobs; these and `kept` are the unpinned
entries, the least recently used ones first, cut as early as the target allows. -/
structure Collected (base : String) (target : Nat) (s t : Store)
    (removed kept : List (String × IndexEntry)) : Prop where
  unpinned : ∀ item, item ∈ removed ++ kept ↔
    s.index[item.1]? = some item.2 ∧ item.2.pinned = false
  inOrder : (removed ++ kept).Pairwise Older
  index : ∀ digest : String, t.index[digest]? =
    if digest ∈ removed.map Prod.fst then none else s.index[digest]?
  files : ∀ place : List String, t.files[place]? =
    if place ∈ removed.map (blobPlace base ·.1) then none else s.files[place]?
  pinned : ∀ (digest : String) entry, s.index[digest]? = some entry → entry.pinned = true →
    t.index[digest]? = some entry ∧
      t.files[blobPlace base digest]? = s.files[blobPlace base digest]?
  enough : t.totalSizeBytes ≤ target ∨
    ∀ (digest : String) entry, t.index[digest]? = some entry → entry.pinned = true
  minimal : ∀ front last back, removed = front ++ last :: back →
    target < s.totalSizeBytes - sizesOf front

/-! ### The loop -/

/-- Remove the blobs and the entries of a list. -/
def Store.without (base : String) (s : Store) (removed : List (String × IndexEntry)) : Store where
  files := removed.foldl (fun files item ↦ files.removeFile (blobPlace base item.1)) s.files
  index := removed.foldl (fun index item ↦ index.erase item.1) s.index

/-- The loop removes the shortest front of the unpinned entries after which the rest fits. -/
theorem collect_eq (base : String) (target : Nat) {items : List (String × IndexEntry)}
    (hdigests : ∀ item ∈ items, IsDigest item.1) (s : Store) (current : Nat) :
    ∃ removed kept, items.filter (fun item ↦ !item.2.pinned) = removed ++ kept ∧
      s.collect base target (fun _ ↦ false) current items = some (s.without base removed) ∧
      (current - sizesOf removed ≤ target ∨ kept = []) ∧
      ∀ front last back, removed = front ++ last :: back → target < current - sizesOf front := by
  induction items generalizing s current with
  | nil => exact ⟨[], [], rfl, rfl, .inr rfl, by simp⟩
  | cons item rest ih =>
    obtain ⟨digest, entry⟩ := item
    have hrest : ∀ item ∈ rest, IsDigest item.1 :=
      fun item hin ↦ hdigests item (List.mem_cons_of_mem _ hin)
    by_cases hfits : current ≤ target
    · refine ⟨[], _, rfl, ?_, .inl ?_, by simp⟩
      · simp only [Store.collect, if_pos hfits]
        rfl
      · simpa [sizesOf] using hfits
    · by_cases hpinned : entry.pinned = true
      · obtain ⟨removed, kept, hsplit, hcollect, hthen⟩ := ih hrest s current
        refine ⟨removed, kept, ?_, ?_, hthen⟩
        · simp [hpinned, hsplit]
        · simp only [Store.collect, if_neg hfits, if_pos hpinned]
          exact hcollect
      · obtain ⟨path, hpath, hplace, -⟩ :=
          pathForDigest_eq_blob base (hdigests _ List.mem_cons_self)
        obtain ⟨removed, kept, hsplit, hcollect, henough, hminimal⟩ := ih hrest
          { files := s.files.removeFile (blobPlace base digest), index := s.index.erase digest }
          (current - entry.sizeBytes)
        refine ⟨(digest, entry) :: removed, kept, ?_, ?_, ?_, ?_⟩
        · simp [hpinned, hsplit]
        · simp only [Store.collect, if_neg hfits, if_neg hpinned, hpath, hplace,
            Option.bind_eq_bind, Option.bind_some, Bool.false_eq_true, if_false]
          exact hcollect
        · simpa [sizesOf, Nat.sub_sub] using henough
        · intro front last back hfront
          cases front with
          | nil => simpa [sizesOf] using hfits
          | cons first front =>
            obtain ⟨rfl, hback⟩ := List.cons.inj hfront
            simpa [sizesOf, Nat.sub_sub] using hminimal front last back hback

/-! ### The order of the entries -/

/-- The entries are visited by their last access, those accessed at the same time by digest. -/
theorem pairwise_leastRecent (s : Store) : s.leastRecent.Pairwise Older := by
  have htrans : ∀ x y z : String × IndexEntry,
      decide (x.2.lastAccessedUnix ≤ y.2.lastAccessedUnix) →
        decide (y.2.lastAccessedUnix ≤ z.2.lastAccessedUnix) →
          decide (x.2.lastAccessedUnix ≤ z.2.lastAccessedUnix) := by
    intro x y z hxy hyz
    exact decide_eq_true (Nat.le_trans (of_decide_eq_true hxy) (of_decide_eq_true hyz))
  have htotal : ∀ x y : String × IndexEntry,
      decide (x.2.lastAccessedUnix ≤ y.2.lastAccessedUnix) ||
        decide (y.2.lastAccessedUnix ≤ x.2.lastAccessedUnix) := by
    intro x y
    simpa using Nat.le_total _ _
  have hstable := Table.pairwise_mergeSort_stable htrans htotal (Table.nodup_toList s.index)
    Std.ExtTreeMap.ordered_keys_toList
  apply hstable.imp
  rintro x y ⟨hle, htie⟩
  have hle : x.2.lastAccessedUnix ≤ y.2.lastAccessedUnix := of_decide_eq_true hle
  rcases Nat.lt_or_eq_of_le hle with hlt | heq
  · exact .inl hlt
  · exact .inr ⟨heq, htie (decide_eq_true (Nat.le_of_eq heq.symm))⟩

/-- The visited entries are those of the index. -/
theorem mem_leastRecent {s : Store} {item : String × IndexEntry} :
    item ∈ s.leastRecent ↔ s.index[item.1]? = some item.2 := by
  rw [Store.leastRecent, List.mem_mergeSort, Store.list,
    Std.ExtTreeMap.mem_toList_iff_getElem?_eq_some]

/-! ### What is left -/

private theorem files_without {base : String} {s : Store}
    {removed : List (String × IndexEntry)}
    (hblobs : ∀ item ∈ removed, s.files[blobPlace base item.1]? ≠ some .dir)
    (place : List String) : (s.without base removed).files[place]? =
      if place ∈ removed.map (blobPlace base ·.1) then none else s.files[place]? := by
  unfold Store.without
  simp only
  generalize s.files = files at hblobs ⊢
  induction removed generalizing files with
  | nil => simp
  | cons item rest ih =>
    have hremove := Files.removeFile_getElem? (hblobs item List.mem_cons_self)
    rw [List.foldl_cons, ih, hremove, List.map_cons]
    · by_cases hplace : blobPlace base item.1 = place
      · simp [hplace]
      · simp only [if_neg hplace, List.mem_cons, Ne.symm hplace, false_or]
    · intro other hother
      rw [hremove]
      split
      · simp
      · exact hblobs other (List.mem_cons_of_mem _ hother)

private theorem totalSizeBytes_without (base : String) {s : Store}
    {removed : List (String × IndexEntry)} (hnodup : removed.Nodup)
    (hin : ∀ item ∈ removed, s.index[item.1]? = some item.2)
    (hsum : sizesOf s.list < 2 ^ 64) :
    (s.without base removed).totalSizeBytes = s.totalSizeBytes - sizesOf removed := by
  have hperm := Table.toList_foldl_erase_perm hnodup hin
  have hsplit := (hperm.map fun item ↦ item.2.sizeBytes).sum_nat
  rw [List.map_append, List.sum_append] at hsplit
  unfold Store.totalSizeBytes Store.totalSize
  unfold sizesOf Store.list at *
  change (List.map _ (s.without base removed).index.toList).sum + _ = _ at hsplit
  rw [Nat.mod_eq_of_lt (by omega), Nat.mod_eq_of_lt hsum]
  omega

/-- Where the removals and the save of the index succeed, a collection removes the shortest front
of the unpinned entries, the least recently used ones first, after which the rest fits. -/
theorem gcToTarget_exact {base : String} {s : Store} (hindexed : Indexed base s)
    (hsum : sizesOf s.list < 2 ^ 64) (target now : Nat) :
    ∃ t removed kept,
      s.gcToTarget base target (fun _ ↦ false) { now } = some (t, .ok ()) ∧
        Collected base target s t removed kept := by
  have hdigests : ∀ item ∈ s.leastRecent, IsDigest item.1 := fun item hin ↦
    (hindexed item.1 item.2 (mem_leastRecent.mp hin)).1
  obtain ⟨removed, kept, hsplit, hcollect, henough, hminimal⟩ :=
    collect_eq base target hdigests s (Store.totalSize s.leastRecent)
  have hperm : s.leastRecent.Perm s.list := List.mergeSort_perm _ _
  have hitem (item : String × IndexEntry) : item ∈ removed ++ kept ↔
      s.index[item.1]? = some item.2 ∧ item.2.pinned = false := by
    rw [← hsplit, List.mem_filter, mem_leastRecent, Bool.not_eq_true']
  have hremoved : ∀ item ∈ removed, s.index[item.1]? = some item.2 ∧ item.2.pinned = false :=
    fun item hin ↦ (hitem item).mp (List.mem_append_left _ hin)
  have hnodup : removed.Nodup := by
    have hall : s.leastRecent.Nodup := hperm.nodup_iff.mpr (Table.nodup_toList s.index)
    exact (List.nodup_append.mp (hsplit ▸ hall.filter _)).1
  have htotal : Store.totalSize s.leastRecent = s.totalSizeBytes := by
    unfold Store.totalSizeBytes Store.totalSize
    rw [(hperm.map fun item ↦ item.2.sizeBytes).sum_nat]
  have hindex (digest : String) : (s.without base removed).index[digest]? =
      if digest ∈ removed.map Prod.fst then none else s.index[digest]? :=
    Table.getElem?_foldl_erase removed s.index digest
  have hblobs : ∀ item ∈ removed, s.files[blobPlace base item.1]? ≠ some .dir := by
    intro item hin hdir
    obtain ⟨-, bytes, hat⟩ := hindexed item.1 item.2 (hremoved item hin).1
    rw [hdir] at hat
    cases hat
  have hfiles := files_without hblobs
  have hsizes := totalSizeBytes_without base hnodup (fun item hin ↦ (hremoved item hin).1) hsum
  have hstays (digest : String) (entry : IndexEntry) (hentry : s.index[digest]? = some entry)
      (hpinned : entry.pinned = true) : digest ∉ removed.map Prod.fst := by
    intro hin
    obtain ⟨item, hitem, rfl⟩ := List.mem_map.mp hin
    obtain ⟨hsame, hunpinned⟩ := hremoved item hitem
    rw [hentry] at hsame
    cases hsame
    rw [hpinned] at hunpinned
    cases hunpinned
  refine ⟨s.without base removed, removed, kept, ?_, ?_⟩
  · simp only [Store.gcToTarget, hcollect, Option.bind_eq_bind, Option.bind_some]
    rfl
  constructor
  case unpinned => exact hitem
  case inOrder => exact hsplit ▸ (pairwise_leastRecent s).filter _
  case index => exact hindex
  case files => exact hfiles
  case pinned =>
    intro digest entry hentry hpinned
    have hout := hstays digest entry hentry hpinned
    rw [hindex, if_neg hout, hfiles, if_neg]
    · exact ⟨hentry, rfl⟩
    · intro hin
      obtain ⟨item, hitem, hplace⟩ := List.mem_map.mp hin
      exact hout (List.mem_map.mpr ⟨item, hitem, blobPlace_inj hplace⟩)
  case enough =>
    rcases henough with hfits | rfl
    · rw [hsizes, ← htotal]
      exact .inl hfits
    · right
      intro digest entry hentry
      rw [hindex] at hentry
      split at hentry
      · cases hentry
      · next hout =>
        rw [← Bool.not_eq_false]
        intro hunpinned
        have hin : (digest, entry) ∈ removed := by
          simpa using (hitem (digest, entry)).mpr ⟨hentry, hunpinned⟩
        exact hout (List.mem_map.mpr ⟨_, hin, rfl⟩)
  case minimal =>
    rw [← htotal]
    exact hminimal

-- A text of 64 equal digits.
private def digitsOf (c : Char) : String := String.ofList (List.replicate 64 c)

-- A store of 12 bytes: the oldest blob is pinned, the other two have the same age.
private def agedStore : Store where
  files := ((∅ : Files).insert (blobPlace "/blobs" (digitsOf 'a')) (.file [1, 2, 3, 4, 5])).insert
    (blobPlace "/blobs" (digitsOf 'b')) (.file [1, 2, 3]) |>.insert
    (blobPlace "/blobs" (digitsOf 'c')) (.file [1, 2, 3, 4])
  index := ((∅ : Std.ExtTreeMap String IndexEntry).insert (digitsOf 'a') ⟨5, 1, true⟩).insert
    (digitsOf 'b') ⟨3, 2, false⟩ |>.insert (digitsOf 'c') ⟨4, 2, false⟩

private theorem indexed_agedStore : Indexed "/blobs" agedStore := by
  intro digest entry hentry
  simp only [agedStore, Table.getElem?_insert] at hentry
  split at hentry
  · next heq =>
    subst heq
    exact ⟨by decide, [1, 2, 3, 4], by decide⟩
  · split at hentry
    · next heq =>
      subst heq
      exact ⟨by decide, [1, 2, 3], by decide⟩
    · split at hentry
      · next heq =>
        subst heq
        exact ⟨by decide, [1, 2, 3, 4, 5], by decide⟩
      · simp at hentry

/-- Collecting that store to 10 bytes. -/
theorem gcToTarget_exact_aged :
    ∃ t removed kept, agedStore.gcToTarget "/blobs" 10 (fun _ ↦ false) {} = some (t, .ok ()) ∧
      Collected "/blobs" 10 agedStore t removed kept :=
  gcToTarget_exact indexed_agedStore (by decide) 10 0

end PeerDeploy.Storage
