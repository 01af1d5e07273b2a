import Mathlib.Algebra.Ring.Nat
import Std.Data.ExtTreeMap

/-!
# Tables with decidable keys

General support: lookups in a changed `Std.ExtTreeMap`, by equality of the keys.
-/

namespace PeerDeploy.Base.Table

universe u v w

variable {α : Type u} {β : Type v} [Ord α] [Std.TransOrd α]

/-- The sum of the values. -/
def total (table : Std.ExtTreeMap α Nat) : Nat := (table.toList.map Prod.snd).sum

variable [Std.LawfulEqOrd α]

/-- The keys of a table after an insertion. -/
theorem contains_insert_iff (table : Std.ExtTreeMap α β) (key other : α) (value : β) :
    (table.insert key value).contains other = true ↔ key = other ∨ table.contains other = true := by
  simp only [Std.ExtTreeMap.contains_insert, Bool.or_eq_true, beq_iff_eq, Std.compare_eq_iff_eq]

variable [DecidableEq α]

/-- What a table holds after an insertion. -/
theorem getElem?_insert (table : Std.ExtTreeMap α β) (key other : α) (value : β) :
    (table.insert key value)[other]? = if key = other then some value else table[other]? := by
  rw [Std.ExtTreeMap.getElem?_insert]
  simp only [Std.compare_eq_iff_eq]

/-- What a table holds after a removal. -/
theorem getElem?_erase (table : Std.ExtTreeMap α β) (key other : α) :
    (table.erase key)[other]? = if key = other then none else table[other]? := by
  rw [Std.ExtTreeMap.getElem?_erase]
  simp only [Std.compare_eq_iff_eq]

omit [Std.LawfulEqOrd α] [DecidableEq α] in
/-- The entries of a table are distinct. -/
theorem nodup_toList (table : Std.ExtTreeMap α β) : table.toList.Nodup := by
  apply Std.ExtTreeMap.distinct_keys_toList.imp
  rintro x y hxy rfl
  exact hxy Std.ReflCmp.compare_self

/-- The entries of a table after an insertion. -/
theorem toList_insert_perm (table : Std.ExtTreeMap α β) (key : α) (value : β) :
    (table.insert key value).toList.Perm
      ((key, value) :: table.toList.filter fun entry ↦ decide (key ≠ entry.1)) := by
  rw [List.perm_ext_iff_of_nodup (nodup_toList _)]
  · rintro ⟨k, v⟩
    rw [Std.ExtTreeMap.mem_toList_iff_getElem?_eq_some, getElem?_insert, List.mem_cons,
      List.mem_filter, Std.ExtTreeMap.mem_toList_iff_getElem?_eq_some]
    by_cases hkey : key = k
    · subst hkey
      simp [eq_comm]
    · have hne : ¬ (k, v) = (key, value) := fun he ↦ hkey (Prod.mk.inj he).1.symm
      simp [hkey, hne]
  · rw [List.nodup_cons]
    exact ⟨by simp, (nodup_toList table).filter _⟩

omit [DecidableEq α] in
/-- The keys of a table are distinct. -/
theorem nodup_keys (table : Std.ExtTreeMap α β) : (table.toList.map Prod.fst).Nodup := by
  rw [List.Nodup, List.pairwise_map]
  apply Std.ExtTreeMap.distinct_keys_toList.imp
  intro x y hxy he
  exact hxy (Std.compare_eq_iff_eq.mpr he)

/-- What a table holds after removals. -/
theorem getElem?_foldl_erase (entries : List (α × β)) (table : Std.ExtTreeMap α β) (key : α) :
    (entries.foldl (fun table entry ↦ table.erase entry.1) table)[key]? =
      if key ∈ entries.map Prod.fst then none else table[key]? := by
  induction entries generalizing table with
  | nil => simp
  | cons entry entries ih =>
    rw [List.foldl_cons, ih, getElem?_erase, List.map_cons]
    by_cases hkey : entry.1 = key
    · simp [hkey]
    · simp only [if_neg hkey, List.mem_cons, Ne.symm hkey, false_or]

/-- Removed entries and those that stay are all entries. -/
theorem toList_foldl_erase_perm {table : Std.ExtTreeMap α β} {removed : List (α × β)}
    (hnodup : removed.Nodup) (hin : ∀ entry ∈ removed, table[entry.1]? = some entry.2) :
    ((removed.foldl (fun table entry ↦ table.erase entry.1) table).toList ++ removed).Perm
      table.toList := by
  rw [List.perm_ext_iff_of_nodup _ (nodup_toList table)]
  · rintro ⟨key, value⟩
    rw [List.mem_append, Std.ExtTreeMap.mem_toList_iff_getElem?_eq_some,
      Std.ExtTreeMap.mem_toList_iff_getElem?_eq_some, getElem?_foldl_erase]
    by_cases hkey : key ∈ removed.map Prod.fst
    · obtain ⟨⟨k, v⟩, hkv, rfl⟩ := List.mem_map.mp hkey
      have hvalue := hin _ hkv
      rw [if_pos hkey]
      simp only [reduceCtorEq, false_or]
      constructor
      · exact hin _
      · intro h
        rw [hvalue] at h
        cases h
        exact hkv
    · rw [if_neg hkey]
      have hout : (key, value) ∉ removed := fun h ↦ hkey (List.mem_map.mpr ⟨_, h, rfl⟩)
      simp [hout]
  · rw [List.nodup_append]
    refine ⟨nodup_toList _, hnodup, ?_⟩
    rintro ⟨key, value⟩ hleft other hright rfl
    rw [Std.ExtTreeMap.mem_toList_iff_getElem?_eq_some, getElem?_foldl_erase,
      if_pos (List.mem_map.mpr ⟨_, hright, rfl⟩)] at hleft
    cases hleft

omit [Ord α] [Std.TransOrd α] [Std.LawfulEqOrd α] [DecidableEq α] in
private theorem not_pair_sublist {l : List α} (h : l.Nodup) {a b : α} (hab : [a, b].Sublist l) :
    ¬ [b, a].Sublist l := by
  intro hba
  obtain ⟨r₁, r₂, hr, ha, hb⟩ := List.cons_sublist_iff.mp hab
  obtain ⟨q₁, q₂, hq, hb', ha'⟩ := List.cons_sublist_iff.mp hba
  rw [List.singleton_sublist] at hb ha'
  have hdisjoint₁ := (List.nodup_append.mp (hr ▸ h)).2.2
  have hdisjoint₂ := (List.nodup_append.mp (hq ▸ h)).2.2
  rcases List.append_eq_append_iff.mp (hr.symm.trans hq) with ⟨c, rfl, -⟩ | ⟨c, rfl, -⟩
  · exact hdisjoint₂ a (List.mem_append_left _ ha) a ha' rfl
  · exact hdisjoint₁ b (List.mem_append_left _ hb') b hb rfl

omit [Ord α] [Std.TransOrd α] [Std.LawfulEqOrd α] [DecidableEq α] in
/-- A stable sort leaves what its order does not decide in the order of the list. -/
theorem pairwise_mergeSort_stable {le : α → α → Bool}
    (htrans : ∀ a b c, le a b → le b c → le a c) (htotal : ∀ a b, le a b || le b a)
    {r : α → α → Prop} {l : List α} (hl : l.Nodup) (hr : l.Pairwise r) :
    (l.mergeSort le).Pairwise fun a b ↦ le a b ∧ (le b a → r a b) := by
  have hsorted := List.pairwise_mergeSort htrans htotal l
  rw [List.pairwise_iff_forall_sublist] at hsorted hr ⊢
  intro a b hab
  refine ⟨hsorted hab, fun hba ↦ ?_⟩
  have hnodup : (l.mergeSort le).Nodup := (List.mergeSort_perm l le).nodup_iff.mpr hl
  obtain ⟨front, back, rfl⟩ := List.append_of_mem
    (List.mem_mergeSort.mp (hab.subset List.mem_cons_self))
  have hb : b ∈ front ++ a :: back :=
    List.mem_mergeSort.mp (hab.subset (List.mem_cons_of_mem _ List.mem_cons_self))
  rcases List.mem_append.mp hb with hfront | hrest
  · -- the sort would have kept them in this order
    have hpair : [b, a].Sublist (front ++ a :: back) :=
      (List.singleton_sublist.mpr hfront).append (List.singleton_sublist.mpr List.mem_cons_self)
    exact absurd (List.pair_sublist_mergeSort htrans htotal hba hpair)
      (not_pair_sublist hnodup hab)
  · rcases List.mem_cons.mp hrest with rfl | hback
    · exact absurd hab (not_pair_sublist hnodup hab)
    · apply hr
      exact (List.Sublist.cons_cons a (List.singleton_sublist.mpr hback)).trans
        (List.sublist_append_right _ _)

/-- Insert what `g` makes of an entry. -/
def put {γ : Type w} (g : α → β → Option γ) (table : Std.ExtTreeMap α γ) (entry : α × β) :
    Std.ExtTreeMap α γ :=
  match g entry.1 entry.2 with
  | some value => table.insert entry.1 value
  | none => table

section Collect

variable {γ : Type w} {g : α → β → Option γ} {entries : List (α × β)}

private theorem getElem?_foldl_put_of_notMem {key : α} (h : key ∉ entries.map Prod.fst)
    (table : Std.ExtTreeMap α γ) : (entries.foldl (put g) table)[key]? = table[key]? := by
  induction entries generalizing table with
  | nil => rfl
  | cons entry entries ih =>
    rw [List.map_cons, List.mem_cons, not_or] at h
    rw [List.foldl_cons, ih h.2]
    unfold put
    split
    · rw [getElem?_insert, if_neg (Ne.symm h.1)]
    · rfl

private theorem getElem?_foldl_put_of_mem (hkeys : (entries.map Prod.fst).Nodup) {key : α}
    {value : β} (hmem : (key, value) ∈ entries) {table : Std.ExtTreeMap α γ}
    (hfresh : table[key]? = none) : (entries.foldl (put g) table)[key]? = g key value := by
  induction entries generalizing table with
  | nil => cases hmem
  | cons entry entries ih =>
    rw [List.map_cons, List.nodup_cons] at hkeys
    rw [List.foldl_cons]
    rcases List.mem_cons.mp hmem with rfl | hrest
    · rw [getElem?_foldl_put_of_notMem hkeys.1, put]
      cases g key value with
      | none => exact hfresh
      | some v => rw [getElem?_insert, if_pos rfl]
    · have hne : entry.1 ≠ key := by
        rintro rfl
        exact hkeys.1 (List.mem_map.mpr ⟨_, hrest, rfl⟩)
      apply ih hkeys.2 hrest
      unfold put
      split
      · rw [getElem?_insert, if_neg hne, hfresh]
      · exact hfresh

/-- Collecting the entries of a table that pass a test gives, key by key, what `g` makes of
them. -/
theorem getElem?_collect (table : Std.ExtTreeMap α β) (test : α × β → Bool) (key : α) :
    ((table.toList.filter test).foldl (put g) ∅)[key]? =
      table[key]?.bind fun value ↦ if test (key, value) then g key value else none := by
  have hkeys : ((table.toList.filter test).map Prod.fst).Nodup :=
    (nodup_keys table).sublist (List.filter_sublist.map _)
  have hentry (value : β) : (key, value) ∈ table.toList.filter test ↔
      table[key]? = some value ∧ test (key, value) = true := by
    rw [List.mem_filter, Std.ExtTreeMap.mem_toList_iff_getElem?_eq_some]
  by_cases hin : ∃ value, (key, value) ∈ table.toList.filter test
  · obtain ⟨value, hvalue⟩ := hin
    obtain ⟨hkey, htest⟩ := (hentry value).mp hvalue
    rw [getElem?_foldl_put_of_mem hkeys hvalue (by simp), hkey, Option.bind_some, if_pos htest]
  · have hout : key ∉ (table.toList.filter test).map Prod.fst := by
      intro hmem
      obtain ⟨⟨k, value⟩, hvalue, rfl⟩ := List.mem_map.mp hmem
      exact hin ⟨value, hvalue⟩
    rw [getElem?_foldl_put_of_notMem hout]
    cases hkey : table[key]? with
    | none => simp
    | some value =>
      have htest : ¬ test (key, value) = true := fun ht ↦ hin ⟨value, (hentry value).mpr ⟨hkey, ht⟩⟩
      simp [htest]

/-- Collecting the entries of a table in any order gives the table. -/
theorem foldl_put_of_perm {table : Std.ExtTreeMap α β} (h : entries.Perm table.toList) :
    entries.foldl (put fun _ value ↦ some value) ∅ = table := by
  apply Std.ExtTreeMap.ext_getElem?
  intro key
  have hkeys : (entries.map Prod.fst).Nodup := (h.map Prod.fst).nodup_iff.mpr (nodup_keys table)
  cases hkey : table[key]? with
  | some value =>
    have hmem : (key, value) ∈ entries :=
      h.mem_iff.mpr (Std.ExtTreeMap.mem_toList_iff_getElem?_eq_some.mpr hkey)
    rw [getElem?_foldl_put_of_mem hkeys hmem (by simp)]
  | none =>
    have hout : key ∉ entries.map Prod.fst := by
      intro hmem
      obtain ⟨⟨k, value⟩, hvalue, rfl⟩ := List.mem_map.mp hmem
      rw [Std.ExtTreeMap.mem_toList_iff_getElem?_eq_some.mp (h.mem_iff.mp hvalue)] at hkey
      cases hkey
    rw [getElem?_foldl_put_of_notMem hout]
    simp

end Collect

private theorem total_insert_eq (table : Std.ExtTreeMap α Nat) (key : α) (value : Nat) :
    total (table.insert key value) =
      value + ((table.toList.filter fun entry ↦ decide (key ≠ entry.1)).map Prod.snd).sum := by
  rw [total, ((toList_insert_perm table key value).map Prod.snd).sum_nat, List.map_cons,
    List.sum_cons]

/-- An insertion changes the sum by the change of one value. -/
theorem total_insert (table : Std.ExtTreeMap α Nat) (key : α) (value : Nat) :
    total (table.insert key value) + table[key]?.getD 0 = total table + value := by
  rw [total_insert_eq]
  cases hkey : table[key]? with
  | none =>
    have hall : (table.toList.filter fun entry ↦ decide (key ≠ entry.1)) = table.toList := by
      rw [List.filter_eq_self]
      rintro ⟨k, v⟩ hin
      rw [Std.ExtTreeMap.mem_toList_iff_getElem?_eq_some] at hin
      have hne : key ≠ k := by
        rintro rfl
        rw [hkey] at hin
        cases hin
      simpa using hne
    rw [hall, total, Option.getD_none]
    omega
  | some old =>
    have hsame : table.insert key old = table := by
      apply Std.ExtTreeMap.ext_getElem?
      intro k
      rw [getElem?_insert]
      split
      · next heq => rw [← heq, hkey]
      · rfl
    have hold := total_insert_eq table key old
    rw [hsame] at hold
    rw [hold, Option.getD_some]
    omega

end PeerDeploy.Base.Table
