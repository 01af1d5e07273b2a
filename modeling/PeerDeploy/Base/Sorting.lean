import Mathlib.Data.List.DropRight
import Mathlib.Data.List.Sort

/-!
# Sorted lists, cut off

General support: what the front of a sorted list is, and what the end of it needs of lists that
are sorted themselves. The sort is stable.
-/

namespace PeerDeploy.Base.Sorting

universe u

section Front

variable {α : Type u} (r : α → α → Prop) [DecidableRel r] [Std.Total r] [IsTrans α r]

/-- The front of a sorted list is sorted, and nothing that is left out comes before it. -/
theorem exists_rest_of_take (items : List α) (k : Nat) :
    ∃ rest, ((items.insertionSort r).take k ++ rest).Perm items ∧
      ((items.insertionSort r).take k).Pairwise r ∧
      ∀ a ∈ (items.insertionSort r).take k, ∀ b ∈ rest, r a b := by
  have hsorted := List.pairwise_insertionSort r items
  rw [← List.take_append_drop k (items.insertionSort r), List.pairwise_append] at hsorted
  refine ⟨(items.insertionSort r).drop k, ?_, hsorted.1, hsorted.2.2⟩
  rw [List.take_append_drop]
  exact List.perm_insertionSort r items

end Front

section Back

variable {α : Type u} {r : α → α → Prop} [DecidableRel r]

private theorem orderedInsert_middle [IsTrans α r] {a x : α} {front back : List α}
    (hsorted : (front ++ x :: back).Pairwise r) :
    ∃ front' back', (front ++ x :: back).orderedInsert r a = front' ++ x :: back' ∧
      (front ++ back).orderedInsert r a = front' ++ back' ∧ back.length ≤ back'.length := by
  induction front with
  | nil =>
    by_cases hax : r a x
    · refine ⟨[a], back, List.orderedInsert_cons_of_le r back hax, ?_, Nat.le_refl _⟩
      cases back with
      | nil => rfl
      | cons y back =>
        have hxy : r x y := (List.pairwise_cons.mp hsorted).1 y List.mem_cons_self
        exact List.orderedInsert_cons_of_le r back (IsTrans.trans a x y hax hxy)
    · refine ⟨[], back.orderedInsert r a, List.orderedInsert_of_not_le r back hax, rfl, ?_⟩
      rw [List.orderedInsert_length]
      exact Nat.le_succ _
  | cons y front ih =>
    by_cases hay : r a y
    · exact ⟨a :: y :: front, back, List.orderedInsert_cons_of_le r _ hay,
        List.orderedInsert_cons_of_le r _ hay, Nat.le_refl _⟩
    · obtain ⟨front', back', hwith, hwithout, hlen⟩ := ih (List.pairwise_cons.mp hsorted).2
      refine ⟨y :: front', back', ?_, ?_, hlen⟩
      · rw [List.cons_append, List.orderedInsert_of_not_le r _ hay, hwith, List.cons_append]
      · rw [List.cons_append, List.orderedInsert_of_not_le r _ hay, hwithout, List.cons_append]

private theorem rtake_append_of_le {n : Nat} (front : List α) {back : List α}
    (h : n ≤ back.length) : (front ++ back).rtake n = back.rtake n := by
  rw [List.rtake, List.rtake, List.length_append,
    show front.length + back.length - n = front.length + (back.length - n) by omega,
    List.drop_length_add_append]

private theorem orderedInsert_front {x : α} {back : List α} (hsorted : back.Pairwise r) :
    ∃ front back', back.orderedInsert r x = front ++ x :: back' ∧ back = front ++ back' ∧
      back.countP (fun y ↦ decide (r x y)) ≤ back'.length := by
  induction back with
  | nil => exact ⟨[], [], rfl, rfl, Nat.le_refl _⟩
  | cons y back ih =>
    by_cases hxy : r x y
    · exact ⟨[], y :: back, List.orderedInsert_cons_of_le r back hxy, rfl, List.countP_le_length⟩
    · obtain ⟨front, back', hinsert, hback, hcount⟩ := ih (List.pairwise_cons.mp hsorted).2
      refine ⟨y :: front, back', ?_, ?_, ?_⟩
      · rw [List.orderedInsert_of_not_le r back hxy, hinsert, List.cons_append]
      · rw [hback, List.cons_append]
      · rw [List.countP_cons_of_neg (by simp [hxy])]
        exact hcount

variable [Std.Total r] [IsTrans α r]

/-- In the sorted list an item is followed by all that come after it and belong there. -/
theorem exists_insertionSort_middle (before : List α) (x : α) (after : List α) :
    ∃ front back, (before ++ x :: after).insertionSort r = front ++ x :: back ∧
      (before ++ after).insertionSort r = front ++ back ∧
      after.countP (fun y ↦ decide (r x y)) ≤ back.length := by
  induction before with
  | nil =>
    obtain ⟨front, back, hinsert, hback, hcount⟩ :=
      orderedInsert_front (x := x) (List.pairwise_insertionSort r after)
    rw [(List.perm_insertionSort r after).countP_eq] at hcount
    exact ⟨front, back, hinsert, hback, hcount⟩
  | cons a before ih =>
    obtain ⟨front, back, hwith, hwithout, hcount⟩ := ih
    have hsorted : (front ++ x :: back).Pairwise r := by
      rw [← hwith]
      exact List.pairwise_insertionSort r _
    obtain ⟨front', back', hwith', hwithout', hlen⟩ := orderedInsert_middle (a := a) hsorted
    refine ⟨front', back', ?_, ?_, hcount.trans hlen⟩
    · rw [List.cons_append, List.insertionSort_cons, hwith, hwith']
    · rw [List.cons_append, List.insertionSort_cons, hwithout, hwithout']

/-- An item that `n` later ones come after is not among the last `n`. -/
theorem rtake_insertionSort_remove {n : Nat} {before : List α} {x : α} {after : List α}
    (h : n ≤ after.countP fun y ↦ decide (r x y)) :
    ((before ++ x :: after).insertionSort r).rtake n =
      ((before ++ after).insertionSort r).rtake n := by
  obtain ⟨front, back, hwith, hwithout, hcount⟩ := exists_insertionSort_middle (r := r) before x after
  have hlen : n ≤ back.length := h.trans hcount
  rw [hwith, hwithout, rtake_append_of_le front hlen,
    rtake_append_of_le front (Nat.le_succ_of_le hlen), ← List.singleton_append,
    rtake_append_of_le [x] hlen]

/-- Of a part that is sorted only its last `n` items can be among the last `n`. -/
theorem rtake_insertionSort_part (n : Nat) (before : List α) {part : List α}
    (hsorted : part.Pairwise r) (after : List α) :
    ((before ++ (part ++ after)).insertionSort r).rtake n =
      ((before ++ (part.rtake n ++ after)).insertionSort r).rtake n := by
  induction part with
  | nil => rw [List.rtake_nil]
  | cons x part ih =>
    by_cases hlen : n ≤ part.length
    · obtain ⟨hx, hpart⟩ := List.pairwise_cons.mp hsorted
      have hcount : n ≤ (part ++ after).countP fun y ↦ decide (r x y) := by
        rw [List.countP_append, List.countP_eq_length.mpr fun y hy ↦ decide_eq_true (hx y hy)]
        omega
      have htail : (x :: part).rtake n = part.rtake n := rtake_append_of_le [x] hlen
      rw [List.cons_append, rtake_insertionSort_remove hcount, ih hpart, htail]
    · have hall : (x :: part).rtake n = x :: part := by
        rw [List.rtake, List.length_cons, show part.length + 1 - n = 0 by omega, List.drop_zero]
      rw [hall]

private theorem rtake_insertionSort_parts (n : Nat) (before : List α) {parts : List (List α)}
    (hsorted : ∀ part ∈ parts, part.Pairwise r) :
    ((before ++ parts.flatten).insertionSort r).rtake n =
      ((before ++ (parts.map (·.rtake n)).flatten).insertionSort r).rtake n := by
  induction parts generalizing before with
  | nil => rfl
  | cons part parts ih =>
    have hrest := ih (before ++ part.rtake n) fun other hother ↦
      hsorted other (List.mem_cons_of_mem part hother)
    rw [List.append_assoc, List.append_assoc] at hrest
    rw [List.flatten_cons, rtake_insertionSort_part n before (hsorted part List.mem_cons_self),
      hrest, List.map_cons, List.flatten_cons]

/-- The last `n` items of sorted lists, put together and sorted, are those of their last `n`
items each. -/
theorem rtake_insertionSort_flatten (n : Nat) {parts : List (List α)}
    (hsorted : ∀ part ∈ parts, part.Pairwise r) :
    (parts.flatten.insertionSort r).rtake n =
      ((parts.map (·.rtake n)).flatten.insertionSort r).rtake n :=
  rtake_insertionSort_parts n [] hsorted

end Back

end PeerDeploy.Base.Sorting
