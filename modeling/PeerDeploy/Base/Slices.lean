/-!
# Chunks of a slice

General support: `slice::chunks` of the Rust standard library.
-/

namespace PeerDeploy.Base

universe u

variable {α : Type u}

/-- `slice::chunks`: consecutive parts of the given size, the last one possibly shorter. A
size of zero, where Rust panics, has no parts. -/
def chunks (size : Nat) (l : List α) : List (List α) :=
  if l = [] ∨ size = 0 then [] else l.take size :: chunks size (l.drop size)
termination_by l.length
decreasing_by
  have hne : l ≠ [] := fun he ↦ by simp_all
  have hpos := List.length_pos_iff.mpr hne
  simp only [List.length_drop]
  omega

variable {size : Nat}

/-- The chunks make up the slice. -/
theorem flatten_chunks (hsize : 0 < size) (l : List α) : (chunks size l).flatten = l := by
  fun_induction chunks size l with
  | case1 l h =>
    rcases h with rfl | h
    · rfl
    · omega
  | case2 l h ih => rw [List.flatten_cons, ih, List.take_append_drop]

/-- The number of chunks. -/
theorem length_chunks (hsize : 0 < size) (l : List α) :
    (chunks size l).length = (l.length + size - 1) / size := by
  fun_induction chunks size l with
  | case1 l h =>
    rcases h with rfl | h
    · rw [List.length_nil, List.length_nil, Nat.div_eq_of_lt (by omega)]
    · omega
  | case2 l h ih =>
    have hpos : 0 < l.length := List.length_pos_iff.mpr (not_or.mp h).1
    rw [List.length_cons, ih, List.length_drop]
    by_cases hle : size ≤ l.length
    · have hsum : l.length + size - 1 = l.length - size + size - 1 + size := by omega
      rw [hsum, Nat.add_div_right _ hsize]
    · have hlast : l.length - size + size - 1 = size - 1 := by omega
      have hone : l.length + size - 1 = l.length - 1 + size := by omega
      rw [hlast, hone, Nat.add_div_right _ hsize, Nat.div_eq_of_lt (by omega),
        Nat.div_eq_of_lt (by omega)]

/-- No chunk is empty. -/
theorem ne_nil_of_mem_chunks {l chunk : List α} (h : chunk ∈ chunks size l) : chunk ≠ [] := by
  fun_induction chunks size l with
  | case1 l _ => cases h
  | case2 l hne ih =>
    rcases List.mem_cons.mp h with rfl | h
    · have hpos : 0 < l.length := List.length_pos_iff.mpr (not_or.mp hne).1
      have hsize : size ≠ 0 := (not_or.mp hne).2
      rw [← List.length_pos_iff, List.length_take]
      omega
    · exact ih h

/-- No chunk is longer than the given size. -/
theorem length_le_of_mem_chunks {l chunk : List α} (h : chunk ∈ chunks size l) :
    chunk.length ≤ size := by
  fun_induction chunks size l with
  | case1 l _ => cases h
  | case2 l _ ih =>
    rcases List.mem_cons.mp h with rfl | h
    · rw [List.length_take]
      omega
    · exact ih h

end PeerDeploy.Base
