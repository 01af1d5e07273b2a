import Mathlib.Data.List.Forall2

/-!
# Readers of a list

General support: one reader stops at the first entry that it refuses, the other drops what it
cannot read.
-/

namespace PeerDeploy.Base.Readers

variable {α β γ ε : Type}

/-- The strict reader reads a list if it reads each entry. -/
theorem mapM_ok_iff {read : α → Except ε γ} {entries : List α} {out : List γ} :
    entries.mapM read = .ok out ↔ List.Forall₂ (fun entry c ↦ read entry = .ok c) entries out := by
  induction entries generalizing out with
  | nil =>
    rw [List.mapM_nil]
    constructor
    · intro h
      cases h
      exact .nil
    · intro h
      cases h
      rfl
  | cons entry rest ih =>
    rw [List.mapM_cons]
    cases hentry : read entry with
    | error e =>
      apply iff_of_false
      · intro h
        cases h
      · rintro (_ | ⟨hread, -⟩)
        rw [hentry] at hread
        cases hread
    | ok c =>
      cases hrest : rest.mapM read with
      | error e =>
        apply iff_of_false
        · intro h
          cases h
        · rintro (_ | ⟨-, htail⟩)
          rw [ih.mpr htail] at hrest
          cases hrest
      | ok cs =>
        constructor
        · intro h
          cases h
          exact .cons hentry (ih.mp hrest)
        · rintro (_ | ⟨hread, htail⟩)
          rw [hentry] at hread
          cases hread
          rw [ih.mpr htail] at hrest
          cases hrest
          rfl

private theorem length_filterMap_le {lax : α → Option β} {keep : γ → Option β} {entries : List α}
    {out : List γ} (h : List.Forall₂ (fun a c ↦ keep c = none → lax a = none) entries out) :
    (entries.filterMap lax).length ≤ (out.filterMap keep).length := by
  induction h with
  | nil => exact Nat.le_refl _
  | @cons a c entries out hhead _ ih =>
    rw [List.filterMap_cons, List.filterMap_cons]
    cases hkeep : keep c with
    | none =>
      rw [hhead hkeep]
      exact ih
    | some b =>
      cases hlax : lax a with
      | none => exact Nat.le_succ_of_le ih
      | some b' => exact Nat.succ_le_succ ih

/-- Filters of which the first drops what the second drops give one list only if they give the
same value at each place. -/
theorem filterMap_eq_iff {lax : α → Option β} {keep : γ → Option β} {entries : List α}
    {out : List γ} (h : List.Forall₂ (fun a c ↦ keep c = none → lax a = none) entries out) :
    entries.filterMap lax = out.filterMap keep ↔
      List.Forall₂ (fun a c ↦ lax a = keep c) entries out := by
  induction h with
  | nil => exact iff_of_true rfl .nil
  | @cons a c entries out hhead htail ih =>
    rw [List.filterMap_cons, List.filterMap_cons, List.forall₂_cons, ← ih]
    cases hkeep : keep c with
    | none => simp [hhead hkeep]
    | some b =>
      cases hlax : lax a with
      | none =>
        apply iff_of_false
        · intro heq
          have hle := length_filterMap_le htail
          simp only at heq
          rw [heq, List.length_cons] at hle
          omega
        · rintro ⟨hsame, -⟩
          cases hsame
      | some b' => simp

/-- A filter gives the values of another list if what it keeps matches that list one by one. -/
theorem filterMap_eq_map_iff {lax : α → Option β} {value : γ → β} {entries : List α}
    {out : List γ} : entries.filterMap lax = out.map value ↔
      List.Forall₂ (fun a c ↦ lax a = some (value c)) (entries.filter fun a ↦ (lax a).isSome)
        out := by
  induction entries generalizing out with
  | nil => cases out <;> simp
  | cons a rest ih =>
    cases hlax : lax a with
    | none =>
      rw [List.filterMap_cons_none hlax, List.filter_cons_of_neg (by simp [hlax]), ih]
    | some b =>
      rw [List.filterMap_cons_some hlax, List.filter_cons_of_pos (by simp [hlax])]
      cases out with
      | nil => simp
      | cons c out => simp [hlax, ih]

/-- A reader that stops at an entry it refuses and one that drops what it cannot read give the
same list exactly if the first one refuses an entry or they agree on each. -/
theorem agree_iff {strict : α → Except ε γ} {lax : α → Option β}
    {keep : γ → Option β} (hkept : ∀ entry c, strict entry = .ok c → keep c = none →
      lax entry = none) (entries : List α) :
    (∀ out, entries.mapM strict = .ok out → entries.filterMap lax = out.filterMap keep) ↔
      (∃ entry ∈ entries, ∃ e, strict entry = .error e) ∨
        ∀ entry ∈ entries, ∀ c, strict entry = .ok c → lax entry = keep c := by
  by_cases hrefused : ∃ entry ∈ entries, ∃ e, strict entry = .error e
  · apply iff_of_true _ (.inl hrefused)
    intro out hout
    obtain ⟨entry, hin, e, hentry⟩ := hrefused
    have hread := mapM_ok_iff.mp hout
    clear hout
    exfalso
    induction hread with
    | nil => cases hin
    | cons hhead _ ih =>
      rcases List.mem_cons.mp hin with rfl | hin
      · rw [hentry] at hhead
        cases hhead
      · exact ih hin
  · have hread : ∀ entry ∈ entries, ∃ c, strict entry = .ok c := by
      intro entry hin
      cases hentry : strict entry with
      | error e => exact absurd ⟨entry, hin, e, hentry⟩ hrefused
      | ok c => exact ⟨c, rfl⟩
    have hsome : ∃ out, List.Forall₂ (fun entry c ↦ strict entry = .ok c) entries out := by
      clear hrefused
      induction entries with
      | nil => exact ⟨[], .nil⟩
      | cons entry rest ih =>
        obtain ⟨c, hc⟩ := hread entry List.mem_cons_self
        obtain ⟨out, hout⟩ := ih fun entry hin ↦ hread entry (List.mem_cons_of_mem _ hin)
        exact ⟨c :: out, .cons hc hout⟩
    obtain ⟨out, hout⟩ := hsome
    have honly : (∀ out, entries.mapM strict = .ok out →
        entries.filterMap lax = out.filterMap keep) ↔
          entries.filterMap lax = out.filterMap keep := by
      constructor
      · intro h
        exact h out (mapM_ok_iff.mpr hout)
      · intro h out' hout'
        rw [mapM_ok_iff.mpr hout] at hout'
        cases hout'
        exact h
    rw [honly, filterMap_eq_iff (hout.imp fun entry c h ↦ hkept entry c h), or_iff_right hrefused]
    clear honly hrefused hread
    induction hout with
    | nil => simp
    | @cons entry c entries out hhead _ ih =>
      rw [List.forall₂_cons, List.forall_mem_cons]
      exact and_congr (by simp [hhead]) ih

end PeerDeploy.Base.Readers
