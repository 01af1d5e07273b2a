import Mathlib.Data.Set.Function

/-!
# The last writer wins

General support. A register holds at most one value, and a value that comes in replaces it if
its stamp is later. If no two different values have the same stamp, what is held after a list
of values depends only on which values they were: not on their order, their number or how
they were grouped.
-/

namespace PeerDeploy.Base

universe u v

variable {α : Type u} {τ : Type v} [LinearOrder τ]

/-- What a register holds after a value has come in. -/
def keepLatest (stamp : α → τ) (held : Option α) (incoming : α) : Option α :=
  match held with
  | some value => if stamp value < stamp incoming then some incoming else some value
  | none => some incoming

/-- The value is one of the set, and no other has a later stamp. -/
def Latest (stamp : α → τ) (values : Set α) (value : α) : Prop :=
  value ∈ values ∧ ∀ other ∈ values, stamp other ≤ stamp value

/-- The value in a register and the values of a list. -/
def heldAmong (held : Option α) (incoming : List α) : Set α :=
  {value | held = some value ∨ value ∈ incoming}

variable {stamp : α → τ}

/-- Where stamps tell the values apart, there is one latest value. -/
theorem latest_unique {values : Set α} (hstamp : Set.InjOn stamp values) {a b : α}
    (ha : Latest stamp values a) (hb : Latest stamp values b) : a = b := by
  apply hstamp ha.1 hb.1
  exact le_antisymm (hb.2 a ha.1) (ha.2 b hb.1)

/-- One value comes in: the later of the two is held. -/
theorem latest_keepLatest (stamp : α → τ) (held : Option α) (incoming : α) :
    ∃ value, keepLatest stamp held incoming = some value ∧
      Latest stamp (heldAmong held [incoming]) value := by
  cases held with
  | none =>
    refine ⟨incoming, rfl, .inr List.mem_cons_self, ?_⟩
    rintro other (hheld | hin)
    · cases hheld
    · rw [List.mem_singleton.mp hin]
  | some value =>
    unfold keepLatest
    by_cases hlater : stamp value < stamp incoming
    · refine ⟨incoming, if_pos hlater, .inr List.mem_cons_self, ?_⟩
      rintro other (hheld | hin)
      · cases hheld
        exact le_of_lt hlater
      · rw [List.mem_singleton.mp hin]
    · refine ⟨value, if_neg hlater, .inl rfl, ?_⟩
      rintro other (hheld | hin)
      · cases hheld
        exact le_refl _
      · rw [List.mem_singleton.mp hin]
        exact not_lt.mp hlater

/-- What is held after a list of values is a latest one among them. -/
theorem latest_foldl {held : Option α} {incoming : List α} {value : α}
    (h : incoming.foldl (keepLatest stamp) held = some value) :
    Latest stamp (heldAmong held incoming) value := by
  induction incoming generalizing held with
  | nil =>
    refine ⟨.inl h, ?_⟩
    rintro other (hheld | hin)
    · rw [List.foldl_nil, hheld] at h
      rw [Option.some.inj h]
    · cases hin
  | cons first rest ih =>
    obtain ⟨next, hnext, hin, hlatest⟩ := latest_keepLatest stamp held first
    obtain ⟨hvalue, hrest⟩ := ih h
    constructor
    · rcases hvalue with hvalue | hvalue
      · rw [hnext] at hvalue
        cases hvalue
        rcases hin with hin | hin
        · exact .inl hin
        · exact .inr (List.mem_cons.mpr (.inl (List.mem_singleton.mp hin)))
      · exact .inr (List.mem_cons_of_mem first hvalue)
    · -- the values up to `first` are not later than `next`, which is one of those that follow
      have hfirst : ∀ other ∈ heldAmong held [first], stamp other ≤ stamp value := by
        intro other hother
        exact le_trans (hlatest other hother) (hrest next (.inl hnext))
      rintro other (hother | hother)
      · exact hfirst other (.inl hother)
      · rcases List.mem_cons.mp hother with rfl | hother
        · exact hfirst other (.inr List.mem_cons_self)
        · exact hrest other (.inr hother)

/-- A register is empty only if it was and nothing has come in. -/
theorem foldl_keepLatest_eq_none {held : Option α} {incoming : List α} :
    incoming.foldl (keepLatest stamp) held = none ↔ held = none ∧ incoming = [] := by
  induction incoming generalizing held with
  | nil => simp
  | cons first rest ih =>
    obtain ⟨next, hnext, -⟩ := latest_keepLatest stamp held first
    rw [List.foldl_cons, ih, hnext]
    simp

/-- The value held is the latest among the old one and those that came in. -/
theorem foldl_keepLatest_eq_some {held : Option α} {incoming : List α}
    (hstamp : Set.InjOn stamp (heldAmong held incoming)) {value : α} :
    incoming.foldl (keepLatest stamp) held = some value ↔
      Latest stamp (heldAmong held incoming) value := by
  refine ⟨latest_foldl, ?_⟩
  intro hlatest
  cases hheld : incoming.foldl (keepLatest stamp) held with
  | none =>
    obtain ⟨rfl, rfl⟩ := foldl_keepLatest_eq_none.mp hheld
    rcases hlatest.1 with hnone | hnone
    · cases hnone
    · cases hnone
  | some other => rw [latest_unique hstamp (latest_foldl hheld) hlatest]

/-- Lists with the same values leave the same value. -/
theorem foldl_keepLatest_congr {held : Option α} {incoming incoming' : List α}
    (hstamp : Set.InjOn stamp (heldAmong held incoming))
    (hsame : ∀ value, value ∈ incoming' ↔ value ∈ incoming) :
    incoming'.foldl (keepLatest stamp) held = incoming.foldl (keepLatest stamp) held := by
  have hset : heldAmong held incoming' = heldAmong held incoming := by
    ext value
    exact or_congr Iff.rfl (hsame value)
  apply Option.ext
  intro value
  rw [foldl_keepLatest_eq_some hstamp, foldl_keepLatest_eq_some (by rw [hset]; exact hstamp),
    hset]

end PeerDeploy.Base
