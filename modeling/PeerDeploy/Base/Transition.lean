/-!
# Runs of a partial transition function

General support. A machine is a function `step : σ → ι → Option σ`; `none` says that the
label is disabled in the state it meets. `run` executes a list of labels, `StepsMeet` says
that every label taken meets a predicate in the state it is taken from. The rules below
turn facts about one step into facts about every run.
-/

namespace PeerDeploy.Base

universe u v w x

variable {σ : Type u} {ι : Type v}

/-- Execute the labels in order; `none` as soon as one of them is disabled. -/
def run (step : σ → ι → Option σ) : σ → List ι → Option σ
  | s, [] => some s
  | s, i :: rest => (step s i).bind (run step · rest)

/-- Every label that the run takes meets `p` in the state it is taken from. -/
def StepsMeet (step : σ → ι → Option σ) (p : σ → ι → Prop) : σ → List ι → Prop
  | _, [] => True
  | s, i :: rest => p s i ∧ ∀ t, step s i = some t → StepsMeet step p t rest

/-- Execute the labels and test each one in the state it is taken from. -/
def checkSteps (step : σ → ι → Option σ) (test : σ → ι → Bool) : σ → List ι → Bool
  | _, [] => true
  | s, i :: rest => test s i && (step s i).all (checkSteps step test · rest)

/-- The label leads only to states related to its source. -/
def Leads (step : σ → ι → Option σ) (R : σ → σ → Prop) (s : σ) (i : ι) : Prop :=
  ∀ t, step s i = some t → R s t

/-- Any two states that the run visits, earlier and later, are related. -/
def Along (step : σ → ι → Option σ) (R : σ → σ → Prop) (s : σ) (labels : List ι) : Prop :=
  ∀ before between after, labels = before ++ between ++ after →
    ∀ t u, run step s before = some t → run step t between = some u → R t u

/-- Every state that the run visits satisfies `P`. -/
def Throughout (step : σ → ι → Option σ) (P : σ → Prop) (s : σ) (labels : List ι) : Prop :=
  ∀ before after, labels = before ++ after → ∀ t, run step s before = some t → P t

section Rules

variable {step : σ → ι → Option σ}

/-- The empty run stays where it is. -/
@[simp] theorem run_nil (s : σ) : run step s [] = some s := rfl

/-- A run that completes takes its first label and then completes the rest. -/
theorem run_cons_eq_some {s u : σ} {i : ι} {rest : List ι} :
    run step s (i :: rest) = some u ↔ ∃ t, step s i = some t ∧ run step t rest = some u := by
  simp [run, Option.bind_eq_some_iff]

/-- Running a concatenation runs its parts in order. -/
theorem run_append (s : σ) (before after : List ι) :
    run step s (before ++ after) = (run step s before).bind (run step · after) := by
  induction before generalizing s with
  | nil => rfl
  | cons i rest ih =>
    simp only [List.cons_append, run]
    cases step s i with
    | none => rfl
    | some t => exact ih t

/-- The steps of a concatenation are those of its parts. -/
theorem stepsMeet_append {p : σ → ι → Prop} (s : σ) (before after : List ι) :
    StepsMeet step p s (before ++ after) ↔
      StepsMeet step p s before ∧
        ∀ t, run step s before = some t → StepsMeet step p t after := by
  induction before generalizing s with
  | nil => simp [StepsMeet]
  | cons i rest ih =>
    simp only [List.cons_append, StepsMeet, run_cons_eq_some, ih]
    constructor
    · rintro ⟨hp, h⟩
      constructor
      · exact ⟨hp, fun t ht ↦ (h t ht).1⟩
      · rintro u ⟨t, ht, hu⟩
        exact (h t ht).2 u hu
    · rintro ⟨⟨hp, h⟩, hafter⟩
      exact ⟨hp, fun t ht ↦ ⟨h t ht, fun u hu ↦ hafter u ⟨t, ht, hu⟩⟩⟩

/-- An invariant that every step meeting `p` preserves holds at the end of every run whose
steps all meet `p`. -/
theorem run_invariant {p : σ → ι → Prop} {inv : σ → Prop}
    (hstep : ∀ s i t, inv s → p s i → step s i = some t → inv t)
    {s u : σ} {labels : List ι} (hs : inv s) (hp : StepsMeet step p s labels)
    (hrun : run step s labels = some u) : inv u := by
  induction labels generalizing s with
  | nil =>
    cases hrun
    exact hs
  | cons i rest ih =>
    obtain ⟨t, ht, hu⟩ := run_cons_eq_some.mp hrun
    exact ih (hstep s i t hs hp.1 ht) (hp.2 t ht) hu

/-- Steps that meet `p` also meet what follows from `p` and an invariant of such steps. -/
theorem stepsMeet_of_invariant {p q : σ → ι → Prop} {inv : σ → Prop}
    (hstep : ∀ s i t, inv s → p s i → step s i = some t → inv t)
    (hq : ∀ s i, inv s → p s i → q s i) {s : σ} {labels : List ι} (hs : inv s)
    (hp : StepsMeet step p s labels) : StepsMeet step q s labels := by
  induction labels generalizing s with
  | nil => trivial
  | cons i rest ih =>
    exact ⟨hq s i hs hp.1, fun t ht ↦ ih (hstep s i t hs hp.1 ht) (hp.2 t ht)⟩

/-- Steps that meet `p` meet what follows from it. -/
theorem stepsMeet_mono {p q : σ → ι → Prop} (hpq : ∀ s i, p s i → q s i) {s : σ}
    {labels : List ι} (hp : StepsMeet step p s labels) : StepsMeet step q s labels :=
  @stepsMeet_of_invariant _ _ step p q (fun _ ↦ True) (fun _ _ _ _ _ _ ↦ trivial)
    (fun s i _ ↦ hpq s i) _ _ trivial hp

/-- Under an invariant of all steps, predicates that agree where it holds agree on runs. -/
theorem stepsMeet_congr_of_invariant {p q : σ → ι → Prop} (inv : σ → Prop)
    (hstep : ∀ s i t, inv s → step s i = some t → inv t)
    (hpq : ∀ s i, inv s → (p s i ↔ q s i)) {s : σ} (hs : inv s) (labels : List ι) :
    StepsMeet step p s labels ↔ StepsMeet step q s labels := by
  induction labels generalizing s with
  | nil => exact Iff.rfl
  | cons i rest ih =>
    simp only [StepsMeet]
    apply and_congr (hpq s i hs)
    exact forall_congr' fun t ↦ forall_congr' fun ht ↦ ih (hstep s i t hs ht)

/-- Predicates that agree on every step agree on runs. -/
theorem stepsMeet_congr {p q : σ → ι → Prop} (hpq : ∀ s i, p s i ↔ q s i) (s : σ)
    (labels : List ι) : StepsMeet step p s labels ↔ StepsMeet step q s labels :=
  stepsMeet_congr_of_invariant (fun _ ↦ True) (fun _ _ _ _ _ ↦ trivial)
    (fun s i _ ↦ hpq s i) trivial labels

/-- A run meets two predicates when each of its steps meets both. -/
theorem stepsMeet_and {p q : σ → ι → Prop} (s : σ) (labels : List ι) :
    StepsMeet step (fun s i ↦ p s i ∧ q s i) s labels ↔
      StepsMeet step p s labels ∧ StepsMeet step q s labels := by
  induction labels generalizing s with
  | nil => simp [StepsMeet]
  | cons i rest ih =>
    simp only [StepsMeet, ih]
    constructor
    · rintro ⟨⟨hp, hq⟩, h⟩
      exact ⟨⟨hp, fun t ht ↦ (h t ht).1⟩, hq, fun t ht ↦ (h t ht).2⟩
    · rintro ⟨⟨hp, hps⟩, hq, hqs⟩
      exact ⟨⟨hp, hq⟩, fun t ht ↦ ⟨hps t ht, hqs t ht⟩⟩

/-- A predicate that all labels have is met by every run. -/
theorem stepsMeet_of_forall {q : ι → Prop} {labels : List ι} (h : ∀ i ∈ labels, q i) (s : σ) :
    StepsMeet step (fun _ i ↦ q i) s labels := by
  induction labels generalizing s with
  | nil => trivial
  | cons i rest ih =>
    have hrest : ∀ j ∈ rest, q j := fun j hj ↦ h j (List.mem_cons_of_mem i hj)
    exact ⟨h i List.mem_cons_self, fun t _ ↦ ih hrest t⟩

/-- A test that implies `p` decides that a run meets it. -/
theorem stepsMeet_of_checkSteps {p : σ → ι → Prop} {test : σ → ι → Bool}
    (htest : ∀ s i, test s i = true → p s i) {s : σ} {labels : List ι}
    (h : checkSteps step test s labels = true) : StepsMeet step p s labels := by
  induction labels generalizing s with
  | nil => trivial
  | cons i rest ih =>
    simp only [checkSteps, Bool.and_eq_true] at h
    constructor
    · exact htest s i h.1
    · intro t ht
      apply ih
      simpa [ht] using h.2

/-- The trivial predicate is met by every run. -/
theorem stepsMeet_true (s : σ) (labels : List ι) :
    StepsMeet step (fun _ _ ↦ True) s labels :=
  stepsMeet_of_forall (fun _ _ ↦ trivial) s

/-- An invariant of all steps holds at the end of every run. -/
theorem run_invariant_all {inv : σ → Prop}
    (hstep : ∀ s i t, inv s → step s i = some t → inv t)
    {s u : σ} {labels : List ι} (hs : inv s) (hrun : run step s labels = some u) : inv u :=
  run_invariant (fun s i t hi _ ht ↦ hstep s i t hi ht) hs (stepsMeet_true s labels) hrun

/-- An invariant of the state and of the labels taken so far, kept by the labels that have `q`,
holds at the end of every run of such labels. -/
theorem run_history {q : ι → Prop} {inv : σ → List ι → Prop}
    (hstep : ∀ s seen i t, inv s seen → q i → step s i = some t → inv t (seen ++ [i]))
    {s u : σ} {seen labels : List ι} (hq : ∀ i ∈ labels, q i) (hs : inv s seen)
    (hrun : run step s labels = some u) : inv u (seen ++ labels) := by
  induction labels generalizing s seen with
  | nil =>
    cases hrun
    rw [List.append_nil]
    exact hs
  | cons i rest ih =>
    obtain ⟨t, ht, hu⟩ := run_cons_eq_some.mp hrun
    rw [List.append_cons]
    apply ih (fun j hj ↦ hq j (List.mem_cons_of_mem i hj)) _ hu
    exact hstep s seen i t hs (hq i List.mem_cons_self) ht

/-- A run completes if no step of it is disabled. -/
theorem run_total (h : ∀ s i, ∃ t, step s i = some t) (s : σ) (labels : List ι) :
    ∃ u, run step s labels = some u := by
  induction labels generalizing s with
  | nil => exact ⟨s, rfl⟩
  | cons i rest ih =>
    obtain ⟨t, ht⟩ := h s i
    obtain ⟨u, hu⟩ := ih t
    exact ⟨u, run_cons_eq_some.mpr ⟨t, ht, hu⟩⟩

/-- A run of labels made from a list is the fold of what each of them does. -/
theorem run_map {τ : Type w} {α : Type x} {label : α → ι} {next : τ → α → τ} (state : τ → σ)
    (h : ∀ t x, step (state t) (label x) = some (state (next t x))) (t : τ) (xs : List α) :
    run step (state t) (xs.map label) = some (state (xs.foldl next t)) := by
  induction xs generalizing t with
  | nil => rfl
  | cons x rest ih => exact run_cons_eq_some.mpr ⟨_, h t x, ih _⟩

/-- The states that a run visits are its first one and those that the rest visits. -/
theorem throughout_cons {P : σ → Prop} {s : σ} {i : ι} {rest : List ι} :
    Throughout step P s (i :: rest) ↔ P s ∧ ∀ t, step s i = some t → Throughout step P t rest := by
  constructor
  · intro h
    constructor
    · exact h [] _ rfl s rfl
    · intro t ht before after hl u hu
      exact h (i :: before) after (by rw [hl]; rfl) u (run_cons_eq_some.mpr ⟨t, ht, hu⟩)
  · rintro ⟨hs, h⟩ before after hl u hu
    cases before with
    | nil =>
      cases hu
      exact hs
    | cons j before =>
      cases hl
      obtain ⟨t, ht, hu⟩ := run_cons_eq_some.mp hu
      exact h t ht before after rfl u hu

/-- What an invariant of the steps that meet `p` implies holds in every state visited. -/
theorem throughout_of_invariant {p : σ → ι → Prop} {inv P : σ → Prop}
    (hstep : ∀ s i t, inv s → p s i → step s i = some t → inv t) (hP : ∀ s, inv s → P s)
    {s : σ} {labels : List ι} (hs : inv s) (hp : StepsMeet step p s labels) :
    Throughout step P s labels := by
  rintro before after rfl t ht
  rw [stepsMeet_append] at hp
  exact hP t (run_invariant hstep hs hp.1 ht)

/-- A run that stays in `P`, and whose steps meet `q`, has steps that meet what every step with `q`
within `P` meets. -/
theorem stepsMeet_of_throughout {p q : σ → ι → Prop} {P : σ → Prop}
    (h : ∀ s i, P s → q s i → (∀ t, step s i = some t → P t) → p s i) {s : σ} {labels : List ι}
    (hP : Throughout step P s labels) (hq : StepsMeet step q s labels) :
    StepsMeet step p s labels := by
  induction labels generalizing s with
  | nil => trivial
  | cons i rest ih =>
    obtain ⟨hs, hnext⟩ := throughout_cons.mp hP
    constructor
    · apply h s i hs hq.1
      intro t ht
      exact hnext t ht [] rest rfl t rfl
    · intro t ht
      exact ih (hnext t ht) (hq.2 t ht)

/-- If, under an invariant, a step of a label with `q` meets `p` exactly when it leads from `P`
only to `P`, then the runs of such labels that stay in `P` are those whose steps meet `p`. -/
theorem throughout_iff_stepsMeet_of {p : σ → ι → Prop} {P : σ → Prop} {q : ι → Prop}
    (inv : σ → Prop) (hstep : ∀ s i t, inv s → q i → step s i = some t → inv t)
    (hiff : ∀ s i, inv s → q i → P s → (p s i ↔ ∀ t, step s i = some t → P t))
    {s : σ} (hs : inv s) (hP : P s) {labels : List ι} (hq : ∀ i ∈ labels, q i) :
    Throughout step P s labels ↔ StepsMeet step p s labels := by
  induction labels generalizing s with
  | nil =>
    apply iff_of_true
    · intro before after hl t ht
      obtain ⟨rfl, -⟩ := List.append_eq_nil_iff.mp hl.symm
      cases ht
      exact hP
    · trivial
  | cons i rest ih =>
    have hqi : q i := hq i List.mem_cons_self
    have hrest : ∀ j ∈ rest, q j := fun j hj ↦ hq j (List.mem_cons_of_mem i hj)
    rw [throughout_cons, StepsMeet, hiff s i hs hqi hP]
    constructor
    · rintro ⟨-, h⟩
      have hnext : ∀ t, step s i = some t → P t := fun t ht ↦ h t ht [] rest rfl t rfl
      exact ⟨hnext, fun t ht ↦ (ih (hstep s i t hs hqi ht) (hnext t ht) hrest).mp (h t ht)⟩
    · rintro ⟨hnext, h⟩
      exact ⟨hP, fun t ht ↦ (ih (hstep s i t hs hqi ht) (hnext t ht) hrest).mpr (h t ht)⟩

/-- If, under an invariant, a step meets `p` exactly when it leads from `P` only to `P`, then
the runs that stay in `P` are those whose steps meet `p`. -/
theorem throughout_iff_stepsMeet {p : σ → ι → Prop} {P : σ → Prop} (inv : σ → Prop)
    (hstep : ∀ s i t, inv s → step s i = some t → inv t)
    (hiff : ∀ s i, inv s → P s → (p s i ↔ ∀ t, step s i = some t → P t))
    {s : σ} (hs : inv s) (hP : P s) (labels : List ι) :
    Throughout step P s labels ↔ StepsMeet step p s labels :=
  throughout_iff_stepsMeet_of inv (fun s i t hi _ ht ↦ hstep s i t hi ht)
    (fun s i hi _ hPs ↦ hiff s i hi hPs) hs hP fun _ _ ↦ trivial

private theorem related_of_steps {R : σ → σ → Prop} (hrefl : ∀ s, R s s)
    (htrans : ∀ s t u, R s t → R t u → R s u) {s u : σ} {labels : List ι}
    (h : StepsMeet step (Leads step R) s labels) (hrun : run step s labels = some u) :
    R s u := by
  induction labels generalizing s with
  | nil =>
    cases hrun
    exact hrefl _
  | cons i rest ih =>
    obtain ⟨t, ht, hu⟩ := run_cons_eq_some.mp hrun
    exact htrans s t u (h.1 t ht) (ih (h.2 t ht) hu)

/-- For a preorder, relating all pairs of visited states is relating neighbours. -/
theorem along_iff {R : σ → σ → Prop} (hrefl : ∀ s, R s s)
    (htrans : ∀ s t u, R s t → R t u → R s u) (s : σ) (labels : List ι) :
    Along step R s labels ↔ StepsMeet step (Leads step R) s labels := by
  constructor
  · induction labels generalizing s with
    | nil => exact fun _ ↦ trivial
    | cons i rest ih =>
      intro h
      constructor
      · intro t ht
        exact h [] [i] rest rfl s t rfl (run_cons_eq_some.mpr ⟨t, ht, rfl⟩)
      · intro t ht
        apply ih t
        intro before between after hl v w hv hw
        have hv' : run step s (i :: before) = some v := run_cons_eq_some.mpr ⟨t, ht, hv⟩
        exact h (i :: before) between after (by rw [hl]; rfl) v w hv' hw
  · rintro h before between after rfl t u ht hu
    rw [stepsMeet_append, stepsMeet_append] at h
    exact related_of_steps hrefl htrans (h.1.2 t ht) hu

end Rules

end PeerDeploy.Base
