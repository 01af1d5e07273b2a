import PeerDeploy.Base.Transition
import Mathlib.Data.Set.Basic

/-!
# Simulations and redundant messages

General support. A machine simulates another one if it can follow each of its steps by steps of
its own that show the same labels; some labels are not shown. A queue of messages may differ
from another one by messages that are redundant: what a message tells is a set of facts, and it
is redundant if they are all known when its turn comes.
-/

namespace PeerDeploy.Base

universe u v w x

section Simulation

variable {σ : Type u} {τ : Type v} {ι : Type w} {step : σ → ι → Option σ} {other : τ → ι → Option τ}

/-- If each step that meets `p` can be followed, so can each run of such steps. -/
theorem run_simulates {p : σ → ι → Prop} {R : σ → τ → Prop} {shown : ι → Bool}
    (hstep : ∀ s t i s', R s t → p s i → step s i = some s' →
      ∃ labels t', run other t labels = some t' ∧ R s' t' ∧ labels.filter shown = [i].filter shown)
    {s s' : σ} {t : τ} {labels : List ι} (hR : R s t) (hp : StepsMeet step p s labels)
    (hrun : run step s labels = some s') :
    ∃ followed t', run other t followed = some t' ∧ R s' t' ∧
      followed.filter shown = labels.filter shown := by
  induction labels generalizing s t with
  | nil =>
    cases hrun
    exact ⟨[], t, rfl, hR, rfl⟩
  | cons i rest ih =>
    obtain ⟨next, hnext, hrest⟩ := run_cons_eq_some.mp hrun
    obtain ⟨first, u, hu, hRu, hfirst⟩ := hstep s t i next hR hp.1 hnext
    obtain ⟨followed, t', ht', hRt', hfollowed⟩ := ih hRu (hp.2 next hnext) hrest
    refine ⟨first ++ followed, t', ?_, hRt', ?_⟩
    · rw [run_append, hu, Option.bind_some, ht']
    · rw [List.filter_append, hfirst, hfollowed, ← List.filter_append, List.singleton_append]

end Simulation

section Thinning

variable {μ : Type u} {κ : Type v} {tells : μ → Set κ}

/-- What is known once the messages of a queue have been taken. -/
def knownAfter (tells : μ → Set κ) (known : Set κ) (queue : List μ) : Set κ :=
  queue.foldl (fun known message ↦ known ∪ tells message) known

/-- The second queue is the first one without some messages that are redundant. -/
inductive Thins (tells : μ → Set κ) : Set κ → List μ → List μ → Prop
  | nil (known : Set κ) : Thins tells known [] []
  | keep {known : Set κ} {message : μ} {full thin : List μ}
    (rest : Thins tells (known ∪ tells message) full thin) :
    Thins tells known (message :: full) (message :: thin)
  | drop {known : Set κ} {message : μ} {full thin : List μ} (redundant : tells message ⊆ known)
    (rest : Thins tells known full thin) : Thins tells known (message :: full) thin

/-- Nothing is forgotten. -/
theorem subset_knownAfter (known : Set κ) (queue : List μ) :
    known ⊆ knownAfter tells known queue := by
  induction queue generalizing known with
  | nil => exact Set.Subset.refl known
  | cons message rest ih => exact Set.subset_union_left.trans (ih _)

/-- Who knows more, knows more after the same messages. -/
theorem knownAfter_mono {known more : Set κ} (h : known ⊆ more) (queue : List μ) :
    knownAfter tells known queue ⊆ knownAfter tells more queue := by
  induction queue generalizing known more with
  | nil => exact h
  | cons message rest ih => exact ih (Set.union_subset_union_left _ h)

/-- Messages are taken one part after the other. -/
theorem knownAfter_append (known : Set κ) (queue more : List μ) :
    knownAfter tells known (queue ++ more) = knownAfter tells (knownAfter tells known queue) more :=
  List.foldl_append

namespace Thins

variable {known : Set κ} {message : μ} {full thin : List μ}

/-- Nothing has to be left out. -/
theorem refl (known : Set κ) (queue : List μ) : Thins tells known queue queue := by
  induction queue generalizing known with
  | nil => exact .nil known
  | cons message rest ih => exact .keep (ih _)

/-- Who knows more finds the same messages redundant. -/
theorem mono {more : Set κ} (h : Thins tells known full thin) (hmore : known ⊆ more) :
    Thins tells more full thin := by
  induction h generalizing more with
  | nil => exact .nil more
  | keep _ ih => exact .keep (ih (Set.union_subset_union_left _ hmore))
  | drop redundant _ ih => exact .drop (redundant.trans hmore) (ih hmore)

/-- The same messages are put at the end of both queues. -/
theorem append (h : Thins tells known full thin) (more : List μ) :
    Thins tells known (full ++ more) (thin ++ more) := by
  induction h with
  | nil known => exact refl known more
  | keep _ ih => exact .keep ih
  | drop redundant _ ih => exact .drop redundant ih

/-- A message is left out if all it tells will be known by its turn. -/
theorem drop_last (h : Thins tells known full thin)
    (hredundant : tells message ⊆ knownAfter tells known thin) :
    Thins tells known (full ++ [message]) thin := by
  induction h with
  | nil known => exact .drop hredundant (.nil known)
  | keep _ ih => exact .keep (ih hredundant)
  | drop redundant _ ih => exact .drop redundant (ih hredundant)

/-- Before the first message of the thinner queue, the other one has only redundant messages. -/
theorem exists_front (h : Thins tells known full (message :: thin)) :
    ∃ front rest, full = front ++ message :: rest ∧ (∀ m ∈ front, tells m ⊆ known) ∧
      Thins tells (known ∪ tells message) rest thin := by
  generalize hqueue : message :: thin = queue at h
  induction h with
  | nil => cases hqueue
  | keep rest _ =>
    cases hqueue
    exact ⟨[], _, rfl, nofun, rest⟩
  | drop redundant _ ih =>
    obtain ⟨front, rest, rfl, hfront, hrest⟩ := ih hqueue
    refine ⟨_ :: front, rest, rfl, ?_, hrest⟩
    intro m hm
    rcases List.mem_cons.mp hm with rfl | hm
    · exact redundant
    · exact hfront m hm

end Thins

end Thinning

end PeerDeploy.Base
