import PeerDeploy.Base.Transition
import Mathlib.Algebra.BigOperators.Group.List.Basic
import Mathlib.Algebra.Order.BigOperators.Group.List
import Mathlib.Algebra.Order.Ring.Nat
import Mathlib.Algebra.Ring.Nat
import Mathlib.Data.UInt

/-!
# The memory cap of a component

`crates/agent/src/runner.rs:22–44,83–89,183–204`. The runtime asks the limiter once for each
creation and each growth of a linear memory, with the current and the desired size of that one
memory, and the configuration allows several memories. The agent is a release build on a 64-bit
host, where a product of 64 bits wraps.
-/

namespace PeerDeploy.Execution

open PeerDeploy.Base

/-- `crates/agent/src/runner.rs:22–24`. -/
structure MemoryLimiter where
  maxBytes : UInt64

namespace MemoryLimiter

/-- `crates/agent/src/runner.rs:185–187`. -/
def new (memoryMaxMb : UInt64) : MemoryLimiter := ⟨memoryMaxMb * 1024 * 1024⟩

/-- `crates/agent/src/runner.rs:27–34`. -/
def memoryGrowing (limiter : MemoryLimiter) (_current desired : Nat) (_maximum : Option Nat) :
    Bool :=
  desired ≤ limiter.maxBytes.toNat

end MemoryLimiter

/-- The sizes of the linear memories of an instance. -/
abbrev Memories := List Nat

/-- What an instance asks for; `done` says that the host could provide a memory that the limiter
has granted. -/
inductive MemoryRequest where
  | create (minimum : Nat) (maximum : Option Nat) (done : Bool)
  | grow (index desired : Nat) (maximum : Option Nat) (done : Bool)

namespace MemoryRequest

/-- The request is for a new memory. -/
def isCreate : MemoryRequest → Bool
  | create .. => true
  | grow .. => false

/-- The runtime consults the limiter; `none` where there is nothing to grow. -/
def step (limiter : MemoryLimiter) (s : Memories) : MemoryRequest → Option Memories
  | create minimum maximum done =>
    if limiter.memoryGrowing 0 minimum maximum ∧ done then some (s ++ [minimum]) else some s
  | grow index desired maximum done =>
    match s[index]? with
    | none => none
    | some current =>
      if desired < current then none
      else if limiter.memoryGrowing current desired maximum ∧ done then some (s.set index desired)
      else some s

end MemoryRequest

/-- All memories together have no more than `memoryMaxMb` MiB. -/
def WithinLimit (memoryMaxMb : UInt64) (s : Memories) : Prop :=
  s.sum ≤ memoryMaxMb.toNat * 2 ^ 20

/-- What is granted fits beside the other memories. -/
def LeavesRoom (memoryMaxMb : UInt64) (s : Memories) : MemoryRequest → Prop
  | .create minimum maximum done =>
    (MemoryLimiter.new memoryMaxMb).memoryGrowing 0 minimum maximum → done →
      s.sum + minimum ≤ memoryMaxMb.toNat * 2 ^ 20
  | .grow index desired maximum done => ∀ current, s[index]? = some current → current ≤ desired →
    (MemoryLimiter.new memoryMaxMb).memoryGrowing current desired maximum → done →
      (s.eraseIdx index).sum + desired ≤ memoryMaxMb.toNat * 2 ^ 20

/-- The cap wraps at 2 ^ 44 MiB. -/
theorem maxBytes_new (memoryMaxMb : UInt64) :
    (MemoryLimiter.new memoryMaxMb).maxBytes.toNat = memoryMaxMb.toNat % 2 ^ 44 * 2 ^ 20 := by
  rw [MemoryLimiter.new, UInt64.toNat_mul, UInt64.toNat_mul]
  change memoryMaxMb.toNat * 1024 % 2 ^ 64 * 1024 % 2 ^ 64 = _
  omega

private theorem sum_set {s : Memories} {index current : Nat} (h : s[index]? = some current)
    (desired : Nat) : (s.set index desired).sum = (s.eraseIdx index).sum + desired := by
  obtain ⟨hlt, -⟩ := List.getElem?_eq_some_iff.mp h
  rw [List.set_eq_take_cons_drop desired hlt, List.eraseIdx_eq_take_drop_succ, List.sum_append,
    List.sum_append, List.sum_cons]
  omega

private theorem leavesRoom_iff {memoryMaxMb : UInt64} {s : Memories}
    (hs : WithinLimit memoryMaxMb s) (request : MemoryRequest) :
    LeavesRoom memoryMaxMb s request ↔
      ∀ t, request.step (.new memoryMaxMb) s = some t → WithinLimit memoryMaxMb t := by
  cases request with
  | create minimum maximum done =>
    rw [LeavesRoom, MemoryRequest.step]
    split
    · next hgranted =>
      have hsum : (s ++ [minimum]).sum = s.sum + minimum := by
        rw [List.sum_append, List.sum_singleton]
      constructor
      · rintro h t ⟨⟩
        rw [WithinLimit, hsum]
        exact h hgranted.1 hgranted.2
      · intro h _ _
        rw [← hsum]
        exact h _ rfl
    · next hrefused =>
      constructor
      · rintro - t ⟨⟩
        exact hs
      · exact fun _ hgrant hdone ↦ absurd ⟨hgrant, hdone⟩ hrefused
  | grow index desired maximum done =>
    rw [LeavesRoom, MemoryRequest.step]
    cases hcurrent : s[index]? with
    | none => simp
    | some current =>
      simp only [Option.some.injEq, forall_eq']
      split
      · next hsmaller =>
        constructor
        · rintro - t ⟨⟩
        · intro _ hle
          omega
      · next hle =>
        split
        · next hgranted =>
          constructor
          · rintro h t ⟨⟩
            rw [WithinLimit, sum_set hcurrent]
            exact h (Nat.le_of_not_lt hle) hgranted.1 hgranted.2
          · intro h _ _ _
            rw [← sum_set hcurrent]
            exact h _ rfl
        · next hrefused =>
          constructor
          · rintro - t ⟨⟩
            exact hs
          · exact fun _ _ hgrant hdone ↦ absurd ⟨hgrant, hdone⟩ hrefused

private theorem step_capped {limiter : MemoryLimiter} {s t : Memories} {request : MemoryRequest}
    (hs : ∀ size ∈ s, size ≤ limiter.maxBytes.toNat) (hstep : request.step limiter s = some t) :
    (∀ size ∈ t, size ≤ limiter.maxBytes.toNat) ∧
      t.length ≤ s.length + [request].countP MemoryRequest.isCreate := by
  cases request with
  | create minimum maximum done =>
    rw [MemoryRequest.step] at hstep
    split at hstep
    · next hgranted =>
      cases hstep
      refine ⟨fun size hsize ↦ ?_, by simp [MemoryRequest.isCreate]⟩
      rcases List.mem_append.mp hsize with hsize | hsize
      · exact hs size hsize
      · rw [List.mem_singleton.mp hsize]
        exact of_decide_eq_true hgranted.1
    · cases hstep
      exact ⟨hs, Nat.le_add_right _ _⟩
  | grow index desired maximum done =>
    rw [MemoryRequest.step] at hstep
    split at hstep
    · cases hstep
    · split at hstep
      · cases hstep
      · split at hstep
        · next hgranted =>
          cases hstep
          refine ⟨fun size hsize ↦ ?_, by simp⟩
          rcases List.mem_or_eq_of_mem_set hsize with hsize | rfl
          · exact hs size hsize
          · exact of_decide_eq_true hgranted.1
        · cases hstep
          exact ⟨hs, Nat.le_add_right _ _⟩

private theorem withinLimit_of_creates (memoryMaxMb : UInt64) {n : Nat}
    (hroom : n * (memoryMaxMb.toNat % 2 ^ 44) ≤ memoryMaxMb.toNat)
    {requests : List MemoryRequest} {s : Memories}
    (hs : ∀ size ∈ s, size ≤ (MemoryLimiter.new memoryMaxMb).maxBytes.toNat)
    (hcreates : s.length + requests.countP MemoryRequest.isCreate ≤ n) :
    Throughout (MemoryRequest.step (.new memoryMaxMb)) (WithinLimit memoryMaxMb) s requests := by
  have hwithin {t : Memories} (ht : ∀ size ∈ t, size ≤
      (MemoryLimiter.new memoryMaxMb).maxBytes.toNat) (hlen : t.length ≤ n) :
      WithinLimit memoryMaxMb t := by
    rw [maxBytes_new] at ht
    calc t.sum ≤ t.length * (memoryMaxMb.toNat % 2 ^ 44 * 2 ^ 20) :=
          List.sum_le_card_nsmul t _ ht
      _ ≤ n * (memoryMaxMb.toNat % 2 ^ 44 * 2 ^ 20) := Nat.mul_le_mul_right _ hlen
      _ = n * (memoryMaxMb.toNat % 2 ^ 44) * 2 ^ 20 := (Nat.mul_assoc _ _ _).symm
      _ ≤ memoryMaxMb.toNat * 2 ^ 20 := Nat.mul_le_mul_right _ hroom
  induction requests generalizing s with
  | nil =>
    intro before after hl t ht
    obtain ⟨rfl, -⟩ := List.append_eq_nil_iff.mp hl.symm
    cases ht
    exact hwithin hs (Nat.le_of_add_right_le hcreates)
  | cons request rest ih =>
    rw [throughout_cons]
    refine ⟨hwithin hs (Nat.le_of_add_right_le hcreates), fun t ht ↦ ?_⟩
    obtain ⟨hcapped, hlen⟩ := step_capped hs ht
    rw [← List.singleton_append, List.countP_append] at hcreates
    exact ih hcapped (by omega)

private theorem run_creates (limiter : MemoryLimiter) (n : Nat) (s : Memories) :
    run (MemoryRequest.step limiter) s
        (List.replicate n (.create limiter.maxBytes.toNat none true)) =
      some (s ++ List.replicate n limiter.maxBytes.toNat) := by
  induction n generalizing s with
  | zero => simp
  | succ n ih =>
    have hstep : MemoryRequest.step limiter s (.create limiter.maxBytes.toNat none true) =
        some (s ++ [limiter.maxBytes.toNat]) := by
      simp [MemoryRequest.step, MemoryLimiter.memoryGrowing]
    rw [List.replicate_succ, run, hstep, Option.bind_some, ih, List.replicate_succ,
      List.append_assoc, List.singleton_append]

private theorem room_of_withinLimit (memoryMaxMb : UInt64) {n : Nat}
    (hall : ∀ requests : List MemoryRequest, requests.countP MemoryRequest.isCreate ≤ n →
      Throughout (MemoryRequest.step (.new memoryMaxMb)) (WithinLimit memoryMaxMb) [] requests) :
    n * (memoryMaxMb.toNat % 2 ^ 44) ≤ memoryMaxMb.toNat := by
  have hcount : (List.replicate n (MemoryRequest.create
      (MemoryLimiter.new memoryMaxMb).maxBytes.toNat none true)).countP
        MemoryRequest.isCreate ≤ n := by
    rw [List.countP_replicate]
    split <;> omega
  have hwithin := hall _ hcount _ [] (List.append_nil _).symm _ (run_creates _ n [])
  rw [WithinLimit, List.nil_append, List.sum_replicate_nat, maxBytes_new,
    ← Nat.mul_assoc] at hwithin
  exact Nat.le_of_mul_le_mul_right hwithin (by decide)

/-- An instance stays within its limit exactly when every request that is granted leaves room for
the other memories, as it does when there is only one memory; all instances with so many memories
do exactly when that many caps are within the limit; and a higher limit is a higher cap exactly
when it is one below the 2 ^ 44 MiB at which the cap wraps. -/
theorem memory_within_iff (memoryMaxMb : UInt64) (requests : List MemoryRequest) :
    (Throughout (MemoryRequest.step (.new memoryMaxMb)) (WithinLimit memoryMaxMb) [] requests ↔
      StepsMeet (MemoryRequest.step (.new memoryMaxMb)) (LeavesRoom memoryMaxMb) [] requests) ∧
    (requests.countP MemoryRequest.isCreate ≤ 1 →
      Throughout (MemoryRequest.step (.new memoryMaxMb)) (WithinLimit memoryMaxMb) [] requests) ∧
    (∀ n : Nat, (∀ others : List MemoryRequest, others.countP MemoryRequest.isCreate ≤ n →
      Throughout (MemoryRequest.step (.new memoryMaxMb)) (WithinLimit memoryMaxMb) [] others) ↔
        n * (memoryMaxMb.toNat % 2 ^ 44) ≤ memoryMaxMb.toNat) ∧
    ∀ more, memoryMaxMb ≤ more →
      ((MemoryLimiter.new memoryMaxMb).maxBytes ≤ (MemoryLimiter.new more).maxBytes ↔
        memoryMaxMb.toNat % 2 ^ 44 ≤ more.toNat % 2 ^ 44) := by
  have hcreates {n : Nat} (hroom : n * (memoryMaxMb.toNat % 2 ^ 44) ≤ memoryMaxMb.toNat)
      (others : List MemoryRequest) (hcount : others.countP MemoryRequest.isCreate ≤ n) :
      Throughout (MemoryRequest.step (.new memoryMaxMb)) (WithinLimit memoryMaxMb) [] others := by
    apply withinLimit_of_creates memoryMaxMb hroom
    · exact fun size hsize ↦ absurd hsize List.not_mem_nil
    · rwa [List.length_nil, Nat.zero_add]
  refine ⟨?_, ?_, ?_, ?_⟩
  · exact throughout_iff_stepsMeet (fun _ ↦ True) (fun _ _ _ _ _ ↦ trivial)
      (fun s request _ hs ↦ leavesRoom_iff hs request) trivial (Nat.zero_le _) requests
  · apply hcreates
    rw [Nat.one_mul]
    exact Nat.mod_le _ _
  · exact fun n ↦ ⟨room_of_withinLimit memoryMaxMb, hcreates⟩
  · intro more _
    rw [UInt64.le_iff_toNat_le, maxBytes_new, maxBytes_new]
    omega

/-- Two memories of 1 MiB each are granted under a limit of 1 MiB, and a limit of 2 ^ 44 MiB is no
memory at all. -/
theorem memory_exceeds_two :
    ¬ Throughout (MemoryRequest.step (.new 1)) (WithinLimit 1) []
      [.create (2 ^ 20) none true, .create (2 ^ 20) none true] ∧
    ¬ (MemoryLimiter.new (2 ^ 44 - 1)).maxBytes ≤ (MemoryLimiter.new (2 ^ 44)).maxBytes := by
  constructor
  · intro h
    have hrun : run (MemoryRequest.step (.new 1)) []
        [.create (2 ^ 20) none true, .create (2 ^ 20) none true] = some [2 ^ 20, 2 ^ 20] := by
      simp [run_cons_eq_some, MemoryRequest.step, MemoryLimiter.memoryGrowing, maxBytes_new]
    have htotal : WithinLimit 1 [2 ^ 20, 2 ^ 20] := h _ [] rfl _ hrun
    rw [WithinLimit, List.sum_cons, List.sum_singleton] at htotal
    exact absurd htotal (by decide)
  · decide

end PeerDeploy.Execution
