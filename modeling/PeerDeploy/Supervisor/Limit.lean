import PeerDeploy.Supervisor.Accounting

/-!
# No more replicas than wanted

Replicas end and the desired state changes while a reconciliation launches what it found missing
some steps before. It still never launches more of a component than somebody has asked for.
-/

namespace PeerDeploy.Supervisor

open PeerDeploy.Common PeerDeploy.Base PeerDeploy.Deploy

/-- The event asks for at most `n` replicas of a component. -/
def WantsAtMost (key : String) (n : Nat) : Event → Prop
  | .setDesired desired => ∀ component, desired[key]? = some component → wanted component ≤ n
  | .upsertComponent component => component.name = key → wanted component ≤ n
  | _ => True

/-- The launches of a component that the reconciliation has decided on and not made yet. -/
def inHand (s : SupervisorState) (key : String) : Nat :=
  match s.reconcile with
  | some (.launch k _ left _) | some (.register _ k _ left _) => if k = key then left else 0
  | some (.visit _) | none => 0

/-- What bounds the replicas of a component: nothing that is desired or yet to be visited wants
more than `n`, and no decided launch will count more. -/
structure Limited (key : String) (n : Nat) (s : SupervisorState) : Prop where
  desired : ∀ component, s.desired[key]? = some component → wanted component ≤ n
  ahead : ∀ pc, s.reconcile = some pc → ∀ component, (key, component) ∈ pc.ahead →
    wanted component ≤ n
  counted : s.count key + inHand s key ≤ n

section Steps

variable {dataDir key : String} {n : Nat} {s t : SupervisorState}

private theorem limited_ensureCounts (keys : List String) (h : Limited key n s) :
    Limited key n (keys.foldl SupervisorState.ensureCount s) := by
  induction keys generalizing s with
  | nil => exact h
  | cons first rest ih =>
    apply ih
    refine { desired := h.desired, ahead := h.ahead, counted := ?_ }
    rw [count_ensureCount]
    exact h.counted

private theorem limited_of_moves (h : Limited key n s) (hmoves : AdvanceMoves dataDir s t) :
    Limited key n t := by
  have hcounted := h.counted
  have hdesired : ∀ c, t.desired[key]? = some c → wanted c ≤ n := by
    rw [desired_of_moves hmoves]
    exact h.desired
  cases hmoves with
  | returned hpc =>
    refine { desired := hdesired, ahead := nofun, counted := ?_ }
    change s.count key + 0 ≤ n
    omega
  | @visited k component rest hpc =>
    refine { desired := hdesired, ahead := ?_, counted := ?_ }
    · rintro pc ⟨rfl⟩ c hc
      exact h.ahead _ hpc c hc
    · -- What is missing now fills up to what is wanted now.
      change (s.ensureCount k).count key + (if k = key then wanted component - s.count k else 0) ≤ n
      rw [count_ensureCount]
      split
      · next heq =>
        subst heq
        have hwanted := h.ahead _ hpc component List.mem_cons_self
        omega
      · omega
  | @finished k component rest hpc =>
    refine { desired := hdesired, ahead := ?_, counted := ?_ }
    · rintro pc ⟨rfl⟩ c hc
      exact h.ahead _ hpc c (List.mem_cons_of_mem _ hc)
    · change s.count key + 0 ≤ n
      omega
  | @staged k component left rest hpc =>
    refine { desired := hdesired, ahead := ?_, counted := ?_ }
    · rintro pc ⟨rfl⟩ c hc
      exact h.ahead _ hpc c hc
    · change (s.raise k).count key + (if k = key then left else 0) ≤ n
      rw [count_raise]
      simp only [inHand, hpc] at hcounted
      split_ifs at hcounted ⊢ <;> omega
  | @spawned k component left micros rest hpc =>
    refine { desired := hdesired, ahead := ?_, counted := ?_ }
    · rintro pc ⟨rfl⟩ c hc
      exact h.ahead _ hpc c hc
    · change (s.raise k).count key + (if k = key then left else 0) ≤ n
      rw [count_raise]
      simp only [inHand, hpc] at hcounted
      split_ifs at hcounted ⊢ <;> omega
  | @registered id k component left rest hpc =>
    refine { desired := hdesired, ahead := ?_, counted := ?_ }
    · rintro pc ⟨rfl⟩ c hc
      exact h.ahead _ hpc c hc
    · simp only [inHand, hpc] at hcounted
      exact hcounted

private theorem limited_exit {id : Nat} (h : Limited key n s) (hexit : s.exit id = some t) :
    Limited key n t := by
  unfold SupervisorState.exit at hexit
  split at hexit
  · cases hexit
  · next replica hfound =>
    split at hexit
    · cases hexit
      refine { desired := h.desired, ahead := h.ahead, counted := ?_ }
      have hless : (s.counts.insert replica.counter (s.count replica.counter - 1))[key]?.getD 0 ≤
          s.count key := by
        rw [Table.getElem?_insert]
        split
        · next heq =>
          subst heq
          exact Nat.sub_le _ _
        · exact Nat.le_refl _
      have hcounted := h.counted
      change _ + inHand s key ≤ n
      exact Nat.le_trans (Nat.add_le_add_right hless _) hcounted
    · cases hexit

private theorem limited_crash {id : Nat} (h : Limited key n s) (hcrash : s.crash id = some t) :
    Limited key n t := by
  unfold SupervisorState.crash at hcrash
  split at hcrash
  · cases hcrash
    exact { desired := h.desired, ahead := h.ahead, counted := h.counted }
  · cases hcrash

private theorem limited_cleanupComponent (h : Limited key n s) (name : String) :
    Limited key n (s.cleanupComponent name) := by
  unfold SupervisorState.cleanupComponent
  split
  · exact h
  · exact { desired := h.desired, ahead := h.ahead, counted := h.counted }

/-- An event that asks for no more keeps the bound. -/
theorem limited_step (event : Event) (h : Limited key n s) (hevent : WantsAtMost key n event)
    (hstep : step dataDir s event = some t) : Limited key n t := by
  cases event with
  | setDesired desired =>
    cases hstep
    apply limited_ensureCounts
    exact { desired := hevent, ahead := h.ahead, counted := h.counted }
  | upsertComponent component =>
    cases hstep
    apply limited_ensureCounts [component.name]
    refine { desired := fun c hc ↦ ?_, ahead := h.ahead, counted := h.counted }
    change (s.desired.insert component.name component)[key]? = some c at hc
    rw [Table.getElem?_insert] at hc
    split at hc
    · next heq =>
      cases hc
      exact hevent heq
    · exact h.desired c hc
  | reconcile =>
    simp only [step] at hstep
    split at hstep
    · next hnone =>
      cases hstep
      refine { desired := h.desired, ahead := ?_, counted := ?_ }
      · rintro pc ⟨rfl⟩ component hcomponent
        exact h.desired component (Std.ExtTreeMap.mem_toList_iff_getElem?_eq_some.mp hcomponent)
      · have hcounted := h.counted
        simp only [inHand, hnone] at hcounted
        exact hcounted
    · cases hstep
  | advance input => exact limited_of_moves h (advanceMoves_of_advance hstep)
  | exit id => exact limited_exit h hstep
  | crash id => exact limited_crash h hstep
  | cleanupComponent name =>
    cases hstep
    exact limited_cleanupComponent h name

end Steps

/-- In every run that asks for at most `n` replicas of a component at any time, at most `n` are
ever counted, and at most `n` are ever alive. -/
theorem replicas_limited (dataDir : String) {key : String} {n : Nat} {events : List Event}
    (hevents : ∀ event ∈ events, WantsAtMost key n event) :
    Throughout (step dataDir) (fun s ↦ liveCount s key ≤ s.count key ∧ s.count key ≤ n) {}
      events := by
  have hlimited : Limited key n {} :=
    { desired := fun component h ↦ by simp at h, ahead := nofun, counted := Nat.zero_le n }
  have hbounded : Bounded {} := ⟨fun _ ↦ Nat.le_refl _, rfl⟩
  have hstep : ∀ s event t, Bounded s ∧ Limited key n s → WantsAtMost key n event →
      step dataDir s event = some t → Bounded t ∧ Limited key n t := fun s event t h hevent ht ↦
    ⟨bounded_step dataDir s event t h.1 ht, limited_step event h.2 hevent ht⟩
  have hmeets : ∀ s, Bounded s ∧ Limited key n s → liveCount s key ≤ s.count key ∧
      s.count key ≤ n := by
    intro s h
    have hcounted := h.2.counted
    exact ⟨h.1.counters key, by omega⟩
  exact throughout_of_invariant (p := fun _ event ↦ WantsAtMost key n event) hstep hmeets
    ⟨hbounded, hlimited⟩ (stepsMeet_of_forall hevents ({} : SupervisorState))

private def pair : DesiredComponent :=
  { clock "/a.wasm" with spec := { (clock "/a.wasm").spec with replicas := some 2 } }

/-- Two replicas are started, one ends, the other panics and is cleaned up, and another
reconciliation runs. -/
theorem replicas_limited_pair :
    Throughout (step "/data")
      (fun s ↦ liveCount s "clock" ≤ s.count "clock" ∧ s.count "clock" ≤ 2) {}
      ([.upsertComponent pair, .reconcile] ++ advances (List.replicate 4 {}) ++
        [.exit 0, .crash 1, .cleanupComponent "clock"] ++ advances (List.replicate 4 {}) ++
        [.reconcile]) := by
  apply replicas_limited
  simp [WantsAtMost, advances, wanted, pair]

end PeerDeploy.Supervisor
