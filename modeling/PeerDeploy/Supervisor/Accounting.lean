import PeerDeploy.Supervisor.Reconcile

/-!
# Replica accounting

A launch raises a counter and the metric, the normal end of a replica lowers them. A task that is
aborted or panics lowers neither.
-/

namespace PeerDeploy.Supervisor

open PeerDeploy.Common PeerDeploy.Base PeerDeploy.Deploy

/-- The counters of the components that are not for HTTP are the numbers of their live replicas,
and the metric is the sum of the counters. -/
structure Exact (s : SupervisorState) : Prop where
  counters : ∀ key, key ∉ s.httpStaged → s.count key = liveCount s key
  metric : s.componentsRunning = Table.total s.counts

/-- A reconciliation that starts now and that nothing disturbs leaves as many replicas of each
desired component as are wanted. -/
def Restarts (dataDir : String) (s : SupervisorState) : Prop :=
  ∀ key component inputs u, s.desired[key]? = some component →
    run (step dataDir) s (.reconcile :: advances inputs) = some u →
    u.reconcile = none → key ∉ u.httpStaged → wanted component ≤ liveCount u key

/-- The replicas that the event ends without their last lines. -/
def Event.lost (s : SupervisorState) : Event → List Nat
  | .cleanupComponent name => s.tasks[name]?.getD []
  | .crash id => [id]
  | .setDesired _ | .upsertComponent _ | .reconcile | .advance _ | .exit _ => []

/-- A cleanup finds no live replica among the handles, and no live replica panics, those of HTTP
components aside. -/
def LosesNone (s : SupervisorState) (event : Event) : Prop :=
  ∀ id ∈ event.lost s, ∀ replica, s.replicas[id]? = some replica → replica.live = true →
    replica.counter ∈ s.httpStaged

/-- No counter is below the number of live replicas, and the metric is the sum of the counters. -/
structure Bounded (s : SupervisorState) : Prop where
  counters : ∀ key, liveCount s key ≤ s.count key
  metric : s.componentsRunning = Table.total s.counts

/-- A step changes each counter by what it changes in the live replicas, or counts an HTTP
component on top, and the metric with the counters. -/
structure Books (s t : SupervisorState) : Prop where
  bound : ∀ key, s.count key + liveCount t key ≤ t.count key + liveCount s key
  exact : ∀ key, key ∉ t.httpStaged →
    s.count key + liveCount t key = t.count key + liveCount s key
  metric : s.componentsRunning + Table.total t.counts = t.componentsRunning + Table.total s.counts
  staged : ∀ key ∈ s.httpStaged, key ∈ t.httpStaged

namespace Books

variable {s t u : SupervisorState}

/-- Nothing is changed. -/
theorem refl (s : SupervisorState) : Books s s where
  bound _ := Nat.le_refl _
  exact _ _ := rfl
  metric := rfl
  staged _ h := h

/-- Two changes in a row. -/
theorem trans (hst : Books s t) (htu : Books t u) : Books s u where
  bound key := by
    have hfirst := hst.bound key
    have hsecond := htu.bound key
    omega
  exact key hkey := by
    have hfirst := hst.exact key fun hin ↦ hkey (htu.staged key hin)
    have hsecond := htu.exact key hkey
    omega
  metric := by
    have hfirst := hst.metric
    have hsecond := htu.metric
    omega
  staged key h := htu.staged key (hst.staged key h)

end Books

/-- A new counter starts at zero. -/
theorem books_ensureCount (s : SupervisorState) (key : String) : Books s (s.ensureCount key) where
  bound other := by
    rw [count_ensureCount]
    exact Nat.le_refl _
  exact other _ := by
    rw [count_ensureCount]
    rfl
  metric := by
    have htotal := Table.total_insert s.counts key (s.count key)
    simp only [SupervisorState.ensureCount, SupervisorState.count] at htotal ⊢
    omega
  staged _ h := h

/-- New counters start at zero. -/
theorem books_setDesired (s : SupervisorState) (desired : Std.ExtTreeMap String DesiredComponent) :
    Books s (s.setDesired desired) := by
  have hfold : ∀ (keys : List String) (t : SupervisorState),
      Books t (keys.foldl SupervisorState.ensureCount t) := by
    intro keys
    induction keys with
    | nil => exact Books.refl
    | cons key rest ih => exact fun t ↦ (books_ensureCount t key).trans (ih _)
  have hset : Books s { s with desired, componentsDesired := desired.size } :=
    { bound := fun _ ↦ Nat.le_refl _, exact := fun _ _ ↦ rfl, metric := rfl, staged := fun _ h ↦ h }
  exact hset.trans (hfold desired.keys _)

private theorem total_raise (s : SupervisorState) (key : String) :
    Table.total (s.raise key).counts = Table.total s.counts + 1 := by
  have htotal := Table.total_insert s.counts key (s.count key + 1)
  simp only [SupervisorState.raise, SupervisorState.count] at htotal ⊢
  omega

/-- The steps of `reconcile_once` keep the books. -/
theorem books_of_moves {dataDir : String} {s t : SupervisorState}
    (hmoves : AdvanceMoves dataDir s t) : Books s t := by
  cases hmoves with
  | returned hpc | finished hpc | registered hpc =>
    exact { bound := fun _ ↦ Nat.le_refl _, exact := fun _ _ ↦ rfl, metric := rfl,
            staged := fun _ h ↦ h }
  | @visited key component rest hpc =>
    have hbooks := books_ensureCount s key
    exact { bound := hbooks.bound, exact := hbooks.exact, metric := hbooks.metric,
            staged := hbooks.staged }
  | @staged key component left rest hpc =>
    refine { bound := fun other ↦ ?_, exact := fun other hother ↦ ?_, metric := ?_,
             staged := fun _ h ↦ List.mem_cons_of_mem _ h }
    · change _ ≤ (s.raise key).count other + _
      rw [count_raise]
      change s.count other + liveCount s other ≤ _
      omega
    · have hne : key ≠ other := by
        rintro rfl
        exact hother List.mem_cons_self
      change _ = (s.raise key).count other + _
      rw [count_raise, if_neg hne]
      rfl
    · change s.componentsRunning + Table.total (s.raise key).counts = s.componentsRunning + 1 + _
      rw [total_raise]
      omega
  | @spawned key component left micros rest hpc =>
    have hcounts : ∀ other, s.count other + liveCount { s.raise key with
        replicas := s.replicas ++ [replicaOf dataDir key component micros]
        reconcile := some (.register s.replicas.length key component left rest) } other =
          (s.raise key).count other + liveCount s other := by
      intro other
      rw [count_raise]
      change s.count other + (s.replicas ++ [replicaOf dataDir key component micros]).countP _ = _
      rw [List.countP_append, List.countP_singleton]
      change s.count other + (liveCount s other + _) = _
      simp only [replicaOf, Bool.true_and, Bool.and_true, beq_iff_eq]
      omega
    refine { bound := fun other ↦ Nat.le_of_eq (hcounts other),
             exact := fun other _ ↦ hcounts other, metric := ?_, staged := fun _ h ↦ h }
    change s.componentsRunning + Table.total (s.raise key).counts = s.componentsRunning + 1 + _
    rw [total_raise]
    omega

private theorem liveCount_set {s : SupervisorState} {id : Nat} {replica : Replica}
    (hfound : s.replicas[id]? = some replica) (hlive : replica.live = true) (key : String) :
    (s.replicas.set id { replica with live := false }).countP
        (fun r ↦ r.live && r.counter == key && true) +
      (if replica.counter = key then 1 else 0) = liveCount s key := by
  obtain ⟨hid, hget⟩ := List.getElem?_eq_some_iff.mp hfound
  have hone : (if replica.counter = key then 1 else 0) ≤ liveCount s key := by
    split
    · next heq =>
      apply List.countP_pos_iff.mpr
      exact ⟨replica, List.mem_of_getElem? hfound, by simp [hlive, heq]⟩
    · exact Nat.zero_le _
  rw [List.countP_set hid, hget]
  change liveCount s key - _ + _ + _ = _
  simp only [hlive, Bool.true_and, Bool.false_and, Bool.and_true, beq_iff_eq,
    Bool.false_eq_true, if_false]
  omega

/-- The end of a replica keeps the books. -/
theorem books_of_exit {s t : SupervisorState} {id : Nat} (hbounded : Bounded s)
    (h : s.exit id = some t) : Books s t := by
  unfold SupervisorState.exit at h
  split at h
  · cases h
  · next replica hfound =>
    split at h
    · next hlive =>
      cases h
      -- The counter is not zero: the replica is live and the counters are bounded.
      have hcounter : 1 ≤ s.count replica.counter := by
        have hbound := hbounded.counters replica.counter
        have hset := liveCount_set hfound hlive replica.counter
        rw [if_pos rfl] at hset
        omega
      have hcounts : ∀ key, s.count key + (s.replicas.set id { replica with live := false }).countP
          (fun r ↦ r.live && r.counter == key && true) =
            (s.counts.insert replica.counter (s.count replica.counter - 1))[key]?.getD 0 +
              liveCount s key := by
        intro key
        rw [← liveCount_set hfound hlive key, Table.getElem?_insert]
        split
        · next heq =>
          subst heq
          rw [Option.getD_some]
          omega
        · rfl
      refine { bound := fun key ↦ Nat.le_of_eq (hcounts key), exact := fun key _ ↦ hcounts key,
               metric := ?_, staged := fun _ h ↦ h }
      have htotal := Table.total_insert s.counts replica.counter (s.count replica.counter - 1)
      change _ + s.count replica.counter = _ at htotal
      have hmetric := hbounded.metric
      change s.componentsRunning + Table.total (s.counts.insert _ _) = s.componentsRunning - 1 + _
      omega
    · cases h

/-- The event can end replicas without their last lines. -/
def Event.loses : Event → Bool
  | .cleanupComponent _ | .crash _ => true
  | .setDesired _ | .upsertComponent _ | .reconcile | .advance _ | .exit _ => false

/-- Every other event keeps the books. -/
theorem books_of_step {dataDir : String} {s t : SupervisorState} {event : Event}
    (hbounded : Bounded s) (hevent : event.loses = false) (h : step dataDir s event = some t) :
    Books s t := by
  cases event with
  | setDesired desired =>
    cases h
    exact books_setDesired s desired
  | upsertComponent component =>
    cases h
    have hset : Books s { s with
        desired := s.desired.insert component.name component
        componentsDesired := (s.desired.insert component.name component).size } :=
      { bound := fun _ ↦ Nat.le_refl _, exact := fun _ _ ↦ rfl, metric := rfl,
        staged := fun _ h ↦ h }
    exact hset.trans (books_ensureCount _ component.name)
  | reconcile =>
    simp only [step] at h
    split at h
    · cases h
      exact { bound := fun _ ↦ Nat.le_refl _, exact := fun _ _ ↦ rfl, metric := rfl,
              staged := fun _ h ↦ h }
    · cases h
  | advance input => exact books_of_moves (advanceMoves_of_advance h)
  | exit id => exact books_of_exit hbounded h
  | crash id => cases hevent
  | cleanupComponent name => cases hevent

/-! ### Replicas that are lost -/

private theorem countP_abort (key : String) (replicas : List Replica) (hit : Nat → Prop)
    [DecidablePred hit] :
    (replicas.mapIdx fun id replica ↦
        if hit id then { replica with live := false } else replica).countP
          (fun r ↦ r.live && r.counter == key && true) ≤
        replicas.countP (fun r ↦ r.live && r.counter == key && true) ∧
      ((replicas.mapIdx fun id replica ↦
        if hit id then { replica with live := false } else replica).countP
          (fun r ↦ r.live && r.counter == key && true) =
        replicas.countP (fun r ↦ r.live && r.counter == key && true) ↔
        ∀ id replica, replicas[id]? = some replica → hit id → replica.live = true →
          replica.counter ≠ key) := by
  induction replicas generalizing hit with
  | nil => simp
  | cons head rest ih =>
    obtain ⟨hle, heq⟩ := ih fun id ↦ hit (id + 1)
    rw [List.mapIdx_cons, List.countP_cons, List.countP_cons]
    have hsplit : (∀ id replica, (head :: rest)[id]? = some replica → hit id →
        replica.live = true → replica.counter ≠ key) ↔
          (hit 0 → head.live = true → head.counter ≠ key) ∧
            ∀ id replica, rest[id]? = some replica → hit (id + 1) → replica.live = true →
              replica.counter ≠ key := by
      constructor
      · intro h
        exact ⟨h 0 head rfl, fun id replica hid ↦ h (id + 1) replica hid⟩
      · rintro ⟨hhead, hrest⟩ id replica hid
        cases id with
        | zero =>
          cases hid
          exact hhead
        | succ id => exact hrest id replica hid
    rw [hsplit, ← heq]
    by_cases hhit : hit 0
    · simp only [hhit, if_true, Bool.false_and, Bool.false_eq_true, if_false, true_implies]
      by_cases hhead : head.live = true ∧ head.counter = key
      · simp only [hhead.1, hhead.2, Bool.true_and, beq_self_eq_true, if_true]
        constructor
        · omega
        · constructor
          · intro h
            omega
          · intro h
            exact absurd rfl (h.1 trivial)
      · have hfalse : (head.live && head.counter == key && true) = false := by
          simpa using hhead
        rw [hfalse]
        simp only [Bool.false_eq_true, if_false, Nat.add_zero]
        exact ⟨hle, fun h ↦ ⟨fun hl hk ↦ hhead ⟨hl, hk⟩, h⟩, fun h ↦ h.2⟩
    · simp only [hhit, if_false, false_implies, true_and, Nat.add_right_cancel_iff,
        Nat.add_le_add_iff_right]
      exact ⟨hle, trivial⟩

/-- A state that differs from another in the replicas, some of which were aborted, and in the
handles. -/
structure Lost (s t : SupervisorState) (ids : List Nat) : Prop where
  replicas : t.replicas = SupervisorState.abort s.replicas ids
  counts : t.counts = s.counts
  componentsRunning : t.componentsRunning = s.componentsRunning
  httpStaged : t.httpStaged = s.httpStaged

private theorem lost_of_step {dataDir : String} {s t : SupervisorState} {event : Event}
    (hevent : event.loses = true) (h : step dataDir s event = some t) :
    Lost s t (event.lost s) := by
  cases event with
  | cleanupComponent name =>
    cases h
    simp only [Event.lost, SupervisorState.cleanupComponent]
    split
    · next hnone =>
      rw [hnone]
      have hsame : SupervisorState.abort s.replicas [] = s.replicas := by
        apply List.mapIdx_eq_iff.mpr
        simp
      exact ⟨hsame.symm, rfl, rfl, rfl⟩
    · next ids hids =>
      rw [hids]
      exact ⟨rfl, rfl, rfl, rfl⟩
  | crash id =>
    simp only [step, SupervisorState.crash] at h
    split at h
    · cases h
      exact ⟨rfl, rfl, rfl, rfl⟩
    · cases h
  | _ => cases hevent

private theorem step_of_lost (dataDir : String) {s : SupervisorState} {event : Event} {id : Nat}
    {replica : Replica} (hevent : event.loses = true) (hid : id ∈ event.lost s)
    (hfound : s.replicas[id]? = some replica) (hlive : replica.live = true) :
    ∃ t, step dataDir s event = some t := by
  cases event with
  | cleanupComponent name => exact ⟨_, rfl⟩
  | crash other =>
    cases List.mem_singleton.mp hid
    exact ⟨_, if_pos (by simp [hfound, hlive])⟩
  | _ => cases hevent

private theorem liveCount_of_lost {s t : SupervisorState} {ids : List Nat} (h : Lost s t ids)
    (key : String) :
    liveCount t key ≤ liveCount s key ∧
      (liveCount t key = liveCount s key ↔ ∀ id replica, s.replicas[id]? = some replica →
        id ∈ ids → replica.live = true → replica.counter ≠ key) := by
  unfold liveCount liveWith
  rw [h.replicas]
  exact countP_abort key s.replicas fun id ↦ id ∈ ids

/-- The counters stay bounded. -/
theorem bounded_step (dataDir : String) (s : SupervisorState) (event : Event)
    (t : SupervisorState) (h : Bounded s) (hstep : step dataDir s event = some t) :
    Bounded t := by
  by_cases hevent : event.loses = true
  · have hlost := lost_of_step hevent hstep
    constructor
    · intro key
      rw [SupervisorState.count, hlost.counts]
      exact Nat.le_trans (liveCount_of_lost hlost key).1 (h.counters key)
    · rw [hlost.componentsRunning, hlost.counts]
      exact h.metric
  · have hbooks := books_of_step h (Bool.eq_false_iff.mpr hevent) hstep
    constructor
    · intro key
      have hbound := hbooks.bound key
      have hbefore := h.counters key
      omega
    · have hmetric := hbooks.metric
      have hbefore := h.metric
      omega

/-- A step keeps the accounting exact if and only if it loses no live replica. -/
theorem exact_step_iff (dataDir : String) (s : SupervisorState) (event : Event)
    (hbounded : Bounded s) (h : Exact s) :
    LosesNone s event ↔ ∀ t, step dataDir s event = some t → Exact t := by
  by_cases hevent : event.loses = true
  · constructor
    · intro hnone t hstep
      have hlost := lost_of_step hevent hstep
      constructor
      · intro key hkey
        rw [hlost.httpStaged] at hkey
        rw [SupervisorState.count, hlost.counts]
        apply (h.counters key hkey).trans
        apply Eq.symm
        apply (liveCount_of_lost hlost key).2.mpr
        rintro id replica hfound hin hlive rfl
        exact hkey (hnone id hin replica hfound hlive)
      · rw [hlost.componentsRunning, hlost.counts]
        exact h.metric
    · intro hexact id hin replica hfound hlive
      apply Classical.byContradiction
      intro hkey
      obtain ⟨t, hstep⟩ := step_of_lost dataDir hevent hin hfound hlive
      have hlost := lost_of_step hevent hstep
      have hafter := (hexact t hstep).counters replica.counter (by rwa [hlost.httpStaged])
      rw [SupervisorState.count, hlost.counts] at hafter
      have hsame := hafter.symm.trans (h.counters replica.counter hkey)
      have hmissed := (liveCount_of_lost hlost replica.counter).2.mp hsame
      exact hmissed id replica hfound hin hlive rfl
  · apply iff_of_true
    · intro id hin
      cases event with
      | cleanupComponent | crash => exact absurd rfl hevent
      | _ => cases hin
    · intro t hstep
      have hbooks := books_of_step hbounded (Bool.eq_false_iff.mpr hevent) hstep
      refine ⟨?_, (bounded_step dataDir s event t hbounded hstep).metric⟩
      intro key hkey
      have hsame := hbooks.exact key hkey
      have hbefore := h.counters key fun hin ↦ hkey (hbooks.staged key hin)
      omega

/-- With exact counters a reconciliation launches what is missing. -/
theorem restarts_of_exact {dataDir : String} {s : SupervisorState} (h : Exact s) :
    Restarts dataDir s := by
  intro key component inputs u hdesired hrun hdone hhttp
  have hlive : liveCount u key = liveCount s key + (wanted component - s.count key) :=
    liveWith_reconcile (fun _ ↦ rfl) hdesired hrun hdone hhttp
  have hcount := h.counters key fun hin ↦ hhttp (httpStaged_of_run hrun hin)
  omega

/-- The accounting is exact all through a run, and reconciliations restart what has ended, if and
only if no cleanup of the run meets, and no panic ends, a live replica of a component that is not
for HTTP. -/
theorem accounting_exact_iff (dataDir : String) (events : List Event) :
    Throughout (step dataDir) (fun s ↦ Exact s ∧ Restarts dataDir s) {} events ↔
      StepsMeet (step dataDir) LosesNone {} events := by
  have hbounded : Bounded {} := ⟨fun _ ↦ Nat.le_refl _, rfl⟩
  have hexact : Exact {} := ⟨fun _ _ ↦ rfl, rfl⟩
  apply throughout_iff_stepsMeet Bounded (bounded_step dataDir) _ hbounded
  · exact ⟨hexact, restarts_of_exact hexact⟩
  · intro s event hs hP
    rw [exact_step_iff dataDir s event hs hP.1]
    apply forall_congr'
    intro t
    apply imp_congr_right
    intro _
    exact ⟨fun ht ↦ ⟨ht, restarts_of_exact ht⟩, And.left⟩

-- A component is started and cleaned up.
private def cleanedUp : List Event :=
  .upsertComponent (clock "/a.wasm") :: .reconcile :: advances (List.replicate 5 {}) ++
    [.cleanupComponent "clock"]

-- A component is started and its replica panics.
private def crashed : List Event :=
  .upsertComponent (clock "/a.wasm") :: .reconcile :: advances (List.replicate 5 {}) ++ [.crash 0]

private theorem not_restarted {events : List Event}
    (hseen : (run (step "/data") {} (events ++ .reconcile :: advances (List.replicate 3 {}))).map
      (fun u ↦ (u.reconcile.isNone, u.httpStaged, liveCount u "clock")) = some (true, [], 0))
    (hbefore : (run (step "/data") {} events).map
      (fun s ↦ (s.httpStaged, s.count "clock", liveCount s "clock", s.desired["clock"]?)) =
        some ([], 1, 0, some (clock "/a.wasm"))) :
    ∃ s, run (step "/data") {} events = some s ∧ ¬ Exact s ∧ ¬ Restarts "/data" s := by
  obtain ⟨u, hrun, hu⟩ := Option.map_eq_some_iff.mp hseen
  obtain ⟨hdone, hhttp, hlive⟩ : u.reconcile = none ∧ u.httpStaged = [] ∧
      liveCount u "clock" = 0 := by
    simpa using hu
  rw [run_append] at hrun
  obtain ⟨s, hs, hrest⟩ := Option.bind_eq_some_iff.mp hrun
  rw [hs] at hbefore
  obtain ⟨hstaged, hcount, hlive', hdesired⟩ : s.httpStaged = [] ∧ s.count "clock" = 1 ∧
      liveCount s "clock" = 0 ∧ s.desired["clock"]? = some (clock "/a.wasm") := by
    simpa using hbefore
  refine ⟨s, hs, ?_, ?_⟩
  · intro hexact
    have hsame := hexact.counters "clock" (by simp [hstaged])
    omega
  · intro hrestarts
    have hwanted := hrestarts "clock" _ _ u hdesired hrest hdone (by simp [hhttp])
    change 1 ≤ liveCount u "clock" at hwanted
    omega

/-- The replica that is aborted, or that panics, stays counted, and the next reconciliation starts
none. -/
theorem cleaned_not_restarted :
    (∃ s, run (step "/data") {} cleanedUp = some s ∧ ¬ Exact s ∧ ¬ Restarts "/data" s) ∧
      ∃ s, run (step "/data") {} crashed = some s ∧ ¬ Exact s ∧ ¬ Restarts "/data" s := by
  constructor
  · exact not_restarted (by decide) (by decide)
  · exact not_restarted (by decide) (by decide)

end PeerDeploy.Supervisor
