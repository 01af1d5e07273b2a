import PeerDeploy.Supervisor.State

/-!
# What a reconciliation starts

`reconcile_once` compares the number of counted replicas with the wanted one and launches the
difference. It does not look at what the counted replicas run.
-/

namespace PeerDeploy.Supervisor

open PeerDeploy.Common PeerDeploy.Base PeerDeploy.Deploy

/-- The live replicas of a component that are of a kind. -/
def liveWith (s : SupervisorState) (key : String) (kind : Replica → Bool) : Nat :=
  s.replicas.countP fun replica ↦ replica.live && replica.counter == key && kind replica

/-- The live replicas of a component. -/
def liveCount (s : SupervisorState) (key : String) : Nat := liveWith s key fun _ ↦ true

/-- The live replicas of a component that run an artifact. -/
def liveOn (s : SupervisorState) (key path : String) : Nat :=
  liveWith s key fun replica ↦ replica.path == path

/-- What is still to be launched of a component, of which some replicas are counted, among those
that are yet to be visited. -/
def owedIn (running : Nat) (key : String) : List (String × DesiredComponent) → Nat
  | [] => 0
  | (k, component) :: rest =>
    if k = key then wanted component - running else owedIn running key rest

/-- What a reconciliation has still to launch of a component. -/
def owed (s : SupervisorState) (key : String) : Nat :=
  match s.reconcile with
  | none => 0
  | some (.visit rest) => owedIn (s.count key) key rest
  | some (.launch k _ left rest) | some (.register _ k _ left rest) =>
    if k = key then left else owedIn (s.count key) key rest

/-- The components that a reconciliation has in hand or before it. -/
def ReconcilePc.ahead : ReconcilePc → List (String × DesiredComponent)
  | .visit rest => rest
  | .launch key component _ rest | .register _ key component _ rest => (key, component) :: rest

/-- A reconciliation meets each component once, and this one as it is desired. -/
def Ahead (s : SupervisorState) (key : String) (component : DesiredComponent) : Prop :=
  ∀ pc, s.reconcile = some pc →
    (pc.ahead.map Prod.fst).Nodup ∧ ∀ c, (key, c) ∈ pc.ahead → c = component

section Count

/-- Making a counter changes none. -/
theorem count_ensureCount (s : SupervisorState) (key other : String) :
    (s.ensureCount key).count other = s.count other := by
  unfold SupervisorState.ensureCount SupervisorState.count
  rw [Table.getElem?_insert]
  split
  · next heq => rw [← heq, Option.getD_some]
  · rfl

/-- Raising a counter changes no other. -/
theorem count_raise (s : SupervisorState) (key other : String) :
    (s.raise key).count other = s.count other + if key = other then 1 else 0 := by
  unfold SupervisorState.raise SupervisorState.count
  rw [Table.getElem?_insert]
  split
  · next heq => rw [← heq, Option.getD_some]
  · rfl

/-- Of a component that is not ahead nothing is owed. -/
theorem owedIn_eq_zero {key : String} {rest : List (String × DesiredComponent)}
    (h : key ∉ rest.map Prod.fst) (running : Nat) : owedIn running key rest = 0 := by
  induction rest with
  | nil => rfl
  | cons head rest ih =>
    have hhead : head.1 ≠ key := fun he ↦ h (by simp [he])
    have hrest : key ∉ rest.map Prod.fst := fun hin ↦ h (List.mem_cons_of_mem _ hin)
    simp only [owedIn, hhead, if_false, ih hrest]

end Count

/-- What a step of `reconcile_once` can do. -/
inductive AdvanceMoves (dataDir : String) (s : SupervisorState) : SupervisorState → Prop where
  | returned (hpc : s.reconcile = some (.visit [])) :
    AdvanceMoves dataDir s { s with reconcile := none }
  | visited {key : String} {component : DesiredComponent}
    {rest : List (String × DesiredComponent)}
    (hpc : s.reconcile = some (.visit ((key, component) :: rest))) :
    AdvanceMoves dataDir s { s.ensureCount key with
      reconcile := some (.launch key component (wanted component - s.count key) rest) }
  | finished {key : String} {component : DesiredComponent}
    {rest : List (String × DesiredComponent)}
    (hpc : s.reconcile = some (.launch key component 0 rest)) :
    AdvanceMoves dataDir s { s with reconcile := some (.visit rest) }
  | staged {key : String} {component : DesiredComponent} {left : Nat}
    {rest : List (String × DesiredComponent)}
    (hpc : s.reconcile = some (.launch key component (left + 1) rest)) :
    AdvanceMoves dataDir s { s.raise key with
      httpStaged := key :: s.httpStaged
      reconcile := some (.launch key component left rest) }
  | spawned {key : String} {component : DesiredComponent} {left micros : Nat}
    {rest : List (String × DesiredComponent)}
    (hpc : s.reconcile = some (.launch key component (left + 1) rest)) :
    AdvanceMoves dataDir s { s.raise key with
      replicas := s.replicas ++ [replicaOf dataDir key component micros]
      reconcile := some (.register s.replicas.length key component left rest) }
  | registered {id : Nat} {key : String} {component : DesiredComponent} {left : Nat}
    {rest : List (String × DesiredComponent)}
    (hpc : s.reconcile = some (.register id key component left rest)) :
    AdvanceMoves dataDir s { s.keepHandle component.name id with
      reconcile := some (.launch key component left rest) }

/-- Every step of `reconcile_once` is one of these moves. -/
theorem advanceMoves_of_advance {dataDir : String} {s t : SupervisorState} {input : LaunchInput}
    (h : s.advance dataDir input = some t) : AdvanceMoves dataDir s t := by
  unfold SupervisorState.advance at h
  split at h
  · cases h
  · next hpc =>
    cases h
    exact .returned hpc
  · next hpc =>
    cases h
    exact .visited hpc
  · next hpc =>
    cases h
    exact .finished hpc
  · next hpc =>
    simp only [Option.some.injEq] at h
    subst h
    unfold SupervisorState.launchReplica
    split
    · exact .staged hpc
    · exact .spawned hpc
  · next hpc =>
    cases h
    exact .registered hpc

private theorem ahead_of_cons {s t : SupervisorState} {key : String} {component : DesiredComponent}
    (h : Ahead s key component) {pc next : ReconcilePc} (hs : s.reconcile = some pc)
    (ht : t.reconcile = some next) (hsub : next.ahead.Sublist pc.ahead) :
    Ahead t key component := by
  intro pc' hpc'
  rw [ht] at hpc'
  cases hpc'
  obtain ⟨hnodup, hsame⟩ := h pc hs
  exact ⟨hnodup.sublist (hsub.map Prod.fst), fun c hc ↦ hsame c (hsub.subset hc)⟩

/-- A component is met once more at most. -/
theorem ahead_of_moves {dataDir : String} {s t : SupervisorState} {key : String}
    {component : DesiredComponent} (hmoves : AdvanceMoves dataDir s t)
    (h : Ahead s key component) : Ahead t key component := by
  cases hmoves with
  | returned hpc => exact fun pc' hpc' ↦ by cases hpc'
  | visited hpc => exact ahead_of_cons h hpc rfl (List.Sublist.refl _)
  | finished hpc => exact ahead_of_cons h hpc rfl (List.sublist_cons_self _ _)
  | staged hpc => exact ahead_of_cons h hpc rfl (List.Sublist.refl _)
  | spawned hpc => exact ahead_of_cons h hpc rfl (List.Sublist.refl _)
  | registered hpc => exact ahead_of_cons h hpc rfl (List.Sublist.refl _)

/-- What is launched of a component is no longer owed, unless it is staged for HTTP. -/
theorem owed_of_moves {dataDir : String} {s t : SupervisorState} {key : String}
    {component : DesiredComponent} {kind : Replica → Bool}
    (hkind : ∀ micros, kind (replicaOf dataDir key component micros) = true)
    (hmoves : AdvanceMoves dataDir s t) (h : Ahead s key component) :
    key ∈ t.httpStaged ∨ liveWith t key kind + owed t key = liveWith s key kind + owed s key := by
  cases hmoves with
  | returned hpc =>
    refine .inr ?_
    simp only [owed, hpc]
    rfl
  | @visited k c rest hpc =>
    refine .inr ?_
    change liveWith s key kind +
      (if k = key then wanted c - s.count k else owedIn ((s.ensureCount k).count key) key rest) = _
    rw [count_ensureCount]
    simp only [owed, hpc, owedIn]
    split
    · next heq => rw [heq]
    · rfl
  | @finished k c rest hpc =>
    refine .inr ?_
    change liveWith s key kind + owedIn (s.count key) key rest = _
    simp only [owed, hpc]
    split
    · next heq =>
      have hnotin : key ∉ rest.map Prod.fst := by
        have hnodup := (h _ hpc).1
        rw [heq] at hnodup
        exact (List.nodup_cons.mp hnodup).1
      rw [owedIn_eq_zero hnotin]
    · rfl
  | @staged k c left rest hpc =>
    by_cases heq : k = key
    · exact .inl (by rw [heq]; exact List.mem_cons_self)
    · refine .inr ?_
      change liveWith s key kind +
        (if k = key then left else owedIn ((s.raise k).count key) key rest) = _
      rw [count_raise]
      simp only [owed, hpc, heq, if_false, Nat.add_zero]
  | @spawned k c left micros rest hpc =>
    refine .inr ?_
    change (s.replicas ++ [replicaOf dataDir k c micros]).countP _ +
      (if k = key then left else owedIn ((s.raise k).count key) key rest) = _
    rw [List.countP_append]
    change liveWith s key kind + _ + _ = _
    simp only [owed, hpc]
    by_cases heq : k = key
    · have hc : c = component := by
        apply (h _ hpc).2
        rw [heq]
        exact List.mem_cons_self
      subst heq hc
      have hone : [replicaOf dataDir k c micros].countP (fun replica ↦
          replica.live && replica.counter == k && kind replica) = 1 := by
        simp only [List.countP_singleton, hkind, Bool.and_true]
        simp [replicaOf]
      rw [hone, if_pos rfl, if_pos rfl]
      omega
    · rw [count_raise]
      simp [replicaOf, heq]
  | registered hpc =>
    refine .inr ?_
    simp only [owed, hpc]
    rfl

private theorem httpStaged_of_moves {dataDir : String} {s t : SupervisorState} {key : String}
    (hmoves : AdvanceMoves dataDir s t) (h : key ∈ s.httpStaged) : key ∈ t.httpStaged := by
  cases hmoves with
  | staged hpc => exact List.mem_cons_of_mem _ h
  | returned hpc | visited hpc | finished hpc | spawned hpc | registered hpc => exact h

/-- A reconciliation leaves the desired map alone. -/
theorem desired_of_moves {dataDir : String} {s t : SupervisorState}
    (hmoves : AdvanceMoves dataDir s t) : t.desired = s.desired := by
  cases hmoves <;> rfl

/-- The steps of `reconcile_once`, with nothing between them. -/
def advances (inputs : List LaunchInput) : List Event := inputs.map Event.advance

private theorem advance_of_step {dataDir : String} {s t : SupervisorState} {event : Event}
    (hevent : ∃ input, event = .advance input) (h : step dataDir s event = some t) :
    AdvanceMoves dataDir s t := by
  obtain ⟨input, rfl⟩ := hevent
  exact advanceMoves_of_advance h

private theorem stepsMeet_advances (dataDir : String) (s : SupervisorState)
    (inputs : List LaunchInput) :
    StepsMeet (step dataDir) (fun _ event ↦ ∃ input, event = .advance input) s
      (advances inputs) := by
  apply stepsMeet_of_forall
  intro event hin
  obtain ⟨input, -, rfl⟩ := List.mem_map.mp hin
  exact ⟨input, rfl⟩

/-- Undisturbed steps of `reconcile_once` leave the desired map alone. -/
theorem desired_of_advances {dataDir : String} {s u : SupervisorState} {inputs : List LaunchInput}
    (hrun : run (step dataDir) s (advances inputs) = some u) : u.desired = s.desired := by
  have hstep : ∀ t event v, t.desired = s.desired → (∃ input, event = .advance input) →
      step dataDir t event = some v → v.desired = s.desired := by
    intro t event v hinv hevent hv
    exact (desired_of_moves (advance_of_step hevent hv)).trans hinv
  exact run_invariant hstep rfl (stepsMeet_advances dataDir s inputs) hrun

/-- Undisturbed steps of `reconcile_once` keep what was staged for HTTP. -/
theorem httpStaged_of_run {dataDir : String} {s u : SupervisorState} {inputs : List LaunchInput}
    {key : String} (hrun : run (step dataDir) s (.reconcile :: advances inputs) = some u)
    (h : key ∈ s.httpStaged) : key ∈ u.httpStaged := by
  obtain ⟨t, hstart, hrest⟩ := run_cons_eq_some.mp hrun
  have ht : key ∈ t.httpStaged := by
    simp only [step] at hstart
    split at hstart
    · cases hstart
      exact h
    · cases hstart
  have hstep : ∀ t event v, key ∈ t.httpStaged → (∃ input, event = .advance input) →
      step dataDir t event = some v → key ∈ v.httpStaged := by
    intro t event v hinv hevent hv
    exact httpStaged_of_moves (advance_of_step hevent hv) hinv
  exact run_invariant hstep ht (stepsMeet_advances dataDir t inputs) hrest

private theorem nodup_keys (desired : Std.ExtTreeMap String DesiredComponent) :
    (desired.toList.map Prod.fst).Nodup := by
  apply List.pairwise_map.mpr
  apply Std.ExtTreeMap.distinct_keys_toList.imp
  intro x y hxy heq
  exact hxy (Std.compare_eq_iff_eq.mpr heq)

private theorem owedIn_of_mem {key : String} {component : DesiredComponent}
    {list : List (String × DesiredComponent)} (hnodup : (list.map Prod.fst).Nodup)
    (hmem : (key, component) ∈ list) (running : Nat) :
    owedIn running key list = wanted component - running := by
  induction list with
  | nil => cases hmem
  | cons head rest ih =>
    obtain ⟨hhead, hrest⟩ := List.nodup_cons.mp hnodup
    rcases List.mem_cons.mp hmem with heq | hmem
    · rw [← heq, owedIn, if_pos rfl]
    · have hne : head.1 ≠ key := by
        intro he
        exact hhead (by rw [he]; exact List.mem_map.mpr ⟨_, hmem, rfl⟩)
      rw [owedIn, if_neg hne, ih hrest hmem]

-- What runs and what is owed of a component make up a constant, unless it is for HTTP.
private def Owing (key : String) (component : DesiredComponent) (kind : Replica → Bool) (goal : Nat)
    (s : SupervisorState) : Prop :=
  Ahead s key component ∧ (key ∈ s.httpStaged ∨ liveWith s key kind + owed s key = goal)

private theorem owing_step {dataDir key : String} {component : DesiredComponent}
    {kind : Replica → Bool} (hkind : ∀ micros, kind (replicaOf dataDir key component micros) = true)
    {goal : Nat} (s : SupervisorState) (event : Event) (t : SupervisorState)
    (h : Owing key component kind goal s) (hevent : ∃ input, event = .advance input)
    (hstep : step dataDir s event = some t) : Owing key component kind goal t := by
  have hmoves := advance_of_step hevent hstep
  refine ⟨ahead_of_moves hmoves h.1, ?_⟩
  rcases h.2 with hhttp | hgoal
  · exact .inl (httpStaged_of_moves hmoves hhttp)
  · rcases owed_of_moves hkind hmoves h.1 with hhttp | hsame
    · exact .inl hhttp
    · exact .inr (hsame.trans hgoal)

/-- A reconciliation that nothing disturbs launches what is missing of each desired component. -/
theorem liveWith_reconcile {dataDir : String} {s u : SupervisorState} {inputs : List LaunchInput}
    {key : String} {component : DesiredComponent} {kind : Replica → Bool}
    (hkind : ∀ micros, kind (replicaOf dataDir key component micros) = true)
    (hdesired : s.desired[key]? = some component)
    (hrun : run (step dataDir) s (.reconcile :: advances inputs) = some u)
    (hdone : u.reconcile = none) (hhttp : key ∉ u.httpStaged) :
    liveWith u key kind = liveWith s key kind + (wanted component - s.count key) := by
  obtain ⟨t, hstart, hrest⟩ := run_cons_eq_some.mp hrun
  have hmem : (key, component) ∈ s.desired.toList :=
    Std.ExtTreeMap.mem_toList_iff_getElem?_eq_some.mpr hdesired
  simp only [step] at hstart
  split at hstart
  · cases hstart
    have hahead : Ahead { s with reconcile := some (.visit s.desired.toList) } key component := by
      intro pc hpc
      cases hpc
      refine ⟨nodup_keys s.desired, ?_⟩
      intro c hc
      rw [ReconcilePc.ahead, Std.ExtTreeMap.mem_toList_iff_getElem?_eq_some, hdesired] at hc
      exact (Option.some.inj hc).symm
    have hinv : Owing key component kind (liveWith s key kind + (wanted component - s.count key))
        { s with reconcile := some (.visit s.desired.toList) } := by
      refine ⟨hahead, .inr ?_⟩
      change liveWith s key kind + owedIn (s.count key) key s.desired.toList = _
      rw [owedIn_of_mem (nodup_keys s.desired) hmem]
    have hend :=
      (run_invariant (owing_step hkind) hinv (stepsMeet_advances dataDir _ inputs) hrest).2
    rcases hend with hin | heq
    · exact absurd hin hhttp
    · rw [← heq, owed, hdone, Nat.add_zero]
  · cases hstart

/-! ### Updates of a component -/

/-- The events that change the desired map. -/
def Event.updates : Event → Bool
  | .setDesired _ | .upsertComponent _ => true
  | .reconcile | .advance _ | .exit _ | .crash _ | .cleanupComponent _ => false

/-- After an update that gives a component a new artifact, and once a reconciliation in progress
has come to its end, the next one leaves as many replicas on the new artifact as are wanted
if and only if its start finds no more of them counted than already run that artifact, those
beyond the wanted number aside. -/
theorem update_runs_iff {dataDir : String} {events : List Event} {update : Event}
    {finish inputs : List LaunchInput} {s t v u : SupervisorState} {key : String}
    {component : DesiredComponent} (_hreach : run (step dataDir) {} events = some s)
    (_hupdate : update.updates = true) (_hstep : step dataDir s update = some t)
    (hdesired : t.desired[key]? = some component)
    (_hnew : ∀ old, s.desired[key]? = some old → old.path ≠ component.path)
    (hfinish : run (step dataDir) t (advances finish) = some v)
    (hrun : run (step dataDir) v (.reconcile :: advances inputs) = some u)
    (hdone : u.reconcile = none) (hhttp : key ∉ u.httpStaged) :
    wanted component ≤ liveOn u key component.path ↔
      min (wanted component) (v.count key) ≤ liveOn v key component.path := by
  have hv : v.desired[key]? = some component := by
    rw [desired_of_advances hfinish]
    exact hdesired
  have hlive : liveOn u key component.path =
      liveOn v key component.path + (wanted component - v.count key) := by
    apply liveWith_reconcile _ hv hrun hdone hhttp
    intro micros
    simp [replicaOf]
  omega

/-- A component with one replica of the given artifact. -/
def clock (path : String) : DesiredComponent where
  name := "clock"
  path
  spec := { source := "cached:1", sha256Hex := "1" }

/-- A new component on an idle supervisor is started. -/
theorem update_runs_iff_first :
    ∃ u, run (step "/data") {} (.upsertComponent (clock "/a.wasm") :: .reconcile ::
        advances (List.replicate 5 {})) = some u ∧ 1 ≤ liveOn u "clock" "/a.wasm" := by
  have hseen : (run (step "/data") {} (.upsertComponent (clock "/a.wasm") :: .reconcile ::
      advances (List.replicate 5 {}))).map
        (fun u ↦ (u.reconcile.isNone, u.httpStaged)) = some (true, []) := by
    decide
  obtain ⟨u, hrun, hu⟩ := Option.map_eq_some_iff.mp hseen
  obtain ⟨t, ht, hrest⟩ := run_cons_eq_some.mp hrun
  have hdesired : t.desired["clock"]? = some (clock "/a.wasm") := by
    cases ht
    decide
  refine ⟨u, hrun, ?_⟩
  have hreach : run (step "/data") {} [] = some {} := rfl
  have hfinish : run (step "/data") t (advances []) = some t := rfl
  apply (update_runs_iff hreach rfl ht hdesired _ hfinish hrest _ _).mpr
  · cases ht
    decide
  · intro old hold
    cases hold
  · exact Option.isNone_iff_eq_none.mp (Prod.mk.inj hu).1
  · rw [(Prod.mk.inj hu).2]
    exact List.not_mem_nil

-- The component is started, and then pushed again with another artifact.
private def updated : List Event :=
  .upsertComponent (clock "/a.wasm") :: .reconcile :: advances (List.replicate 5 {})

/-- The replica of the old artifact is counted, and the new one is not started. -/
theorem update_not_run :
    ¬ ∀ (dataDir : String) (events : List Event) (update : Event) (finish inputs : List LaunchInput)
      (s t v u : SupervisorState) (key : String) (component : DesiredComponent),
      run (step dataDir) {} events = some s → update.updates = true →
      step dataDir s update = some t → t.desired[key]? = some component →
      (∀ old, s.desired[key]? = some old → old.path ≠ component.path) →
      run (step dataDir) t (advances finish) = some v →
      run (step dataDir) v (.reconcile :: advances inputs) = some u →
      u.reconcile = none → key ∉ u.httpStaged →
        wanted component ≤ liveOn u key component.path := by
  intro hall
  have hseen : (run (step "/data") {} (updated ++ .upsertComponent (clock "/b.wasm") ::
      .reconcile :: advances (List.replicate 3 {}))).map
        (fun u ↦ (u.reconcile.isNone, u.httpStaged, liveOn u "clock" "/b.wasm")) =
          some (true, [], 0) := by
    decide
  obtain ⟨u, hrun, hu⟩ := Option.map_eq_some_iff.mp hseen
  obtain ⟨hdone, hhttp, hlive⟩ : u.reconcile = none ∧ u.httpStaged = [] ∧
      liveOn u "clock" "/b.wasm" = 0 := by
    simpa using hu
  rw [run_append] at hrun
  obtain ⟨s, hs, hrun⟩ := Option.bind_eq_some_iff.mp hrun
  obtain ⟨t, ht, hrest⟩ := run_cons_eq_some.mp hrun
  have hold : (run (step "/data") {} updated).map (fun s ↦ s.desired["clock"]?) =
      some (some (clock "/a.wasm")) := by
    decide
  rw [hs] at hold
  have hdesired : t.desired["clock"]? = some (clock "/b.wasm") := by
    cases ht
    change (s.desired.insert "clock" (clock "/b.wasm"))["clock"]? = _
    rw [Table.getElem?_insert, if_pos rfl]
  have hwanted := hall "/data" updated _ [] (List.replicate 3 {}) s t t u "clock" _ hs rfl ht
    hdesired ?_ rfl hrest hdone (by rw [hhttp]; exact List.not_mem_nil)
  · change 1 ≤ liveOn u "clock" "/b.wasm" at hwanted
    omega
  · intro old hfound
    have hbefore : s.desired["clock"]? = some (clock "/a.wasm") := Option.some.inj hold
    rw [hbefore] at hfound
    cases hfound
    decide

end PeerDeploy.Supervisor
