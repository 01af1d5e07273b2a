import PeerDeploy.Base.Simulation
import PeerDeploy.Cluster.Network
import PeerDeploy.Job.Merge

/-!
# Skipping redundant snapshots

The periodic sync compares hashes and does not publish a snapshot that looks like the last one
(`crates/agent/src/p2p/mod.rs:696–717`). Here every pair of nodes has a link that delivers each
snapshot once and in order, at any later time, and the mesh is compared with one whose nodes
publish at every tick.
-/

namespace PeerDeploy.Cluster.Links

open PeerDeploy.Common PeerDeploy.Base PeerDeploy.Job

/-- The nodes, and the snapshots on their way from one to another, first sent first. -/
structure LinkedMesh where
  node : String → Node
  link : String → String → List (List JobInstance)

/-- What can happen. -/
inductive Event where
  | syncTick (n : String) (order : List String)
  /-- The first snapshot of a link arrives. -/
  | deliver (src dst : String)
  /-- Node `n` answers a request, or greets a new connection. -/
  | reply (n : String) (order : List String)
  | change (n : String) (change : LocalChange)

/-- Everything but the deliveries. -/
def Event.shown : Event → Bool
  | .deliver .. => false
  | .syncTick .. | .reply .. | .change .. => true

/-- The records that a command carries. -/
def snapshotOf : Command → Option (List JobInstance)
  | .syncJobs _ jobs => some jobs
  | _ => none

/-- Replace a node and send what it publishes to all others. -/
def LinkedMesh.put (c : LinkedMesh) (n : String) (out : Node × List Command) : LinkedMesh where
  node := Function.update c.node n out.1
  link src dst :=
    if src = n ∧ dst ≠ n then c.link src dst ++ out.2.filterMap snapshotOf else c.link src dst

/-- Leave the rest of a link. -/
def LinkedMesh.relink (c : LinkedMesh) (src dst : String) (rest : List (List JobInstance)) :
    LinkedMesh :=
  { c with link := fun s d ↦ if s = src ∧ d = dst then rest else c.link s d }

/-- The first snapshot of a link is merged. -/
def LinkedMesh.merge (c : LinkedMesh) (src dst : String) (jobs : List JobInstance)
    (rest : List (List JobInstance)) : LinkedMesh :=
  { c.relink src dst rest with
    node := Function.update c.node dst
      { c.node dst with jobs := (c.node dst).jobs.syncJobs jobs } }

/-- One event of a mesh with some periodic sync. -/
def step (tick : String → Node → List String → Node × List Command) (c : LinkedMesh) :
    Event → Option LinkedMesh
  | .syncTick n order =>
    if order.Perm (c.node n).jobs.jobs.keys then some (c.put n (tick n (c.node n) order)) else none
  | .deliver src dst =>
    match c.link src dst with
    | [] => none
    | jobs :: rest => some (c.merge src dst jobs rest)
  | .reply n order =>
    if order.Perm (c.node n).jobs.jobs.keys then
      some (c.put n (c.node n, [.syncJobs n (replySnapshot ((c.node n).jobs.recordsIn order))]))
    else none
  | .change n change =>
    some (c.put n ({ c.node n with jobs := change.apply (c.node n).jobs }, []))

/-- The periodic sync of the agents. -/
def hashingTick (hash : List StateKey → UInt64) (n : String) (node : Node) (order : List String) :
    Node × List Command :=
  node.syncTick hash n order

/-- A periodic sync that publishes whatever there is. -/
def plainTick (n : String) (node : Node) (order : List String) : Node × List Command :=
  let trimmed := tickSnapshot (node.jobs.recordsIn order)
  if trimmed.isEmpty then (node, []) else (node, [.syncJobs n trimmed])

/-- The snapshots hashed are those of a set, and local changes do not set records back. -/
def Ordinary (keys : Set (List StateKey)) (c : LinkedMesh) : Event → Prop
  | .syncTick n order => (tickSnapshot ((c.node n).jobs.recordsIn order)).map stateKey ∈ keys
  | .change n change => ∀ jobId held, (c.node n).jobs.getJob jobId = some held →
    ∃ changed, (change.apply (c.node n).jobs).getJob jobId = some changed ∧
      held.updatedAt ≤ changed.updatedAt
  | .deliver .. | .reply .. => True

/-! ### What a snapshot tells -/

/-- That the record of an id has been updated at some time or later. -/
abbrev Fact := String × Nat

/-- What a store knows. -/
def known (s : JobManagerState) : Set Fact :=
  {fact | ∃ held, s.getJob fact.1 = some held ∧ fact.2 ≤ held.updatedAt}

/-- What a snapshot tells. -/
def tells (jobs : List JobInstance) : Set Fact :=
  {fact | ∃ job ∈ jobs, job.id = fact.1 ∧ fact.2 ≤ job.updatedAt}

/-- What the hashed fields of a snapshot tell. -/
def keysTell (keys : List StateKey) : Set Fact :=
  {fact | ∃ key ∈ keys, key.1 = fact.1 ∧ fact.2 ≤ key.2.2.1}

/-- The keys of records tell what the records tell. -/
theorem keysTell_map (jobs : List JobInstance) : keysTell (jobs.map stateKey) = tells jobs := by
  ext fact
  simp [keysTell, tells, stateKey]

private theorem syncJob_eq_self {s : JobManagerState} {job : JobInstance}
    (h : (job.id, job.updatedAt) ∈ known s) : s.syncJob job = s := by
  obtain ⟨held, hheld, hle⟩ := h
  unfold JobManagerState.syncJob
  simp only [show s.getJob job.id = some held from hheld, if_neg (Nat.not_lt.mpr hle)]

/-- A snapshot that tells nothing new is ignored. -/
theorem syncJobs_eq_self {s : JobManagerState} {jobs : List JobInstance}
    (h : tells jobs ⊆ known s) : s.syncJobs jobs = s := by
  induction jobs with
  | nil => rfl
  | cons job rest ih =>
    have hjob : (job.id, job.updatedAt) ∈ known s :=
      h ⟨job, List.mem_cons_self, rfl, Nat.le_refl _⟩
    have hrest : tells rest ⊆ known s := fun fact ⟨other, hother, hfact⟩ ↦
      h ⟨other, List.mem_cons_of_mem _ hother, hfact⟩
    change (s.syncJob job).syncJobs rest = s
    rw [syncJob_eq_self hjob, ih hrest]

private theorem known_syncJob (s : JobManagerState) (job : JobInstance) :
    known s ∪ tells [job] ⊆ known (s.syncJob job) := by
  rintro fact (⟨held, hheld, hle⟩ | ⟨other, hother, hid, hle⟩)
  · by_cases hsame : job.id = fact.1
    · have hmerged := getJob_syncJob s job fact.1
      rw [if_pos hsame, hheld] at hmerged
      by_cases hlater : held.updatedAt < job.updatedAt
      · exact ⟨job, by rw [hmerged, keepLatest, if_pos hlater], by omega⟩
      · exact ⟨held, by rw [hmerged, keepLatest, if_neg hlater], hle⟩
    · exact ⟨held, by rw [getJob_syncJob, if_neg hsame, hheld], hle⟩
  · rw [List.mem_singleton.mp hother] at hid hle
    have hmerged := getJob_syncJob s job fact.1
    rw [if_pos hid] at hmerged
    cases hheld : s.getJob fact.1 with
    | none =>
      rw [hheld] at hmerged
      exact ⟨job, hmerged, hle⟩
    | some held =>
      rw [hheld] at hmerged
      by_cases hlater : held.updatedAt < job.updatedAt
      · exact ⟨job, by rw [hmerged, keepLatest, if_pos hlater], hle⟩
      · exact ⟨held, by rw [hmerged, keepLatest, if_neg hlater], by omega⟩

/-- What has been told is known. -/
theorem known_syncJobs (s : JobManagerState) (jobs : List JobInstance) :
    known s ∪ tells jobs ⊆ known (s.syncJobs jobs) := by
  induction jobs generalizing s with
  | nil =>
    rintro fact (hknown | ⟨job, hjob, -⟩)
    · exact hknown
    · cases hjob
  | cons job rest ih =>
    have hfirst := known_syncJob s job
    have hrest := ih (s.syncJob job)
    rintro fact (hknown | ⟨other, hother, hfact⟩)
    · exact hrest (.inl (hfirst (.inl hknown)))
    · rcases List.mem_cons.mp hother with rfl | hother
      · exact hrest (.inl (hfirst (.inr ⟨other, List.mem_cons_self, hfact⟩)))
      · exact hrest (.inr ⟨other, hother, hfact⟩)

/-! ### Following the agents -/

/-- The second mesh has the stores of the first one, and on its links some snapshots more that are
redundant. The last snapshot that a node has hashed is known or on its way to everybody. -/
structure Follows (hash : List StateKey → UInt64) (keys : Set (List StateKey))
    (c d : LinkedMesh) : Prop where
  jobs : ∀ n, (d.node n).jobs = (c.node n).jobs
  links : ∀ src dst, Thins tells (known (c.node dst).jobs) (d.link src dst) (c.link src dst)
  sent : ∀ n current, (c.node n).lastJobStateHash = some current →
    ∃ last ∈ keys, hash last = current ∧ ∀ dst, dst ≠ n →
      keysTell last ⊆ knownAfter tells (known (c.node dst).jobs) (c.link n dst)

section Follow

variable {hash : List StateKey → UInt64} {keys : Set (List StateKey)} {c d : LinkedMesh}

private theorem node_put (c : LinkedMesh) (n m : String) (out : Node × List Command) :
    (c.put n out).node m = if m = n then out.1 else c.node m := by
  change Function.update c.node n out.1 m = _
  rw [Function.update_apply]

private theorem node_merge (c : LinkedMesh) (src dst m : String) (jobs : List JobInstance)
    (rest : List (List JobInstance)) :
    ((c.merge src dst jobs rest).node m).jobs =
      if m = dst then (c.node dst).jobs.syncJobs jobs else (c.node m).jobs := by
  change (Function.update c.node dst _ m).jobs = _
  rw [Function.update_apply]
  split <;> rfl

private theorem follows_put (h : Follows hash keys c d) {n : String} {real plain : Node}
    {cmds : List Command} (hjobs : plain.jobs = real.jobs)
    (hknown : known (c.node n).jobs ⊆ known real.jobs)
    (hsent : ∀ current, real.lastJobStateHash = some current →
      (c.node n).lastJobStateHash = some current ∨ ∃ last ∈ keys, hash last = current ∧
        ∀ before, keysTell last ⊆ knownAfter tells before (cmds.filterMap snapshotOf)) :
    Follows hash keys (c.put n (real, cmds)) (d.put n (plain, cmds)) := by
  have hgrows : ∀ m, known (c.node m).jobs ⊆ known ((c.put n (real, cmds)).node m).jobs := by
    intro m
    rw [node_put]
    split
    · next hm =>
      subst hm
      exact hknown
    · exact Set.Subset.refl _
  constructor
  · intro m
    rw [node_put, node_put]
    split
    · exact hjobs
    · exact h.jobs m
  · intro src dst
    have hthin := (h.links src dst).mono (hgrows dst)
    simp only [LinkedMesh.put] at hthin ⊢
    split
    · exact hthin.append _
    · exact hthin
  · intro m current hcurrent
    have hold : (c.node m).lastJobStateHash = some current →
        ∃ last ∈ keys, hash last = current ∧ ∀ dst, dst ≠ m → keysTell last ⊆
          knownAfter tells (known ((c.put n (real, cmds)).node dst).jobs)
            ((c.put n (real, cmds)).link m dst) := by
      intro hbefore
      obtain ⟨last, hlast, hhash, htold⟩ := h.sent m current hbefore
      refine ⟨last, hlast, hhash, fun dst hdst ↦ ?_⟩
      have hstill := (htold dst hdst).trans (knownAfter_mono (hgrows dst) _)
      simp only [LinkedMesh.put] at hstill ⊢
      split
      · rw [knownAfter_append]
        exact hstill.trans (subset_knownAfter _ _)
      · exact hstill
    rw [node_put] at hcurrent
    split at hcurrent
    · next hm =>
      subst hm
      rcases hsent current hcurrent with hbefore | ⟨last, hlast, hhash, htold⟩
      · exact hold hbefore
      · refine ⟨last, hlast, hhash, fun dst hdst ↦ ?_⟩
        have hlink : (c.put m (real, cmds)).link m dst =
            c.link m dst ++ cmds.filterMap snapshotOf := if_pos ⟨rfl, hdst⟩
        rw [hlink, knownAfter_append]
        exact htold _
    · exact hold hcurrent

private theorem put_self (c : LinkedMesh) (n : String) : c.put n (c.node n, []) = c := by
  have hlink : (c.put n (c.node n, [])).link = c.link := by
    funext src dst
    simp [LinkedMesh.put]
  have hnode : (c.put n (c.node n, [])).node = c.node := Function.update_eq_self n c.node
  change LinkedMesh.mk (c.put n (c.node n, [])).node (c.put n (c.node n, [])).link = c
  rw [hlink, hnode]

private theorem follows_skip (h : Follows hash keys c d) {n : String} {jobs : List JobInstance}
    (htold : ∀ dst, dst ≠ n →
      tells jobs ⊆ knownAfter tells (known (c.node dst).jobs) (c.link n dst)) :
    Follows hash keys c (d.put n (d.node n, [.syncJobs n jobs])) where
  jobs m := by
    rw [node_put]
    split
    · next hm =>
      subst hm
      exact h.jobs m
    · exact h.jobs m
  links src dst := by
    simp only [LinkedMesh.put]
    split
    · next hlink =>
      obtain ⟨rfl, hdst⟩ := hlink
      exact (h.links src dst).drop_last (htold dst hdst)
    · exact h.links src dst
  sent := h.sent

private theorem follows_syncTick (hhash : Set.InjOn hash keys) (h : Follows hash keys c d)
    {n : String} {order : List String}
    (hkeys : (tickSnapshot ((c.node n).jobs.recordsIn order)).map stateKey ∈ keys) :
    Follows hash keys (c.put n (hashingTick hash n (c.node n) order))
      (d.put n (plainTick n (d.node n) order)) := by
  unfold hashingTick Node.syncTick plainTick
  rw [h.jobs n]
  by_cases hempty : (tickSnapshot ((c.node n).jobs.recordsIn order)).isEmpty
  · simp only [hempty, true_or, if_true]
    exact follows_put h (h.jobs n) (Set.Subset.refl _) fun current hcurrent ↦ .inl hcurrent
  · simp only [hempty, Bool.false_eq_true, false_or, if_false]
    split
    · next hsame =>
      rw [put_self]
      apply follows_skip h
      intro dst hdst
      obtain ⟨last, hlast, hcurrent, htold⟩ := h.sent n _ hsame
      rw [← keysTell_map, ← hhash hlast hkeys hcurrent]
      exact htold dst hdst
    · refine follows_put h (h.jobs n) (Set.Subset.refl _) ?_
      rintro _ ⟨rfl⟩
      refine .inr ⟨_, hkeys, rfl, fun before ↦ ?_⟩
      rw [keysTell_map]
      exact Set.subset_union_right

private theorem relink_relink (c : LinkedMesh) (src dst : String)
    (rest more : List (List JobInstance)) :
    (c.relink src dst more).relink src dst rest = c.relink src dst rest := by
  simp only [LinkedMesh.relink, LinkedMesh.mk.injEq, true_and]
  funext s t
  split <;> rfl

-- Redundant snapshots at the front of a link can be delivered without any effect.
private theorem run_redundant {front rest : List (List JobInstance)} {src dst : String}
    (tick : String → Node → List String → Node × List Command)
    (hlink : d.link src dst = front ++ rest)
    (hfront : ∀ jobs ∈ front, tells jobs ⊆ known (d.node dst).jobs) :
    run (step tick) d (List.replicate front.length (.deliver src dst)) =
      some (d.relink src dst rest) := by
  induction front generalizing d with
  | nil =>
    have hsame : (d.relink src dst rest).link = d.link := by
      funext s t
      simp only [LinkedMesh.relink]
      split
      · next hst =>
        obtain ⟨rfl, rfl⟩ := hst
        exact hlink.symm
      · rfl
    change some d = some (LinkedMesh.mk d.node (d.relink src dst rest).link)
    rw [hsame]
  | cons jobs front ih =>
    have hignored := syncJobs_eq_self (hfront jobs List.mem_cons_self)
    have hmerge : d.merge src dst jobs (front ++ rest) = d.relink src dst (front ++ rest) := by
      unfold LinkedMesh.merge
      rw [hignored, Function.update_eq_self]
      rfl
    have hstep : step tick d (.deliver src dst) = some (d.relink src dst (front ++ rest)) := by
      simp only [step, hlink, List.cons_append, hmerge]
    have hnext : (d.relink src dst (front ++ rest)).link src dst = front ++ rest :=
      if_pos ⟨rfl, rfl⟩
    have hrest : ∀ other ∈ front, tells other ⊆
        known ((d.relink src dst (front ++ rest)).node dst).jobs := fun other hother ↦
      hfront other (List.mem_cons_of_mem _ hother)
    rw [List.length_cons, List.replicate_succ, run, hstep, Option.bind_some, ih hnext hrest,
      relink_relink]

-- A delivery is followed by those of what is redundant before it, and then by its own.
private theorem follows_deliver (h : Follows hash keys c d) {src dst : String}
    {jobs : List JobInstance} {rest : List (List JobInstance)}
    (hlink : c.link src dst = jobs :: rest) :
    ∃ front d', run (step plainTick) d (List.replicate (front + 1) (.deliver src dst)) = some d' ∧
      Follows hash keys (c.merge src dst jobs rest) d' := by
  have hthin := h.links src dst
  rw [hlink] at hthin
  obtain ⟨front, more, hfull, hfront, hmore⟩ := hthin.exists_front
  rw [← h.jobs dst] at hfront
  refine ⟨front.length, (d.relink src dst (jobs :: more)).merge src dst jobs more, ?_, ?_⟩
  · have hnext : (d.relink src dst (jobs :: more)).link src dst = jobs :: more := if_pos ⟨rfl, rfl⟩
    rw [List.replicate_succ', run_append, run_redundant plainTick hfull hfront, Option.bind_some]
    simp only [run, step, hnext, Option.bind_some]
  · have hgrows : ∀ m, known (c.node m).jobs ⊆ known ((c.merge src dst jobs rest).node m).jobs := by
      intro m
      rw [node_merge]
      split
      · next hm =>
        subst hm
        exact Set.subset_union_left.trans (known_syncJobs _ jobs)
      · exact Set.Subset.refl _
    have htold : known (c.node dst).jobs ∪ tells jobs ⊆
        known ((c.merge src dst jobs rest).node dst).jobs := by
      rw [node_merge, if_pos rfl]
      exact known_syncJobs _ jobs
    constructor
    · intro m
      rw [node_merge, node_merge]
      simp only [LinkedMesh.relink, h.jobs]
    · intro s t
      simp only [LinkedMesh.merge, LinkedMesh.relink]
      by_cases hst : s = src ∧ t = dst
      · obtain ⟨rfl, rfl⟩ := hst
        rw [if_pos ⟨rfl, rfl⟩, if_pos ⟨rfl, rfl⟩]
        exact hmore.mono htold
      · rw [if_neg hst, if_neg hst, if_neg hst]
        exact (h.links s t).mono (hgrows t)
    · intro n current hcurrent
      have hbefore : (c.node n).lastJobStateHash = some current := by
        change (Function.update c.node dst _ n).lastJobStateHash = _ at hcurrent
        rw [Function.update_apply] at hcurrent
        split at hcurrent
        · next hn =>
          rw [hn]
          exact hcurrent
        · exact hcurrent
      obtain ⟨last, hlast, hhash, hsent⟩ := h.sent n current hbefore
      refine ⟨last, hlast, hhash, fun t ht ↦ ?_⟩
      have hstill := hsent t ht
      simp only [LinkedMesh.merge, LinkedMesh.relink]
      by_cases hst : n = src ∧ t = dst
      · obtain ⟨rfl, rfl⟩ := hst
        rw [if_pos ⟨rfl, rfl⟩]
        rw [hlink] at hstill
        exact hstill.trans (knownAfter_mono htold rest)
      · rw [if_neg hst]
        exact hstill.trans (knownAfter_mono (hgrows t) _)

end Follow

/-- Agents that have just started, with empty links. -/
def startLinks (platform : String → String) (roles : String → List String) : LinkedMesh where
  node n := { platform := platform n, roles := roles n }
  link _ _ := []

/-- The agents that skip redundant snapshots have the stores of agents that publish at every tick:
each of their runs is matched by one with the same ticks, replies and changes, in the same order,
that ends with the same stores. -/
theorem skipping_unobservable {hash : List StateKey → UInt64} {keys : Set (List StateKey)}
    (hhash : Set.InjOn hash keys) {platform : String → String} {roles : String → List String}
    {events : List Event} {c : LinkedMesh}
    (hmeets : StepsMeet (step (hashingTick hash)) (Ordinary keys) (startLinks platform roles)
      events)
    (hrun : run (step (hashingTick hash)) (startLinks platform roles) events = some c) :
    ∃ events' d, run (step plainTick) (startLinks platform roles) events' = some d ∧
      (∀ n, (d.node n).jobs = (c.node n).jobs) ∧
        events'.filter Event.shown = events.filter Event.shown := by
  have hstart : Follows hash keys (startLinks platform roles) (startLinks platform roles) :=
    { jobs := fun _ ↦ rfl, links := fun _ _ ↦ .nil _, sent := nofun }
  have hstep : ∀ (c d : LinkedMesh) (event : Event) (c' : LinkedMesh), Follows hash keys c d →
      Ordinary keys c event → step (hashingTick hash) c event = some c' →
      ∃ events' d', run (step plainTick) d events' = some d' ∧ Follows hash keys c' d' ∧
        events'.filter Event.shown = [event].filter Event.shown := by
    intro c d event c' h hordinary hc
    cases event with
    | syncTick n order =>
      simp only [step] at hc
      split at hc
      · next horder =>
        cases hc
        refine ⟨[.syncTick n order], _, ?_, follows_syncTick hhash h hordinary, rfl⟩
        rw [← h.jobs n] at horder
        exact run_cons_eq_some.mpr ⟨_, if_pos horder, rfl⟩
      · cases hc
    | deliver src dst =>
      simp only [step] at hc
      split at hc
      · cases hc
      · next jobs rest hlink =>
        cases hc
        obtain ⟨front, d', hd', hfollows⟩ := follows_deliver h hlink
        refine ⟨_, d', hd', hfollows, ?_⟩
        simp [Event.shown]
    | reply n order =>
      simp only [step] at hc
      split at hc
      · next horder =>
        cases hc
        refine ⟨[.reply n order], d.put n (d.node n,
          [.syncJobs n (replySnapshot ((c.node n).jobs.recordsIn order))]), ?_, ?_, rfl⟩
        · rw [← h.jobs n] at horder ⊢
          exact run_cons_eq_some.mpr ⟨_, if_pos horder, rfl⟩
        · exact follows_put h (h.jobs n) (Set.Subset.refl _) fun current hcurrent ↦ .inl hcurrent
      · cases hc
    | change n change =>
      cases hc
      refine ⟨[.change n change], _, rfl, ?_, rfl⟩
      rw [h.jobs n]
      refine follows_put h rfl ?_ fun current hcurrent ↦ .inl hcurrent
      rintro fact ⟨held, hheld, hle⟩
      obtain ⟨changed, hchanged, hlater⟩ := hordinary fact.1 held hheld
      exact ⟨changed, hchanged, Nat.le_trans hle hlater⟩
  obtain ⟨events', d, hd, hfollows, hshown⟩ := run_simulates hstep hstart hmeets hrun
  exact ⟨events', d, hd, hfollows.jobs, hshown⟩

private def nightly : JobSpec where
  name := "nightly"
  runtime := .native "/bin/backup" none [] []

-- A job is submitted at a node, and the second of its two syncs publishes nothing.
private def skipped : List Event :=
  [.change "a" (.submit "a" nightly none none fun _ ↦ 100), .syncTick "a" ["a-1"],
    .syncTick "a" ["a-1"], .deliver "a" "b"]

/-- The other node has the job, as it would have if the first one had published twice. -/
theorem skipping_unobservable_twice :
    ∃ events c d, run (step (hashingTick fun _ ↦ 0)) (startLinks id fun _ ↦ []) skipped = some c ∧
      run (step plainTick) (startLinks id fun _ ↦ []) events = some d ∧
        (∀ n, (d.node n).jobs = (c.node n).jobs) ∧
          events.filter Event.shown = skipped.filter Event.shown := by
  have hfresh : ∀ jobId held, (({} : JobManagerState)).getJob jobId = some held →
      ∃ changed, ((LocalChange.submit "a" nightly none none fun _ ↦ 100).apply {}).getJob jobId =
        some changed ∧ held.updatedAt ≤ changed.updatedAt := by
    intro jobId held hheld
    simp [JobManagerState.getJob] at hheld
  have hmeets : StepsMeet (step (hashingTick fun _ ↦ 0))
      (Ordinary {[("a-1", .pending, 100, none, none)]}) (startLinks id fun _ ↦ []) skipped := by
    refine ⟨hfresh, ?_⟩
    rintro c ⟨rfl⟩
    refine ⟨rfl, ?_⟩
    rintro c ⟨rfl⟩
    refine ⟨rfl, ?_⟩
    rintro c ⟨rfl⟩
    exact ⟨trivial, fun _ _ ↦ trivial⟩
  obtain ⟨events, d, hd, hjobs, hshown⟩ :=
    skipping_unobservable (Set.injOn_singleton _ _) hmeets rfl
  exact ⟨events, _, d, rfl, hd, hjobs, hshown⟩

end PeerDeploy.Cluster.Links
