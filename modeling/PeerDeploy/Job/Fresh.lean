import PeerDeploy.Job.Life
import PeerDeploy.Job.Merge
import Std.Data.String.ToNat

/-!
# The ids that a manager generates

`crates/agent/src/job_manager.rs:105–136`. An id without a caller's choice is the origin, a
hyphen and the counter. The counter is the manager's own; the ids it has to stay clear of also
come from callers (`crates/agent/src/p2p/mod.rs:1136–1147`), from merged records and from the
file.
-/

namespace PeerDeploy.Job

open PeerDeploy.Common PeerDeploy.Base

/-- The id generated for an origin at a counter. -/
def generatedId (origin : String) (n : Nat) : String := s!"{origin}-{n}"

/-- A submission without an id stores its record under the generated one. -/
theorem submitJob_none (s : JobManagerState) (nodeId : String) (spec : JobSpec)
    (originNodeId : Option String) (now : Clock) :
    (s.submitJob nodeId spec originNodeId none now).2 =
      generatedId (originNodeId.getD nodeId) s.nextId := rfl

private theorem append_cons_inj {sep : Char} {xs ys : List Char} :
    ∀ {as bs : List Char}, sep ∉ xs → sep ∉ ys → as ++ sep :: xs = bs ++ sep :: ys →
      as = bs ∧ xs = ys
  | [], [], _, _, h => ⟨rfl, (List.cons.inj h).2⟩
  | [], b :: bs, hxs, _, h => by
    have hin : sep ∈ xs := by
      rw [(List.cons.inj h).2]
      simp
    exact absurd hin hxs
  | a :: as, [], _, hys, h => by
    have hin : sep ∈ ys := by
      rw [← (List.cons.inj h).2]
      simp
    exact absurd hin hys
  | a :: as, b :: bs, hxs, hys, h => by
    obtain ⟨hhead, htail⟩ := List.cons.inj h
    obtain ⟨hfront, hback⟩ := append_cons_inj hxs hys htail
    exact ⟨by rw [hhead, hfront], hback⟩

/-- A generated id has one origin and one number: the last hyphen separates them. -/
theorem generatedId_inj {a b : String} {m n : Nat} :
    generatedId a m = generatedId b n ↔ a = b ∧ m = n := by
  constructor
  · intro h
    have hyphen (k : Nat) : '-' ∉ (Nat.repr k).toList := by
      intro hin
      exact absurd (Text.isDigit_of_mem_repr hin) (by decide)
    have hlist (origin : String) (k : Nat) :
        (generatedId origin k).toList = origin.toList ++ '-' :: (Nat.repr k).toList := by
      show (origin ++ "-" ++ Nat.repr k).toList = _
      simp [String.toList_append]
    have hsplit := congrArg String.toList h
    rw [hlist, hlist] at hsplit
    obtain ⟨horigin, hnumber⟩ := append_cons_inj (hyphen m) (hyphen n) hsplit
    exact ⟨String.toList_inj.mp horigin, Nat.repr_inj.mp (String.toList_inj.mp hnumber)⟩
  · rintro ⟨rfl, rfl⟩
    rfl

/-! ### The property and its condition -/

/-- What a submission without an id gives next: its id is not a key of the store, if it is
made for one of the origins, it is none of those that the manager has generated, which are all
different, and no manager generates it for another origin. -/
def FreshIds (nodeId : String) (origins : Set String) (s : LifeState) : Prop :=
  ∀ spec originNodeId now,
    let id := (s.jobs.submitJob nodeId spec originNodeId none now).2
    (originNodeId.getD nodeId ∈ origins → s.jobs.getJob id = none) ∧
    (id :: s.generated.map Prod.snd).Nodup ∧
    ∀ (other : JobManagerState) nodeId' spec' originNodeId' now',
      originNodeId'.getD nodeId' ≠ originNodeId.getD nodeId →
      (other.submitJob nodeId' spec' originNodeId' none now').2 ≠ id

/-- The id is not one that a counter from `k` on gives to one of the origins. -/
def Below (origins : Set String) (k : Nat) (id : String) : Prop :=
  ∀ origin ∈ origins, ∀ n < 2 ^ 64, id = generatedId origin n → n < k

/-- The event brings no id of the origins that the counter has not passed: not as a caller's
choice, not in a record, and not by a file whose counter is older than the ids generated. The
counter stays in its type. -/
def PassesIds (codec : StoreCodec) (origins : Set String) (s : LifeState) : LifeEvent → Prop
  | .submitJob _ _ (some id) _ => Below origins s.jobs.nextId id
  | .submitJob _ _ none _ => s.jobs.nextId + 1 < 2 ^ 64
  | .syncJob job => Below origins s.jobs.nextId job.id
  | .loadFromDisk => ∀ t, s.file.bind codec.fromStr = some t →
    ∀ origin n, (origin, generatedId origin n) ∈ s.generated → n < t.nextId
  | _ => True

/-! ### The invariant -/

/-- Every key of the store is below its counter. -/
def KeysBelow (origins : Set String) (s : JobManagerState) : Prop :=
  ∀ id, s.getJob id ≠ none → Below origins s.nextId id

/-- The keys of the store and of the file are below their counters, and so are the ids
generated, which are different. -/
structure FreshInv (codec : StoreCodec) (origins : Set String) (s : LifeState) : Prop where
  keys : KeysBelow origins s.jobs
  width : s.jobs.nextId < 2 ^ 64
  saved : ∀ t, s.file.bind codec.fromStr = some t → KeysBelow origins t ∧ t.nextId < 2 ^ 64
  made : ∀ entry ∈ s.generated, ∃ n < s.jobs.nextId, entry.2 = generatedId entry.1 n
  distinct : (s.generated.map Prod.snd).Nodup

private theorem below_succ {origins : Set String} {k : Nat} {id : String}
    (h : Below origins k id) : Below origins (k + 1) id := by
  intro origin horigin n hn hid
  have := h origin horigin n hn hid
  omega

private theorem below_generatedId (origins : Set String) (origin : String) (k : Nat) :
    Below origins (k + 1) (generatedId origin k) := by
  intro other _ n _ hid
  have := (generatedId_inj.mp hid).2
  omega

private theorem keysBelow_putJob {origins : Set String} {s : JobManagerState}
    (h : KeysBelow origins s) {id : String} (hid : Below origins s.nextId id)
    (job : JobInstance) : KeysBelow origins (s.putJob id job) := by
  intro key hkey
  rw [JobManagerState.getJob_putJob] at hkey
  by_cases heq : id = key
  · subst heq
    exact hid
  · rw [if_neg heq] at hkey
    exact h key hkey

private theorem keysBelow_of_keys {origins : Set String} {s t : JobManagerState}
    (h : KeysBelow origins s) (hnext : t.nextId = s.nextId)
    (hkeys : ∀ id, t.getJob id ≠ none → s.getJob id ≠ none) : KeysBelow origins t := by
  intro id hid
  rw [hnext]
  exact h id (hkeys id hid)

private theorem generatedId_not_mem {codec : StoreCodec} {origins : Set String} {s : LifeState}
    (h : FreshInv codec origins s) (origin : String) :
    generatedId origin s.jobs.nextId ∉ s.generated.map Prod.snd := by
  intro hin
  obtain ⟨entry, hentry, heq⟩ := List.mem_map.mp hin
  obtain ⟨n, hn, hmade⟩ := h.made entry hentry
  rw [hmade] at heq
  have := (generatedId_inj.mp heq).2
  omega

private theorem freshIds_of_inv {codec : StoreCodec} (nodeId : String) {origins : Set String}
    {s : LifeState} (h : FreshInv codec origins s) : FreshIds nodeId origins s := by
  intro spec originNodeId now
  rw [submitJob_none]
  refine ⟨?_, ?_, ?_⟩
  · intro horigin
    by_contra hheld
    have := h.keys _ hheld _ horigin s.jobs.nextId h.width rfl
    omega
  · exact List.nodup_cons.mpr ⟨generatedId_not_mem h _, h.distinct⟩
  · intro other nodeId' spec' originNodeId' now' hne heq
    exact hne (generatedId_inj.mp heq).1

private theorem freshInv_jobs {codec : StoreCodec} {origins : Set String} {s : LifeState}
    (h : FreshInv codec origins s) {jobs : JobManagerState}
    (hnext : jobs.nextId = s.jobs.nextId) (hkeys : KeysBelow origins jobs) :
    FreshInv codec origins { s with jobs } := by
  refine ⟨hkeys, ?_, h.saved, ?_, h.distinct⟩
  · show jobs.nextId < 2 ^ 64
    rw [hnext]
    exact h.width
  · show ∀ entry ∈ s.generated, ∃ n < jobs.nextId, _
    rw [hnext]
    exact h.made

private theorem nextId_apply (s : JobManagerState) (now : Clock) (op : ManagerOp) :
    (op.apply s now).nextId = s.nextId := by
  cases op with
  | cancelJob id =>
    show (s.cancelJob id now).1.nextId = s.nextId
    unfold JobManagerState.cancelJob
    split
    · split
      · rfl
      · rfl
    · rfl
  | _ => rfl

private theorem keysBelow_syncJob {origins : Set String} {s : JobManagerState}
    (h : KeysBelow origins s) {job : JobInstance} (hid : Below origins s.nextId job.id) :
    KeysBelow origins (s.syncJob job) := by
  unfold JobManagerState.syncJob
  split
  · split
    · exact keysBelow_putJob h hid job
    · exact h
  · exact keysBelow_putJob h hid job

private theorem getJob_map_ne_none {s : JobManagerState} {change : JobInstance → JobInstance}
    {id : String}
    (h : ({ s with jobs := s.jobs.map fun _ job ↦ change job } : JobManagerState).getJob id ≠
      none) : s.getJob id ≠ none := by
  simp only [JobManagerState.getJob, Std.ExtTreeMap.getElem?_map, ne_eq,
    Option.map_eq_none_iff] at h
  exact h

private theorem freshInv_submit {codec : StoreCodec} {nodeId : String} {origins : Set String}
    {s : LifeState} (h : FreshInv codec origins s) (spec : JobSpec)
    (originNodeId : Option String) (now : Clock) (hwidth : s.jobs.nextId + 1 < 2 ^ 64) :
    FreshInv codec origins (lifeNext codec nodeId s (.submitJob spec originNodeId none now)) := by
  have hkeys : KeysBelow origins { s.jobs with nextId := s.jobs.nextId + 1 } :=
    fun id hid ↦ below_succ (h.keys id hid)
  constructor
  case keys => exact keysBelow_putJob hkeys (below_generatedId origins _ _) _
  case width => exact hwidth
  case saved => exact h.saved
  case made =>
    show ∀ entry ∈ (originNodeId.getD nodeId, generatedId _ s.jobs.nextId) :: s.generated,
      ∃ n < s.jobs.nextId + 1, _
    intro entry hentry
    rcases List.mem_cons.mp hentry with rfl | hentry
    · exact ⟨s.jobs.nextId, Nat.lt_succ_self _, rfl⟩
    · obtain ⟨n, hn, hmade⟩ := h.made entry hentry
      exact ⟨n, Nat.lt_succ_of_lt hn, hmade⟩
  case distinct => exact List.nodup_cons.mpr ⟨generatedId_not_mem h _, h.distinct⟩

private theorem freshInv_step {codec : StoreCodec} (hcodec : codec.Faithful) {nodeId : String}
    {origins : Set String} (s : LifeState) (event : LifeEvent) (t : LifeState)
    (h : FreshInv codec origins s) (hpasses : PassesIds codec origins s event)
    (hstep : lifeStep codec nodeId s event = some t) : FreshInv codec origins t := by
  cases hstep
  cases event with
  | submitJob spec originNodeId jobId now =>
    cases jobId with
    | some id => exact freshInv_jobs h rfl (keysBelow_putJob h.keys hpasses _)
    | none => exact freshInv_submit h spec originNodeId now hpasses
  | call op now =>
    have hnext : (op.apply s.jobs now).nextId = s.jobs.nextId := nextId_apply s.jobs now op
    refine freshInv_jobs h hnext (keysBelow_of_keys h.keys hnext ?_)
    intro id hid
    rw [getJob_apply] at hid
    split at hid
    · exact fun hnone ↦ hid (by rw [hnone]; rfl)
    · exact hid
  | evaluateSchedules calendar =>
    exact freshInv_jobs h rfl (keysBelow_of_keys h.keys rfl fun _ ↦ getJob_map_ne_none)
  | syncJob job =>
    exact freshInv_jobs h (nextId_syncJob s.jobs job) (keysBelow_syncJob h.keys hpasses)
  | saveToDisk order written =>
    refine ⟨h.keys, h.width, ?_, h.made, h.distinct⟩
    intro u hread
    rw [hcodec order s.jobs written u hread]
    exact ⟨h.keys, h.width⟩
  | loadFromDisk =>
    simp only [lifeNext]
    cases hread : s.file.bind codec.fromStr with
    | none => exact h
    | some u =>
      obtain ⟨hkeys, hwidth⟩ := h.saved u hread
      refine ⟨keysBelow_of_keys hkeys rfl fun _ ↦ getJob_map_ne_none, hwidth, h.saved, ?_,
        h.distinct⟩
      intro entry hentry
      obtain ⟨n, -, hmade⟩ := h.made entry hentry
      exact ⟨n, hpasses u hread entry.1 n (by rw [← hmade]; exact hentry), hmade⟩
  | new =>
    have hone : ({} : JobManagerState).nextId < 2 ^ 64 := by decide
    refine ⟨?_, hone, h.saved, ?_, List.nodup_nil⟩
    · intro id hid
      exact absurd (by simp [lifeNext, JobManagerState.getJob]) hid
    · intro entry hentry
      cases hentry

private theorem freshInv_start (codec : StoreCodec) (origins : Set String) :
    FreshInv codec origins {} := by
  refine ⟨?_, by decide, ?_, ?_, List.nodup_nil⟩
  · intro id hid
    exact absurd (by simp [JobManagerState.getJob]) hid
  · intro t hread
    cases hread
  · intro entry hentry
    cases hentry

/-! ### Ids that the counter will come to -/

-- A submission for an origin, whatever it is.
private def submissionFrom (origin : String) : LifeEvent :=
  .submitJob { name := "", runtime := .native "" none [] [] } (some origin) none fun _ ↦ 0

-- If the counter has not passed a number whose id is taken, submissions lead to it.
private theorem collides (codec : StoreCodec) (nodeId : String) {origins : Set String}
    {origin : String} {n : Nat} {s : LifeState} (hn : s.jobs.nextId ≤ n)
    (htaken : origin ∈ origins ∧ s.jobs.getJob (generatedId origin n) ≠ none ∨
      (origin, generatedId origin n) ∈ s.generated) :
    ∃ later, ¬ Throughout (lifeStep codec nodeId) (FreshIds nodeId origins) s later := by
  obtain ⟨k, hk⟩ := Nat.exists_eq_add_of_le hn
  induction k generalizing s with
  | zero =>
    refine ⟨[], fun hfresh ↦ ?_⟩
    have hnext := hfresh [] [] rfl s rfl { name := "", runtime := .native "" none [] [] }
      (some origin) fun _ ↦ 0
    rw [submitJob_none, show s.jobs.nextId = n by omega] at hnext
    obtain ⟨hunused, hnodup, -⟩ := hnext
    rcases htaken with ⟨horigin, hheld⟩ | hmade
    · exact hheld (hunused horigin)
    · exact (List.nodup_cons.mp hnodup).1 (List.mem_map_of_mem (f := Prod.snd) hmade)
  | succ k ih =>
    let t := lifeNext codec nodeId s (submissionFrom origin)
    have hnext : t.jobs.nextId = s.jobs.nextId + 1 := rfl
    have htaken' : origin ∈ origins ∧ t.jobs.getJob (generatedId origin n) ≠ none ∨
        (origin, generatedId origin n) ∈ t.generated := by
      rcases htaken with ⟨horigin, hheld⟩ | hmade
      · refine .inl ⟨horigin, ?_⟩
        show (JobManagerState.putJob { s.jobs with nextId := _ } _ _).getJob _ ≠ none
        rw [JobManagerState.getJob_putJob]
        split
        · exact Option.some_ne_none _
        · exact hheld
      · exact .inr (List.mem_cons_of_mem _ hmade)
    obtain ⟨later, hlater⟩ := ih (by omega) htaken' (by omega)
    refine ⟨submissionFrom origin :: later, fun hfresh ↦ hlater ?_⟩
    exact (throughout_cons.mp hfresh).2 t rfl

private theorem not_throughout_of_not_passes {codec : StoreCodec} {nodeId : String}
    {origins : Set String} {s : LifeState} {event : LifeEvent}
    (hwidth : s.jobs.nextId + 1 < 2 ^ 64) (h : ¬ PassesIds codec origins s event) :
    ∃ later, ¬ Throughout (lifeStep codec nodeId) (FreshIds nodeId origins) s
      (event :: later) := by
  have hcollides : ∀ origin n, (lifeNext codec nodeId s event).jobs.nextId ≤ n →
      (origin ∈ origins ∧ (lifeNext codec nodeId s event).jobs.getJob (generatedId origin n) ≠
        none ∨ (origin, generatedId origin n) ∈ (lifeNext codec nodeId s event).generated) →
      ∃ later, ¬ Throughout (lifeStep codec nodeId) (FreshIds nodeId origins) s
        (event :: later) := by
    intro origin n hn htaken
    obtain ⟨later, hlater⟩ := collides codec nodeId hn htaken
    exact ⟨later, fun hfresh ↦ hlater ((throughout_cons.mp hfresh).2 _ rfl)⟩
  cases event with
  | submitJob spec originNodeId jobId now =>
    cases jobId with
    | some id =>
      simp only [PassesIds, Below, not_forall] at h
      obtain ⟨origin, horigin, n, -, rfl, hn⟩ := h
      refine hcollides origin n (not_lt.mp hn) (.inl ⟨horigin, ?_⟩)
      show (JobManagerState.putJob _ _ _).getJob _ ≠ none
      rw [JobManagerState.getJob_putJob, if_pos rfl]
      exact Option.some_ne_none _
    | none => exact absurd hwidth h
  | syncJob job =>
    simp only [PassesIds, Below, not_forall] at h
    obtain ⟨origin, horigin, n, -, hid, hn⟩ := h
    refine hcollides origin n ?_ (.inl ⟨horigin, ?_⟩)
    · show (s.jobs.syncJob job).nextId ≤ n
      rw [nextId_syncJob]
      exact not_lt.mp hn
    · show (s.jobs.syncJob job).getJob _ ≠ none
      rw [← hid, getJob_syncJob, if_pos rfl]
      obtain ⟨held, hheld, -⟩ := latest_keepLatest JobInstance.updatedAt (s.jobs.getJob job.id) job
      rw [hheld]
      exact Option.some_ne_none held
  | loadFromDisk =>
    simp only [PassesIds, not_forall] at h
    obtain ⟨t, hread, origin, n, hmade, hn⟩ := h
    have hnext : lifeNext codec nodeId s .loadFromDisk =
        { s with jobs := t.loaded nodeId } := by
      simp only [lifeNext, hread]
    rw [hnext] at hcollides
    exact hcollides origin n (not_lt.mp hn) (.inr hmade)
  | _ => exact absurd trivial h

/-- In every state of every run in which no event brings an id that the counter has not passed,
the next id is fresh. Any other event may be followed by submissions that lead to an id which
is not. -/
theorem generated_ids_fresh {codec : StoreCodec} (hcodec : codec.Faithful) (nodeId : String)
    (origins : Set String) :
    (∀ events, StepsMeet (lifeStep codec nodeId) (PassesIds codec origins) {} events →
      Throughout (lifeStep codec nodeId) (FreshIds nodeId origins) {} events) ∧
    ∀ s event, s.jobs.nextId + 1 < 2 ^ 64 → ¬ PassesIds codec origins s event →
      ∃ later, ¬ Throughout (lifeStep codec nodeId) (FreshIds nodeId origins) s
        (event :: later) := by
  constructor
  · intro events hpasses
    exact throughout_of_invariant (freshInv_step hcodec) (fun _ h ↦ freshIds_of_inv nodeId h)
      (freshInv_start codec origins) hpasses
  · intro s event
    exact not_throughout_of_not_passes

/-! ### A record that comes back -/

private def unread : StoreCodec where
  toStringPretty _ _ := []
  fromStr _ := none

private theorem faithful_unread : unread.Faithful := by
  intro order s written t hread
  cases hread

private def backup : JobSpec where
  name := "backup"
  runtime := .native "/bin/backup" none [] []

-- A job is submitted and its file is lost; a new manager starts.
private def lost : List LifeEvent :=
  [.submitJob backup none none fun _ ↦ 100, .saveToDisk [] 0, .new, .loadFromDisk]

/-- The new manager may give the first id again, as no record is left. -/
theorem generated_ids_fresh_lost :
    Throughout (lifeStep unread "node-a") (FreshIds "node-a" Set.univ) {} lost := by
  apply (generated_ids_fresh faithful_unread "node-a" Set.univ).1
  refine ⟨show 1 + 1 < 2 ^ 64 by decide, ?_⟩
  rintro s ⟨rfl⟩
  refine ⟨trivial, ?_⟩
  rintro s ⟨rfl⟩
  refine ⟨trivial, ?_⟩
  rintro s ⟨rfl⟩
  refine ⟨?_, fun _ _ ↦ trivial⟩
  intro t hread
  cases hread

/-- A peer sends the record of the lost job back, and the next submission replaces it. -/
theorem merged_record_replaced :
    ∃ s, run (lifeStep unread "node-a") {}
        (lost ++ [.syncJob (JobManagerState.freshRecord "node-a-1" "node-a" backup fun _ ↦ 100)]) =
      some s ∧ (s.jobs.submitJob "node-a" backup none none fun _ ↦ 200).2 = "node-a-1" ∧
      s.jobs.getJob "node-a-1" ≠ none ∧ ¬ FreshIds "node-a" Set.univ s := by
  refine ⟨_, rfl, rfl, ?_, ?_⟩
  · decide
  · intro hfresh
    have hunused := (hfresh backup none fun _ ↦ 200).1 (Set.mem_univ _)
    revert hunused
    decide

end PeerDeploy.Job
