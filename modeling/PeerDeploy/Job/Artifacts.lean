import PeerDeploy.Base.Copies
import PeerDeploy.Job.Manager

/-!
# Capturing and staging artifacts

An executor records what a finished job left behind
(`crates/agent/src/p2p/jobs_native.rs:207–230`, and the same text in `jobs_wasm.rs:179–200` and
`jobs_qemu.rs:203–227`), and `stage_artifacts` copies it into the directory of the job
(`crates/agent/src/job_manager.rs:377–438`).
-/

namespace PeerDeploy.Job

open PeerDeploy.Common PeerDeploy.Base

/-- Where the job manager of an agent works. -/
structure StagingHost where
  /-- The parent of the manager's own directory. -/
  agentDir : String
  /-- The working directory of the process. -/
  cwd : String
  sha256Hex : Bytes → String

/-- What a copy did: the artifact, its position in the list, and the files after it. -/
structure Copied where
  artifact : JobArtifact
  index : Nat
  after : Files

/-- The files and the job store while artifacts are staged. -/
structure Staging where
  files : Files
  jobs : JobManagerState
  /-- Kept for the statements: the copies that succeeded. -/
  copied : List Copied := []

/-- `find` the first artifact of that name and set its digest; `job_manager.rs:412–415`. -/
def recordDigest (name digest : String) : List JobArtifact → List JobArtifact
  | [] => []
  | a :: rest =>
    if a.name = name then { a with sha256Hex := some digest } :: rest
    else a :: recordDigest name digest rest

/-- The record with the digest; `crates/agent/src/job_manager.rs:411–421`. -/
def digestRecord (name digest : String) (now : Nat) (job : JobInstance) : JobInstance :=
  if job.artifacts.any (·.name == name) then
    { job with artifacts := recordDigest name digest job.artifacts, updatedAt := now }
  else job

namespace StagingHost

variable (h : StagingHost)

/-- The file that the process finds under a path. -/
def resolve (path : String) : String := Path.join h.cwd path

/-- The directory of all jobs. -/
def jobsDir : String := Path.join (Path.join h.agentDir "artifacts") "jobs"

/-- `artifacts_dir`; `crates/agent/src/job_manager.rs:384–390`. -/
def artifactsDir (jobId : String) : String := Path.join h.jobsDir jobId

/-- `crates/agent/src/job_manager.rs:429–438`. -/
def getArtifactPath (jobId artifactName : String) : String :=
  Path.join (h.artifactsDir jobId) artifactName

/-- The artifact that an executor records; `crates/agent/src/p2p/jobs_native.rs:211–221`. -/
def captured (files : Files) (art : ArtifactSpec) : JobArtifact where
  name := art.name.getD art.path
  storedPath := art.path
  sizeBytes := match files.readPath (h.resolve art.path) with
    | .ok bytes => some bytes.length
    | .error _ => none
  sha256Hex := none

/-- One artifact of the list; `crates/agent/src/job_manager.rs:393–424`. -/
def stageArtifact (jobId : String) (now : Clock) (s : Staging) (entry : JobArtifact × Nat) :
    Staging :=
  let (artifact, i) := entry
  let stored := h.resolve artifact.storedPath
  match s.files.copy stored (h.resolve (h.getArtifactPath jobId artifact.name)) with
  | .error _ => s
  | .ok files =>
    let s := { s with files, copied := s.copied ++ [⟨artifact, i, files⟩] }
    match files.readPath stored with
    | .error _ => s
    | .ok bytes =>
      { s with
        jobs := s.jobs.updateJob jobId
          (digestRecord artifact.name (h.sha256Hex bytes) (now i)) }

/-- `crates/agent/src/job_manager.rs:378–427`, and its error. -/
def stageArtifacts (files : Files) (jobs : JobManagerState) (jobId : String)
    (artifacts : List JobArtifact) (now : Clock) : Staging × Option String :=
  let (files, error) := files.makeDirs (h.resolve (h.artifactsDir jobId))
  match error with
  | some e => ({ files, jobs }, some e)
  | none => (artifacts.zipIdx.foldl (h.stageArtifact jobId now) { files, jobs }, none)

/-- Record the artifacts of a specification; `crates/agent/src/p2p/jobs_native.rs:209–223`. -/
def addArtifacts (files : Files) (jobs : JobManagerState) (jobId : String)
    (arts : List ArtifactSpec) (now : Clock) : JobManagerState :=
  arts.zipIdx.foldl
    (fun jobs (art, i) ↦ jobs.addJobArtifact jobId (h.captured files art) fun _ ↦ now i) jobs

/-- The end of a successful execution; `crates/agent/src/p2p/jobs_native.rs:207–230`. -/
def captureArtifacts (files : Files) (jobs : JobManagerState) (jobId : String)
    (exec : Option (List ArtifactSpec)) (addNow stageNow : Clock) : Staging :=
  match exec with
  | none => { files, jobs }
  | some arts =>
    let jobs := h.addArtifacts files jobs jobId arts addNow
    match jobs.getJob jobId with
    | some job => (h.stageArtifacts files jobs jobId job.artifacts stageNow).1
    | none => { files, jobs }

/-! ### What staging is to keep -/

/-- The place of the stored file. -/
def storedPlace (a : JobArtifact) : List String := Path.place (h.resolve a.storedPath)

/-- The place that the artifact is copied to. -/
def targetPlace (jobId : String) (a : JobArtifact) : List String :=
  Path.place (h.resolve (h.getArtifactPath jobId a.name))

/-- The path `artifacts/jobs/<job_id>`. -/
def jobDir (jobId : String) : String := h.resolve (h.jobsDir ++ "/" ++ jobId)

/-- The stored files are never changed, files are written below the directory of the job and
directories made on the way there only, and each artifact that was copied is served with its
content and has its digest in the record. -/
structure Preserves (jobId : String) (artifacts : List JobArtifact) (before : Files)
    (s : Staging) : Prop where
  stored : ∀ a ∈ artifacts, ∀ files ∈ s.files :: s.copied.map Copied.after,
    files.fileAt (h.storedPlace a) = before.fileAt (h.storedPlace a)
  below : ∀ c ∈ s.copied,
    Path.Below (Path.place (h.jobDir jobId)) (h.targetPlace jobId c.artifact)
  elsewhere : ∀ place, ¬ Path.Below (Path.place (h.jobDir jobId)) place →
    s.files.fileAt place = before.fileAt place
  made : ∀ place, s.files[place]? = some Entry.dir →
    before[place]? = some Entry.dir ∨ place ∈ Path.stations (h.jobDir jobId)
  served : ∀ c ∈ s.copied, ∃ bytes, before.fileAt (h.storedPlace c.artifact) = some bytes ∧
    s.files.readPath (h.resolve (h.getArtifactPath jobId c.artifact.name)) = .ok bytes ∧
    ∃ job a, s.jobs.getJob jobId = some job ∧ job.artifacts[c.index]? = some a ∧
      a.name = c.artifact.name ∧ a.sha256Hex = some (h.sha256Hex bytes)

/-- The artifact can be copied. -/
def Copyable (jobId : String) (files : Files) (a : JobArtifact) : Prop :=
  Files.Copies files (h.resolve a.storedPath) (h.resolve (h.getArtifactPath jobId a.name))

/-- What the copy leaves in its place. -/
def copyOf (jobId : String) (files : Files) (a : JobArtifact) : Bytes :=
  files.leaves (h.resolve a.storedPath) (h.resolve (h.getArtifactPath jobId a.name))

/-- No artifact before this one has its name. -/
def FirstOfName (artifacts : List JobArtifact) (i : Nat) (a : JobArtifact) : Prop :=
  ∀ j < i, ∀ b, artifacts[j]? = some b → b.name ≠ a.name

/-- The artifacts that can be copied go below the directory of the job, put into the place of a
stored file only what is there, go to one place only with the same content, and are the first ones
of their names or have their digests already. -/
structure Stageable (jobId : String) (artifacts : List JobArtifact) (files : Files) : Prop where
  below : ∀ a ∈ artifacts, h.Copyable jobId files a →
    Path.Below (Path.place (h.jobDir jobId)) (h.targetPlace jobId a)
  sources : ∀ a ∈ artifacts, h.Copyable jobId files a → ∀ b ∈ artifacts,
    h.targetPlace jobId a = h.storedPlace b →
      files.fileAt (h.storedPlace b) = some (h.copyOf jobId files a)
  targets : ∀ a ∈ artifacts, h.Copyable jobId files a → ∀ b ∈ artifacts,
    h.Copyable jobId files b → h.targetPlace jobId a = h.targetPlace jobId b →
      files.fileAt (h.storedPlace a) = files.fileAt (h.storedPlace b)
  digests : ∀ i a, artifacts[i]? = some a → h.Copyable jobId files a →
    FirstOfName artifacts i a ∨
      a.sha256Hex = (files.fileAt (h.storedPlace a)).map h.sha256Hex

/-- The id of the job is no absolute path, or nothing has to be made for it elsewhere; and the
directory cannot be made, or the artifacts are stageable in it. -/
def StagesWell (jobId : String) (artifacts : List JobArtifact) (files : Files) : Prop :=
  let made := files.makeDirs (h.resolve (h.artifactsDir jobId))
  (Path.isAbsolute jobId = false ∨ ∀ place, made.1[place]? = some Entry.dir →
    files[place]? = some Entry.dir ∨ place ∈ Path.stations (h.jobDir jobId)) ∧
  (made.2 ≠ none ∨ h.Stageable jobId artifacts made.1)

/-! ### One artifact -/

section Records

variable {name digest : String} {artifacts : List JobArtifact}

private theorem map_name_recordDigest :
    (recordDigest name digest artifacts).map JobArtifact.name =
      artifacts.map JobArtifact.name := by
  induction artifacts with
  | nil => rfl
  | cons a rest ih =>
    rw [recordDigest]
    split
    · rfl
    · rw [List.map_cons, List.map_cons, ih]

private theorem getElem?_recordDigest {i : Nat} {a : JobArtifact} (ha : artifacts[i]? = some a) :
    (recordDigest name digest artifacts)[i]? =
      some (if a.name = name ∧ ∀ j < i, ∀ b, artifacts[j]? = some b → b.name ≠ name then
        { a with sha256Hex := some digest } else a) := by
  induction artifacts generalizing i with
  | nil => cases ha
  | cons first rest ih =>
    rw [recordDigest]
    by_cases hfirst : first.name = name
    · rw [if_pos hfirst]
      cases i with
      | zero =>
        cases ha
        simp [hfirst]
      | succ i =>
        rw [List.getElem?_cons_succ] at ha ⊢
        rw [ha, if_neg]
        rintro ⟨-, hnone⟩
        exact hnone 0 (Nat.succ_pos i) first rfl hfirst
    · rw [if_neg hfirst]
      cases i with
      | zero =>
        cases ha
        simp [hfirst]
      | succ i =>
        rw [List.getElem?_cons_succ] at ha ⊢
        rw [ih ha]
        congr 2
        apply propext
        apply and_congr_right
        intro _
        constructor
        · intro hnone j hj b hb
          cases j with
          | zero =>
            cases hb
            exact hfirst
          | succ j => exact hnone j (by omega) b (by simpa using hb)
        · intro hnone j hj b hb
          exact hnone (j + 1) (by omega) b (by simpa using hb)

end Records

section Steps

variable {h} {jobId : String}

/-- What cannot be copied is passed over. -/
theorem stageArtifact_of_not_copyable {s : Staging} {a : JobArtifact} (now : Clock)
    (i : Nat)
    (hno : ¬ h.Copyable jobId s.files a) : h.stageArtifact jobId now s (a, i) = s := by
  unfold stageArtifact
  dsimp only
  cases hcopy : s.files.copy (h.resolve a.storedPath)
      (h.resolve (h.getArtifactPath jobId a.name)) with
  | error e => rfl
  | ok next => exact absurd (Files.copy_eq_ok_iff.mp hcopy).1 hno

/-- What can be copied is copied, and the digest of what its source then holds is recorded. -/
theorem stageArtifact_of_copyable {s : Staging} {a : JobArtifact} (now : Clock) (i : Nat)
    (hcan : h.Copyable jobId s.files a) : ∃ next,
      s.files.copy (h.resolve a.storedPath) (h.resolve (h.getArtifactPath jobId a.name)) =
        .ok next ∧
      h.stageArtifact jobId now s (a, i) =
        { files := next
          jobs := s.jobs.updateJob jobId
            (digestRecord a.name (h.sha256Hex (h.copyOf jobId s.files a)) (now i))
          copied := s.copied ++ [⟨a, i, next⟩] } := by
  obtain ⟨next, hcopy⟩ : ∃ next, s.files.copy (h.resolve a.storedPath)
      (h.resolve (h.getArtifactPath jobId a.name)) = .ok next :=
    ⟨_, Files.copy_eq_ok_iff.mpr ⟨hcan, rfl⟩⟩
  refine ⟨next, hcopy, ?_⟩
  have hread : next.readPath (h.resolve a.storedPath) = .ok (h.copyOf jobId s.files a) := by
    rw [Files.readPath_eq_ok_iff]
    refine ⟨fun place hin ↦ (Files.dir_copy hcopy place).mpr (hcan.srcWay place hin), ?_⟩
    rw [Files.fileAt_copy hcopy, copyOf]
    split
    · rfl
    · next hne =>
      rw [Files.leaves, if_neg hne]
      obtain ⟨bytes, hbytes⟩ := Option.isSome_iff_exists.mp hcan.source
      rw [hbytes, Option.getD_some]
  unfold stageArtifact
  dsimp only
  rw [hcopy]
  dsimp only
  rw [hread]

-- The sources of the artifacts are as in the given files, one copy after the other.
private def SourcesKept (h : StagingHost) (artifacts : List JobArtifact) (files : Files)
    (after : Files) : Prop :=
  Files.Alike (artifacts.map h.storedPlace) files after

-- The copy of an artifact puts into the place of a source only what is there.
private def Harmless (h : StagingHost) (jobId : String) (artifacts : List JobArtifact)
    (files : Files) (a : JobArtifact) : Prop :=
  h.Copyable jobId files a → ∀ b ∈ artifacts, h.targetPlace jobId a = h.storedPlace b →
    files.fileAt (h.storedPlace b) = some (h.copyOf jobId files a)

-- What a place holds after some copies.
private def Holds (h : StagingHost) (jobId : String) (files : Files) (s : Staging)
    (place : List String) : Prop :=
  (∃ c ∈ s.copied, h.targetPlace jobId c.artifact = place ∧
    s.files.fileAt place = some (h.copyOf jobId files c.artifact)) ∨
  (∀ c ∈ s.copied, h.targetPlace jobId c.artifact ≠ place) ∧
    s.files.fileAt place = files.fileAt place

-- The record after some copies: only the first artifacts of their names have new digests.
private structure Recorded (h : StagingHost) (jobId : String) (artifacts : List JobArtifact)
    (files : Files) (s : Staging) (record : List JobArtifact) : Prop where
  names : record.map JobArtifact.name = artifacts.map JobArtifact.name
  later : ∀ i a, artifacts[i]? = some a → ¬ FirstOfName artifacts i a → record[i]? = some a
  first : ∀ c ∈ s.copied, FirstOfName artifacts c.index c.artifact →
    ∃ b, record[c.index]? = some b ∧ ∃ c' ∈ s.copied, c'.artifact.name = c.artifact.name ∧
      b.sha256Hex = some (h.sha256Hex (h.copyOf jobId files c'.artifact))

-- Where staging is once the artifacts `done` are behind it.
private structure Reached (h : StagingHost) (jobId : String) (artifacts : List JobArtifact)
    (files : Files) (done : List (JobArtifact × Nat)) (s : Staging) : Prop where
  kept : SourcesKept h artifacts files s.files
  steps : ∀ c ∈ s.copied, SourcesKept h artifacts files c.after
  copied : ∀ a i, (∃ c ∈ s.copied, c.artifact = a ∧ c.index = i) ↔
    (a, i) ∈ done ∧ h.Copyable jobId files a
  holds : ∀ place, Holds h jobId files s place
  record : ∃ job, s.jobs.getJob jobId = some job ∧
    Recorded h jobId artifacts files s job.artifacts

variable {artifacts : List JobArtifact} {files : Files}

private theorem name_of_names {record : List JobArtifact}
    (hnames : record.map JobArtifact.name = artifacts.map JobArtifact.name) {i : Nat}
    {a : JobArtifact} (ha : artifacts[i]? = some a) :
    ∃ b, record[i]? = some b ∧ b.name = a.name := by
  have hi := congrArg (·[i]?) hnames
  simp only [List.getElem?_map, ha, Option.map_some] at hi
  exact Option.map_eq_some_iff.mp hi

private theorem Recorded.step {s : Staging} {record : List JobArtifact}
    (hr : Recorded h jobId artifacts files s record)
    (hindex : ∀ c ∈ s.copied, artifacts[c.index]? = some c.artifact) {a : JobArtifact} {i : Nat}
    (ha : artifacts[i]? = some a) (next : Files) (jobs : JobManagerState) :
    Recorded h jobId artifacts files
      { files := next, jobs, copied := s.copied ++ [⟨a, i, next⟩] }
      (recordDigest a.name (h.sha256Hex (h.copyOf jobId files a)) record) := by
  have hfirst (k : Nat) (b : JobArtifact) (hname : b.name = a.name) :
      (∀ j < k, ∀ b', record[j]? = some b' → b'.name ≠ a.name) ↔ FirstOfName artifacts k b := by
    constructor
    · intro hnone j hj b' hb'
      obtain ⟨b'', hb'', heq⟩ := name_of_names hr.names hb'
      rw [← heq, hname]
      exact hnone j hj b'' hb''
    · intro hnone j hj b' hb'
      obtain ⟨b'', hb'', heq⟩ := name_of_names hr.names.symm hb'
      rw [← heq, ← hname]
      exact hnone j hj b'' hb''
  refine ⟨by rw [map_name_recordDigest, hr.names], ?_, ?_⟩
  · intro k b hb hlater
    rw [getElem?_recordDigest (hr.later k b hb hlater), if_neg]
    rintro ⟨hname, hnone⟩
    exact hlater ((hfirst k b hname).mp hnone)
  · intro c hc hnone
    have hnew : (⟨a, i, next⟩ : Copied) ∈ s.copied ++ [⟨a, i, next⟩] :=
      List.mem_append_right _ List.mem_cons_self
    rcases List.mem_append.mp hc with hc | hc
    · obtain ⟨b, hb, c', hc', hname', hdigest⟩ := hr.first c hc hnone
      obtain ⟨b', hb', hname⟩ := name_of_names hr.names (hindex c hc)
      obtain rfl : b = b' := Option.some.inj (hb.symm.trans hb')
      rw [getElem?_recordDigest hb]
      split
      · next hsame => exact ⟨_, rfl, ⟨a, i, next⟩, hnew, by rw [← hname, hsame.1], rfl⟩
      · exact ⟨b, rfl, c', List.mem_append_left _ hc', hname', hdigest⟩
    · obtain rfl := List.mem_singleton.mp hc
      obtain ⟨b, hb, hname⟩ := name_of_names hr.names ha
      rw [getElem?_recordDigest hb, if_pos ⟨hname, (hfirst i a rfl).mpr hnone⟩]
      exact ⟨_, rfl, ⟨a, i, next⟩, hnew, rfl, rfl⟩

private theorem artifacts_digestRecord {job : JobInstance} {name : String}
    (hin : ∃ b ∈ job.artifacts, b.name = name) (digest : String) (now : Nat) :
    (digestRecord name digest now job).artifacts = recordDigest name digest job.artifacts := by
  obtain ⟨b, hb, hname⟩ := hin
  rw [digestRecord, if_pos]
  rw [List.any_eq_true]
  exact ⟨b, hb, by simp [hname]⟩

private theorem Reached.step (now : Clock) {s : Staging} {done : List (JobArtifact × Nat)}
    (hr : Reached h jobId artifacts files done s) {a : JobArtifact} {i : Nat}
    (ha : artifacts[i]? = some a) (hdone : ∀ e ∈ done, artifacts[e.2]? = some e.1)
    (hharmless : Harmless h jobId artifacts files a) :
    Reached h jobId artifacts files (done ++ [(a, i)]) (h.stageArtifact jobId now s (a, i)) := by
  have hin : a ∈ artifacts := List.mem_of_getElem? ha
  have hplace : h.storedPlace a ∈ artifacts.map h.storedPlace := List.mem_map_of_mem hin
  have hcopyable : h.Copyable jobId s.files a ↔ h.Copyable jobId files a :=
    hr.kept.copies_iff hplace _
  have hcopyOf : h.copyOf jobId s.files a = h.copyOf jobId files a := hr.kept.leaves_eq hplace _
  by_cases hcan : h.Copyable jobId files a
  · obtain ⟨next, hcopy, hstep⟩ := stageArtifact_of_copyable now i (hcopyable.mpr hcan)
    rw [hstep, hcopyOf]
    have hkept : SourcesKept h artifacts files next := by
      apply hr.kept.copy hcopy
      intro htarget
      obtain ⟨b, hb, heq⟩ := List.mem_map.mp htarget
      have hsame := hharmless hcan b hb heq.symm
      rw [heq] at hsame
      exact hsame.trans (congrArg some hcopyOf.symm)
    refine ⟨hkept, ?_, ?_, ?_, ?_⟩
    · intro c hc
      rcases List.mem_append.mp hc with hc | hc
      · exact hr.steps c hc
      · obtain rfl := List.mem_singleton.mp hc
        exact hkept
    · intro b k
      rw [List.mem_append, List.mem_singleton, Prod.mk.injEq]
      constructor
      · rintro ⟨c, hc, rfl, rfl⟩
        rcases List.mem_append.mp hc with hc | hc
        · obtain ⟨hbefore, hb⟩ := (hr.copied _ _).mp ⟨c, hc, rfl, rfl⟩
          exact ⟨.inl hbefore, hb⟩
        · obtain rfl := List.mem_singleton.mp hc
          exact ⟨.inr ⟨rfl, rfl⟩, hcan⟩
      · rintro ⟨hbefore | ⟨rfl, rfl⟩, hb⟩
        · obtain ⟨c, hc, hca, hck⟩ := (hr.copied b k).mpr ⟨hbefore, hb⟩
          exact ⟨c, List.mem_append_left _ hc, hca, hck⟩
        · exact ⟨_, List.mem_append_right _ List.mem_cons_self, rfl, rfl⟩
    · intro place
      have hplaceAt : next.fileAt place = if place = h.targetPlace jobId a then
          some (h.copyOf jobId s.files a) else s.files.fileAt place :=
        Files.fileAt_copy hcopy place
      by_cases htarget : place = h.targetPlace jobId a
      · left
        refine ⟨_, List.mem_append_right _ List.mem_cons_self, htarget.symm, ?_⟩
        rw [if_pos htarget] at hplaceAt
        exact hplaceAt.trans (congrArg some hcopyOf)
      · rw [if_neg htarget] at hplaceAt
        rcases hr.holds place with ⟨c, hc, hcplace, hholds⟩ | ⟨hother, hholds⟩
        · exact .inl ⟨c, List.mem_append_left _ hc, hcplace, hplaceAt.trans hholds⟩
        · refine .inr ⟨?_, hplaceAt.trans hholds⟩
          intro c hc
          rcases List.mem_append.mp hc with hc | hc
          · exact hother c hc
          · obtain rfl := List.mem_singleton.mp hc
            exact Ne.symm htarget
    · obtain ⟨job, hjob, hrecord⟩ := hr.record
      have hindex : ∀ c ∈ s.copied, artifacts[c.index]? = some c.artifact := by
        intro c hc
        exact hdone (c.artifact, c.index) ((hr.copied _ _).mp ⟨c, hc, rfl, rfl⟩).1
      refine ⟨_, by rw [JobManagerState.getJob_updateJob, if_pos rfl, hjob]; rfl, ?_⟩
      obtain ⟨b, hb, hname⟩ := name_of_names hrecord.names ha
      rw [artifacts_digestRecord ⟨b, List.mem_of_getElem? hb, hname⟩]
      exact hrecord.step hindex ha next _
  · rw [stageArtifact_of_not_copyable now i (mt hcopyable.mp hcan)]
    refine ⟨hr.kept, hr.steps, ?_, hr.holds, hr.record⟩
    intro b k
    rw [hr.copied b k, List.mem_append, List.mem_singleton, Prod.mk.injEq]
    constructor
    · rintro ⟨hbk, hb⟩
      exact ⟨.inl hbk, hb⟩
    · rintro ⟨hbk | ⟨rfl, -⟩, hb⟩
      · exact ⟨hbk, hb⟩
      · exact absurd hb hcan

/-! ### The list -/

private theorem copied_stageArtifact (now : Clock) (s : Staging) (e : JobArtifact × Nat) :
    s.copied <+: (h.stageArtifact jobId now s e).copied := by
  by_cases hcan : h.Copyable jobId s.files e.1
  · obtain ⟨next, -, hstep⟩ := stageArtifact_of_copyable now e.2 hcan
    rw [hstep]
    exact List.prefix_append _ _
  · exact ⟨[], by rw [stageArtifact_of_not_copyable now e.2 hcan, List.append_nil]⟩

private theorem copied_foldl (now : Clock) (s : Staging) (rest : List (JobArtifact × Nat)) :
    s.copied <+: (rest.foldl (h.stageArtifact jobId now) s).copied := by
  induction rest generalizing s with
  | nil => exact List.prefix_refl _
  | cons e rest ih => exact (copied_stageArtifact now s e).trans (ih _)

-- As long as each copy is harmless, or the stored files are found to be kept, staging goes through
-- the list as through the files at its start.
private theorem Reached.run (now : Clock) {s : Staging} {done rest : List (JobArtifact × Nat)}
    (hr : Reached h jobId artifacts files done s)
    (hall : ∀ e ∈ done ++ rest, artifacts[e.2]? = some e.1)
    (hsafe : (∀ e ∈ rest, Harmless h jobId artifacts files e.1) ∨
      ∀ c ∈ (rest.foldl (h.stageArtifact jobId now) s).copied, ∀ b ∈ artifacts,
        c.after.fileAt (h.storedPlace b) = files.fileAt (h.storedPlace b)) :
    Reached h jobId artifacts files (done ++ rest) (rest.foldl (h.stageArtifact jobId now) s) ∧
      ∀ e ∈ rest, Harmless h jobId artifacts files e.1 := by
  induction rest generalizing s done with
  | nil => exact ⟨by simpa using hr, by simp⟩
  | cons e rest ih =>
    obtain ⟨a, i⟩ := e
    have ha : artifacts[i]? = some a := hall (a, i) (by simp)
    have hdone : ∀ e ∈ done, artifacts[e.2]? = some e.1 :=
      fun e hin ↦ hall e (List.mem_append_left _ hin)
    have hharmless : Harmless h jobId artifacts files a := by
      rcases hsafe with hsafe | hsafe
      · exact hsafe (a, i) List.mem_cons_self
      · intro hcan b hb htarget
        have hplace : h.storedPlace a ∈ artifacts.map h.storedPlace :=
          List.mem_map_of_mem (List.mem_of_getElem? ha)
        obtain ⟨next, hcopy, hstep⟩ := stageArtifact_of_copyable now i
          ((hr.kept.copies_iff hplace _).mpr hcan)
        have hlogged : (⟨a, i, next⟩ : Copied) ∈
            (((a, i) :: rest).foldl (h.stageArtifact jobId now) s).copied := by
          apply (copied_foldl now (h.stageArtifact jobId now s (a, i)) rest).subset
          rw [hstep]
          exact List.mem_append_right _ List.mem_cons_self
        rw [← hsafe _ hlogged b hb, ← htarget]
        have hat := Files.fileAt_copy hcopy (h.targetPlace jobId a)
        rw [targetPlace, if_pos rfl, hr.kept.leaves_eq hplace] at hat
        exact hat
    have hnext := hr.step now ha hdone hharmless
    obtain ⟨hreached, hrest⟩ := ih hnext (by simpa using hall) (by
      rcases hsafe with hsafe | hsafe
      · exact .inl fun e hin ↦ hsafe e (List.mem_cons_of_mem _ hin)
      · exact .inr hsafe)
    refine ⟨by simpa using hreached, ?_⟩
    intro e hin
    rcases List.mem_cons.mp hin with rfl | hin
    · exact hharmless
    · exact hrest e hin

/-- Making the directories on a path keeps all files and adds none. -/
theorem fileAt_makeDirs (files : Files) (path : String) (place : List String) :
    (files.makeDirs path).1.fileAt place = files.fileAt place := by
  rw [Files.makeDirs_fst, Files.fileAt_createDirs]

-- The directories that are made are on the way to the directory of the job, unless its id is an
-- absolute path.
private theorem made_of_relative (files : Files) {jobId : String}
    (hrel : Path.isAbsolute jobId = false) {place : List String}
    (hdir : (files.makeDirs (h.resolve (h.artifactsDir jobId))).1[place]? = some Entry.dir) :
    files[place]? = some Entry.dir ∨ place ∈ Path.stations (h.jobDir jobId) := by
  have hpath : h.resolve (h.artifactsDir jobId) = h.jobDir jobId := by
    have hlast : h.jobsDir.toList.getLast? = some 's' := Path.getLast?_join _ (by decide)
    rw [jobDir, artifactsDir, Path.join_of_relative hlast (by decide) hrel]
  rw [hpath, Files.makeDirs_fst] at hdir
  rcases Files.createDirs_getElem? files (Files.madeBy (h.jobDir jobId)) place with
    hsame | ⟨hin, -, -⟩
  · exact .inl (hsame ▸ hdir)
  · exact .inr (Files.mem_stations_of_mem_madeBy hin)

private theorem dirs_foldl (now : Clock) (s : Staging) (rest : List (JobArtifact × Nat))
    (place : List String) :
    (rest.foldl (h.stageArtifact jobId now) s).files[place]? = some Entry.dir ↔
      s.files[place]? = some Entry.dir := by
  induction rest generalizing s with
  | nil => rfl
  | cons e rest ih =>
    rw [List.foldl_cons, ih]
    by_cases hcan : h.Copyable jobId s.files e.1
    · obtain ⟨next, hcopy, hstep⟩ := stageArtifact_of_copyable now e.2 hcan
      rw [hstep]
      exact Files.dir_copy hcopy place
    · rw [stageArtifact_of_not_copyable now e.2 hcan]

private theorem preserves_iff (now : Clock) {before : Files} {jobs : JobManagerState}
    {job : JobInstance} (hjob : jobs.getJob jobId = some job)
    (hfiles : ∀ place, files.fileAt place = before.fileAt place)
    (hmade : ∀ place, files[place]? = some Entry.dir →
      before[place]? = some Entry.dir ∨ place ∈ Path.stations (h.jobDir jobId)) :
    h.Preserves jobId job.artifacts before
        (job.artifacts.zipIdx.foldl (h.stageArtifact jobId now) { files, jobs }) ↔
      h.Stageable jobId job.artifacts files := by
  have hstart : Reached h jobId job.artifacts files [] { files, jobs } := by
    refine ⟨Files.Alike.refl _ _, by simp, by simp, fun _ ↦ .inr ⟨by simp, rfl⟩, job, hjob, rfl,
      fun _ _ ha _ ↦ ha, by simp⟩
  have hall : ∀ e ∈ [] ++ job.artifacts.zipIdx, job.artifacts[e.2]? = some e.1 := by
    rintro ⟨a, i⟩ hin
    exact List.mem_zipIdx_iff_getElem?.mp hin
  have hrun := hstart.run now hall
  generalize job.artifacts.zipIdx.foldl (h.stageArtifact jobId now) { files, jobs } = s at hrun ⊢
  rw [List.nil_append] at hrun
  have hlist {a : JobArtifact} (ha : a ∈ job.artifacts) :
      ∃ i, (a, i) ∈ job.artifacts.zipIdx := by
    obtain ⟨i, hi⟩ := List.mem_iff_getElem?.mp ha
    exact ⟨i, List.mem_zipIdx_iff_getElem?.mpr hi⟩
  constructor
  · intro hp
    obtain ⟨hr, hharmless⟩ := hrun (.inr fun c hc b hb ↦ by
      rw [hfiles]
      exact hp.stored b hb c.after (List.mem_cons_of_mem _ (List.mem_map_of_mem hc)))
    have hcopied {a : JobArtifact} {i : Nat} (hi : job.artifacts[i]? = some a)
        (hcan : h.Copyable jobId files a) : ∃ c ∈ s.copied, c.artifact = a ∧ c.index = i :=
      (hr.copied a i).mpr ⟨List.mem_zipIdx_iff_getElem?.mpr hi, hcan⟩
    -- each artifact that can be copied is served with the content that its source had
    have hserved {a : JobArtifact} {i : Nat} (hi : job.artifacts[i]? = some a)
        (hcan : h.Copyable jobId files a) : ∃ bytes,
          files.fileAt (h.storedPlace a) = some bytes ∧
          s.files.fileAt (h.targetPlace jobId a) = some bytes ∧
          ∃ job' b, s.jobs.getJob jobId = some job' ∧ job'.artifacts[i]? = some b ∧
            b.sha256Hex = some (h.sha256Hex bytes) := by
      obtain ⟨c, hc, rfl, rfl⟩ := hcopied hi hcan
      obtain ⟨bytes, hbytes, hread, job', b, hjob', hb, -, hdigest⟩ := hp.served c hc
      exact ⟨bytes, (hfiles _).trans hbytes, (Files.readPath_eq_ok_iff.mp hread).2, job', b, hjob',
        hb, hdigest⟩
    refine ⟨?_, ?_, ?_, ?_⟩
    · intro a ha hcan
      obtain ⟨i, hi⟩ := List.mem_iff_getElem?.mp ha
      obtain ⟨c, hc, rfl, -⟩ := hcopied hi hcan
      exact hp.below c hc
    · intro a ha hcan
      obtain ⟨i, hi⟩ := hlist ha
      exact hharmless (a, i) hi hcan
    · intro a ha hcan b hb hcan' hsame
      obtain ⟨i, hi⟩ := List.mem_iff_getElem?.mp ha
      obtain ⟨j, hj⟩ := List.mem_iff_getElem?.mp hb
      obtain ⟨bytes, hbytes, htarget, -⟩ := hserved hi hcan
      obtain ⟨bytes', hbytes', htarget', -⟩ := hserved hj hcan'
      rw [hsame, htarget'] at htarget
      rw [hbytes, hbytes', htarget]
    · intro i a hi hcan
      by_cases hfirst : FirstOfName job.artifacts i a
      · exact .inl hfirst
      · obtain ⟨bytes, hbytes, -, job', b, hjob', hb, hdigest⟩ := hserved hi hcan
        obtain ⟨record, hrecord, hr'⟩ := hr.record
        obtain rfl : job' = record := Option.some.inj (hjob'.symm.trans hrecord)
        obtain rfl : b = a := Option.some.inj (hb.symm.trans (hr'.later i a hi hfirst))
        exact .inr (by rw [hdigest, hbytes, Option.map_some])
  · intro hst
    obtain ⟨hr, -⟩ := hrun (.inl fun e hin ↦ fun hcan ↦
      hst.sources e.1 (List.mem_of_getElem? (List.mem_zipIdx_iff_getElem?.mp hin)) hcan)
    have hcopied {c : Copied} (hc : c ∈ s.copied) :
        job.artifacts[c.index]? = some c.artifact ∧ h.Copyable jobId files c.artifact := by
      obtain ⟨hin, hcan⟩ := (hr.copied _ _).mp ⟨c, hc, rfl, rfl⟩
      exact ⟨List.mem_zipIdx_iff_getElem?.mp hin, hcan⟩
    have hmem {c : Copied} (hc : c ∈ s.copied) : c.artifact ∈ job.artifacts :=
      List.mem_of_getElem? (hcopied hc).1
    -- all copies to one place leave the content of each of their sources
    have hsame {c c' : Copied} (hc : c ∈ s.copied) (hc' : c' ∈ s.copied)
        (htarget : h.targetPlace jobId c'.artifact = h.targetPlace jobId c.artifact) :
        files.fileAt (h.storedPlace c.artifact) = some (h.copyOf jobId files c'.artifact) := by
      rw [← hst.targets _ (hmem hc') (hcopied hc').2 _ (hmem hc) (hcopied hc).2 htarget]
      by_cases hself : h.targetPlace jobId c'.artifact = h.storedPlace c'.artifact
      · exact hst.sources _ (hmem hc') (hcopied hc').2 _ (hmem hc') hself
      · obtain ⟨bytes, hbytes⟩ := Option.isSome_iff_exists.mp (hcopied hc').2.source
        have hleaves : h.copyOf jobId files c'.artifact = bytes := by
          rw [copyOf, Files.leaves, if_neg fun heq ↦ hself heq.symm, hbytes, Option.getD_some]
        rw [hleaves]
        exact hbytes
    refine ⟨?_, ?_, ?_, ?_, ?_⟩
    · intro a ha after hin
      have hplace : h.storedPlace a ∈ job.artifacts.map h.storedPlace := List.mem_map_of_mem ha
      rw [← hfiles]
      rcases List.mem_cons.mp hin with rfl | hin
      · exact hr.kept.kept _ hplace
      · obtain ⟨c, hc, rfl⟩ := List.mem_map.mp hin
        exact (hr.steps c hc).kept _ hplace
    · intro c hc
      exact hst.below _ (hmem hc) (hcopied hc).2
    · intro place hplace
      rcases hr.holds place with ⟨c, hc, rfl, -⟩ | ⟨-, hholds⟩
      · exact absurd (hst.below _ (hmem hc) (hcopied hc).2) hplace
      · rw [hholds, hfiles]
    · intro place hdir
      exact hmade place ((hr.kept.dirs place).mp hdir)
    · intro c hc
      obtain ⟨hi, hcan⟩ := hcopied hc
      obtain ⟨bytes, hbytes⟩ := Option.isSome_iff_exists.mp hcan.source
      refine ⟨bytes, (hfiles _).symm.trans hbytes, ?_, ?_⟩
      · rw [Files.readPath_eq_ok_iff]
        refine ⟨fun place hin ↦ (hr.kept.dirs place).mpr (hcan.dstWay place hin), ?_⟩
        rcases hr.holds (h.targetPlace jobId c.artifact) with ⟨c', hc', htarget, hholds⟩ | ⟨hno, -⟩
        · rw [← hbytes]
          exact hholds.trans (hsame hc hc' htarget).symm
        · exact absurd rfl (hno c hc)
      · obtain ⟨record, hrecord, hr'⟩ := hr.record
        obtain ⟨b, hb, hname⟩ := name_of_names hr'.names hi
        refine ⟨record, b, hrecord, hb, hname, ?_⟩
        by_cases hfirst : FirstOfName job.artifacts c.index c.artifact
        · obtain ⟨b', hb', c', hc', hname', hdigest⟩ := hr'.first c hc hfirst
          obtain rfl : b = b' := Option.some.inj (hb.symm.trans hb')
          have htarget : h.targetPlace jobId c'.artifact = h.targetPlace jobId c.artifact := by
            rw [targetPlace, hname']
            rfl
          have hcontent := (hsame hc hc' htarget).symm.trans hbytes
          rw [hdigest, Option.some.inj hcontent]
        · have hprior := (hst.digests _ _ hi hcan).resolve_left hfirst
          rw [Option.some.inj (hb.symm.trans (hr'.later _ _ hi hfirst)), hprior]
          exact congrArg (Option.map h.sha256Hex) hbytes

private theorem stageArtifacts_preserves_iff (now : Clock) (files : Files)
    {jobs : JobManagerState} {job : JobInstance} (hjob : jobs.getJob jobId = some job) :
    h.Preserves jobId job.artifacts files
        (h.stageArtifacts files jobs jobId job.artifacts now).1 ↔
      h.StagesWell jobId job.artifacts files := by
  have hfiles := fileAt_makeDirs files (h.resolve (h.artifactsDir jobId))
  have hrel (hrel : Path.isAbsolute jobId = false) (place : List String)
      (hdir : (files.makeDirs (h.resolve (h.artifactsDir jobId))).1[place]? = some Entry.dir) :=
    made_of_relative files hrel hdir
  unfold stageArtifacts StagesWell
  dsimp only
  generalize files.makeDirs (h.resolve (h.artifactsDir jobId)) = made at hfiles hrel ⊢
  obtain ⟨made, error⟩ := made
  dsimp only at hfiles hrel ⊢
  have hmade : (Path.isAbsolute jobId = false ∨ ∀ place, made[place]? = some Entry.dir →
      files[place]? = some Entry.dir ∨ place ∈ Path.stations (h.jobDir jobId)) ↔
        ∀ place, made[place]? = some Entry.dir →
          files[place]? = some Entry.dir ∨ place ∈ Path.stations (h.jobDir jobId) := by
    constructor
    · rintro (habs | hmade)
      · exact hrel habs
      · exact hmade
    · exact .inr
  rw [hmade]
  cases error with
  | some e =>
    constructor
    · intro hp
      exact ⟨hp.made, .inl (by simp)⟩
    · rintro ⟨hmade, -⟩
      exact ⟨fun a _ after hin ↦ by obtain rfl := List.mem_singleton.mp hin; exact hfiles _,
        by simp, fun place _ ↦ hfiles place, hmade, by simp⟩
  | none =>
    have hdirs (place : List String) :
        (job.artifacts.zipIdx.foldl (h.stageArtifact jobId now)
          { files := made, jobs }).files[place]? = some Entry.dir ↔
            made[place]? = some Entry.dir :=
      dirs_foldl now { files := made, jobs } job.artifacts.zipIdx place
    constructor
    · intro hp
      have hmade := fun place hdir ↦ hp.made place ((hdirs place).mpr hdir)
      exact ⟨hmade, .inr ((preserves_iff now hjob hfiles hmade).mp hp)⟩
    · rintro ⟨hmade, hst⟩
      exact (preserves_iff now hjob hfiles hmade).mpr (hst.resolve_left (by simp))

private theorem getJob_addArtifacts (files : Files) (now : Clock) (arts : List ArtifactSpec)
    {jobs : JobManagerState} {job : JobInstance} (hjob : jobs.getJob jobId = some job) :
    ∃ job', (h.addArtifacts files jobs jobId arts now).getJob jobId = some job' ∧
      job'.artifacts = job.artifacts ++ arts.map (h.captured files) := by
  unfold addArtifacts
  generalize 0 = start
  induction arts generalizing jobs job start with
  | nil => exact ⟨job, hjob, by simp⟩
  | cons art rest ih =>
    have hnext : (jobs.addJobArtifact jobId (h.captured files art) fun _ ↦ now start).getJob jobId =
        some (artifactRecord (h.captured files art) (fun _ ↦ now start) job) := by
      rw [JobManagerState.addJobArtifact, JobManagerState.getJob_updateJob, if_pos rfl, hjob]
      rfl
    obtain ⟨job', hjob', hartifacts⟩ := ih hnext (start + 1)
    rw [List.zipIdx_cons, List.foldl_cons]
    refine ⟨job', hjob', ?_⟩
    rw [hartifacts, artifactRecord, List.map_cons, List.append_assoc]
    rfl

end Steps

/-- Capturing artifacts preserves them all exactly if they are staged well, for every record with
whatever artifacts and every list of specifications. -/
theorem artifacts_preserved_iff (files : Files) (jobs : JobManagerState) (jobId : String)
    (arts : List ArtifactSpec) (addNow stageNow : Clock) {job : JobInstance}
    (hjob : jobs.getJob jobId = some job) :
    h.Preserves jobId (job.artifacts ++ arts.map (h.captured files)) files
        (h.captureArtifacts files jobs jobId (some arts) addNow stageNow) ↔
      h.StagesWell jobId (job.artifacts ++ arts.map (h.captured files)) files := by
  obtain ⟨job', hjob', hartifacts⟩ := getJob_addArtifacts (h := h) files addNow arts hjob
  rw [← hartifacts, captureArtifacts, hjob']
  exact stageArtifacts_preserves_iff stageNow files hjob'

end StagingHost

/-! ### The default name -/

/-- The agent of a service user, with an artifact outside its directory. -/
def artifactHost : StagingHost where
  agentDir := "/srv/realm-agent"
  cwd := "/"
  sha256Hex bytes :=
    if bytes = [] then "e3b0c44298fc1c149afbf4c8996fb92427ae41e4649b934ca495991b7852b855"
    else "4bf5122f344554c53bde2ebb8cd2b7e3d1600ad631c385a5d7cce23c7785459a"

/-- The files of that agent. -/
def artifactFiles : Files :=
  ([["srv"], ["srv", "realm-agent"], ["out"]].foldl (fun files place ↦ files.insert place .dir)
    ((∅ : Files).insert [] .dir)).insert ["out", "app.wasm"] (.file [1])

/-- A job that has just finished. -/
def finishedJob : JobInstance :=
  JobInstance.new "node-1" "node" { name := "build", runtime := .native "make" none [] [] } 0 0

/-- A store with that job. -/
def finishedJobs : JobManagerState := JobManagerState.putJob {} "node-1" finishedJob

/-- With a name of its own the artifact is preserved. -/
theorem artifacts_preserved_iff_named :
    artifactHost.Preserves "node-1" ([⟨"/out/app.wasm", some "app.wasm"⟩].map
        (artifactHost.captured artifactFiles)) artifactFiles
      (artifactHost.captureArtifacts artifactFiles finishedJobs "node-1"
        (some [⟨"/out/app.wasm", some "app.wasm"⟩]) (fun _ ↦ 1) fun _ ↦ 2) := by
  have hjob : finishedJobs.getJob "node-1" = some finishedJob := by
    rw [finishedJobs, JobManagerState.getJob_putJob, if_pos rfl]
  refine (artifactHost.artifacts_preserved_iff artifactFiles finishedJobs "node-1"
    [⟨"/out/app.wasm", some "app.wasm"⟩] (fun _ ↦ 1) (fun _ ↦ 2) hjob).mpr
    ⟨.inl (by decide), .inr ?_⟩
  generalize hfiles : (artifactFiles.makeDirs _).1 = files
  have htarget : artifactHost.targetPlace "node-1" (artifactHost.captured artifactFiles
      ⟨"/out/app.wasm", some "app.wasm"⟩) =
        ["srv", "realm-agent", "artifacts", "jobs", "node-1", "app.wasm"] := by
    decide
  have hstored : artifactHost.storedPlace (artifactHost.captured artifactFiles
      ⟨"/out/app.wasm", some "app.wasm"⟩) = ["out", "app.wasm"] := by
    decide
  have hdir : Path.place (artifactHost.jobDir "node-1") =
      ["srv", "realm-agent", "artifacts", "jobs", "node-1"] := by
    decide
  have hone {a : JobArtifact} (ha : a ∈ finishedJob.artifacts ++ [⟨"/out/app.wasm",
      some "app.wasm"⟩].map (artifactHost.captured artifactFiles)) :
      a = artifactHost.captured artifactFiles ⟨"/out/app.wasm", some "app.wasm"⟩ :=
    List.mem_singleton.mp ha
  refine ⟨?_, ?_, ?_, ?_⟩
  · intro a ha _
    rw [hone ha, htarget, hdir]
    decide
  · intro a ha _ b hb hsame
    rw [hone ha, hone hb, htarget, hstored] at hsame
    exact absurd hsame (by decide)
  · intro a ha _ b hb _ _
    rw [hone ha, hone hb]
  · intro i a hi _
    left
    intro j hj b hb
    have hlen := (List.getElem?_eq_some_iff.mp hi).1
    change i < 1 at hlen
    omega

/-- Named after its path, the artifact is copied onto itself. -/
theorem unnamed_artifact_emptied :
    artifactFiles.fileAt ["out", "app.wasm"] = some [1] ∧
    (artifactHost.captureArtifacts artifactFiles finishedJobs "node-1"
      (some [⟨"/out/app.wasm", none⟩]) (fun _ ↦ 1) fun _ ↦ 2).files.fileAt ["out", "app.wasm"] =
        some [] ∧
    ¬ artifactHost.Preserves "node-1" ([⟨"/out/app.wasm", none⟩].map
        (artifactHost.captured artifactFiles)) artifactFiles
      (artifactHost.captureArtifacts artifactFiles finishedJobs "node-1"
        (some [⟨"/out/app.wasm", none⟩]) (fun _ ↦ 1) fun _ ↦ 2) := by
  have hbefore : artifactFiles.fileAt ["out", "app.wasm"] = some [1] := by decide
  have hafter : (artifactHost.captureArtifacts artifactFiles finishedJobs "node-1"
      (some [⟨"/out/app.wasm", none⟩]) (fun _ ↦ 1) fun _ ↦ 2).files.fileAt ["out", "app.wasm"] =
        some [] := by
    decide
  refine ⟨hbefore, hafter, ?_⟩
  intro hp
  have hstored := hp.stored (artifactHost.captured artifactFiles ⟨"/out/app.wasm", none⟩)
    (by simp) _ List.mem_cons_self
  have hplace : artifactHost.storedPlace
      (artifactHost.captured artifactFiles ⟨"/out/app.wasm", none⟩) = ["out", "app.wasm"] := by
    decide
  rw [hplace, hbefore, hafter] at hstored
  cases hstored

end PeerDeploy.Job
