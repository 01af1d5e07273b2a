import PeerDeploy.Job.Artifacts
import PeerDeploy.Job.Fresh
import PeerDeploy.Storage.Collect

/-!
# Whether a recorded digest is available

`stage_artifacts` records the digest of an artifact (`crates/agent/src/job_manager.rs:409–421`),
and a later submission makes an attachment of it (`crates/agent/src/cmd/job.rs:107–135`), which
an executor looks up in the content store. The states are those of one node: its job manager,
and its files with `jobs.json` and the blobs among them, so that programs and copies can write
there too. The command line runs as a process of its own on the same data directory.
-/

namespace PeerDeploy.Job

open PeerDeploy.Common PeerDeploy.Base PeerDeploy.Storage

/-- The job manager of a node and its files with the content store. -/
structure JobNode where
  jobs : JobManagerState := {}
  store : Store := {}

/-- The node once artifacts are staged. -/
def JobNode.staged (s : JobNode) (t : Staging) : JobNode where
  jobs := t.jobs
  store := { s.store with files := t.files }

/-- What can happen. -/
inductive JobEvent where
  | life (event : LifeEvent)
  /-- `create_dir_all` at the beginning of `stage_artifacts`. -/
  | makeArtifactsDir (jobId : String)
  /-- One artifact of the list that `stage_artifacts` goes through. -/
  | stageArtifact (jobId : String) (artifact : JobArtifact) (i : Nat) (now : Clock)
  | putBytes (bytes : Bytes) (input : StoreInput)
  | getPath (digest : String) (input : StoreInput)
  /-- The command line makes the attachment of one specifier, in its working directory. -/
  | useArtifact (cwd specifier : String) (input : StoreInput)
  /-- The command line submits; the given number of bytes of the file is written. -/
  | submitJob (nodeId : String) (spec : JobSpec) (now : Clock) (order : List String)
      (written : Nat)
  /-- The program of a job, or the writing of its attachments, leaves these files behind. -/
  | program (files : Files)

/-- The digest is recorded for an artifact. -/
def JobManagerState.HasDigest (s : JobManagerState) (digest : String) : Prop :=
  ∃ jobId job, s.getJob jobId = some job ∧ ∃ a ∈ job.artifacts, a.sha256Hex = some digest

/-- The store of a new manager that has loaded the file. -/
def loadedFrom (codec : StoreCodec) (file : Option Bytes) (nodeId : String) : JobManagerState :=
  match file.bind codec.fromStr with
  | some t => t.loaded nodeId
  | none => {}

/-- The name and the artifact that a specifier is about; `crates/agent/src/cmd/job.rs:109–114`. -/
def findArtifact (codec : StoreCodec) (file : Option Bytes) (specifier : String) :
    Option (String × JobArtifact) := do
  let (jid, name) ← Text.splitOnce ":" specifier
  let prev ← (loadedFrom codec file "unknown").getJob jid
  let art ← prev.artifacts.find? (·.name == name)
  return (name, art)

/-- The attachment for a digest; `crates/agent/src/cmd/job.rs:116–119`. -/
def attachment (name digest : String) : PreStageSpec where
  source := s!"cas:{digest}"
  dest := s!"/tmp/assets/{name}"

namespace StagingHost

variable (h : StagingHost)

/-- The directory of the blobs. -/
def blobsDir : String := h.resolve (baseDir h.agentDir)

/-- The place of `jobs.json`; `crates/agent/src/job_manager.rs:75,98`. -/
def jobsPlace : List String :=
  Path.place (h.resolve (Path.join (Path.join h.agentDir "jobs") "jobs.json"))

/-- What a manager that is opened now finds in its file. -/
def jobsFile (files : Files) : Option Bytes := files.fileAt h.jobsPlace

/-- Write `jobs.json`, in a directory that is made if it is missing; an error leaves it as it is.
`crates/agent/src/job_manager.rs:96–103`. -/
def writeJobs (files : Files) (content : Bytes) : Files :=
  let files := files.createDirAll h.jobsPlace.dropLast
  match files.write h.jobsPlace content none with
  | .ok files => files
  | .error _ => files

/-- The attachment that is made for a specifier, and the content store after it;
`crates/agent/src/cmd/job.rs:107–135`. No attachment where `put_bytes` panics. -/
def useArtifact (codec : StoreCodec) (s : JobNode) (cwd specifier : String)
    (input : StoreInput) : Option PreStageSpec × Store :=
  match findArtifact codec (h.jobsFile s.store.files) specifier with
  | none => (none, s.store)
  | some (name, art) =>
    match art.sha256Hex with
    | some d => (some (attachment name d), s.store)
    | none =>
      match s.store.files.readPath (Path.join cwd art.storedPath) with
      | .error _ => (none, s.store)
      | .ok bytes =>
        let store := s.store.opened h.blobsDir
        match store.putBytes h.sha256Hex h.blobsDir bytes input with
        | none => (none, store)
        | some (store, _) => (some (attachment name (h.sha256Hex bytes)), store)

/-- One event at the node `nodeId`. -/
def jobNext (codec : StoreCodec) (nodeId : String) (s : JobNode) : JobEvent → JobNode
  | .life (.saveToDisk order written) =>
    { s with
      store := { s.store with
        files := h.writeJobs s.store.files ((codec.toStringPretty order s.jobs).take written) } }
  | .life event =>
    { s with
      jobs :=
        (lifeNext codec nodeId { jobs := s.jobs, file := h.jobsFile s.store.files } event).jobs }
  | .makeArtifactsDir jobId =>
    { s with
      store := { s.store with
        files := (s.store.files.makeDirs (h.resolve (h.artifactsDir jobId))).1 } }
  | .stageArtifact jobId artifact i now =>
    s.staged (h.stageArtifact jobId now { files := s.store.files, jobs := s.jobs } (artifact, i))
  | .putBytes bytes input =>
    let store := s.store.opened h.blobsDir
    match store.putBytes h.sha256Hex h.blobsDir bytes input with
    | some (store, _) => { s with store }
    | none => { s with store }
  | .getPath digest input =>
    let store := s.store.opened h.blobsDir
    match store.getPath h.blobsDir digest input with
    | some (store, _) => { s with store }
    | none => { s with store }
  | .useArtifact cwd specifier input =>
    { s with store := (h.useArtifact codec s cwd specifier input).2 }
  | .submitJob nodeId spec now order written =>
    let jobs := (loadedFrom codec (h.jobsFile s.store.files) nodeId).submitJob nodeId spec
      (some nodeId) none now
    { s with
      store := { s.store with
        files := h.writeJobs s.store.files
          ((codec.toStringPretty order jobs.1).take written) } }
  | .program files => { s with store := { s.store with files } }

section Fields

variable {h} {s : JobNode} {codec : StoreCodec} {nodeId jobId : String} {artifact : JobArtifact}
  {i : Nat} {now : Clock}

/-- An event of the manager changes its records as it does without the node. -/
theorem jobs_life (event : LifeEvent) : (h.jobNext codec nodeId s (.life event)).jobs =
    (lifeNext codec nodeId { jobs := s.jobs, file := h.jobsFile s.store.files } event).jobs := by
  cases event with
  | saveToDisk order written => simp only [jobNext, lifeNext]
  | _ => simp only [jobNext]

/-- Only a save writes, and only `jobs.json`. -/
theorem files_life (h : StagingHost) (codec : StoreCodec) (nodeId : String) (s : JobNode)
    (event : LifeEvent) :
    (h.jobNext codec nodeId s (.life event)).store.files = s.store.files ∨
      ∃ order written, (h.jobNext codec nodeId s (.life event)).store.files =
        h.writeJobs s.store.files ((codec.toStringPretty order s.jobs).take written) := by
  cases event with
  | saveToDisk order written => exact .inr ⟨order, written, by simp only [jobNext]⟩
  | _ => exact .inl (by simp only [jobNext])

/-- Staging an artifact changes the records as it does without the node. -/
theorem jobs_stageArtifact :
    (h.jobNext codec nodeId s (.stageArtifact jobId artifact i now)).jobs =
      (h.stageArtifact jobId now { files := s.store.files, jobs := s.jobs } (artifact, i)).jobs := by
  simp only [jobNext, JobNode.staged]

/-- So it changes the files. -/
theorem files_stageArtifact :
    (h.jobNext codec nodeId s (.stageArtifact jobId artifact i now)).store.files =
      (h.stageArtifact jobId now { files := s.store.files, jobs := s.jobs }
        (artifact, i)).files := by
  simp only [jobNext, JobNode.staged]

end Fields

/-- `jobNext` as a machine; no event is ever refused. -/
def jobStep (codec : StoreCodec) (nodeId : String) (s : JobNode) (event : JobEvent) :
    Option JobNode :=
  some (h.jobNext codec nodeId s event)

/-- The events of `captureArtifacts` at a node. -/
def captureEvents (s : JobNode) (jobId : String) (exec : Option (List ArtifactSpec))
    (addNow stageNow : Clock) : List JobEvent :=
  match exec with
  | none => []
  | some arts =>
    let adds := arts.zipIdx.map fun (art, i) ↦
      JobEvent.life (.call (.addJobArtifact jobId (h.captured s.store.files art)) fun _ ↦ addNow i)
    match (h.addArtifacts s.store.files s.jobs jobId arts addNow).getJob jobId with
    | none => adds
    | some job =>
      adds ++ .makeArtifactsDir jobId ::
        match (s.store.files.makeDirs (h.resolve (h.artifactsDir jobId))).2 with
        | some _ => []
        | none => job.artifacts.zipIdx.map fun (a, i) ↦ .stageArtifact jobId a i stageNow

/-! ### The property and its condition -/

/-- The blob of the digest is in the content store. -/
def HasBlob (files : Files) (digest : String) : Prop :=
  ∃ path bytes, pathForDigest h.blobsDir digest = some path ∧
    files.fileAt (Path.place path) = some bytes ∧ h.sha256Hex bytes = digest

/-- An executor that looks the attachment up gets bytes of its digest. -/
def Resolves (store : Store) (item : PreStageSpec) : Prop :=
  ∃ digest path bytes, Text.stripPrefix "cas:" item.source = some digest ∧
    h.sha256Hex bytes = digest ∧ ∀ input, ∃ t,
      (store.opened h.blobsDir).getPath h.blobsDir digest input = some (t, some path) ∧
        t.files.read (Path.place path) none = .ok bytes

/-- Each digest recorded by the manager or in `jobs.json` has its blob in the content store, and
so the attachment made for its artifact can be resolved. -/
structure DigestsAvailable (codec : StoreCodec) (s : JobNode) : Prop where
  recorded : ∀ digest, s.jobs.HasDigest digest → h.HasBlob s.store.files digest
  saved : ∀ t, (h.jobsFile s.store.files).bind codec.fromStr = some t →
    ∀ digest, t.HasDigest digest → h.HasBlob s.store.files digest
  attached : ∀ cwd specifier input name art digest,
    findArtifact codec (h.jobsFile s.store.files) specifier = some (name, art) →
      art.sha256Hex = some digest →
        ∃ item, (h.useArtifact codec s cwd specifier input).1 = some item ∧
          h.Resolves s.store item

/-- A program leaves the blobs where they are, and no artifact is copied to the path of one. -/
def KeepsBlobs (s : JobNode) : JobEvent → Prop
  | .program files => ∀ bytes path, pathForDigest h.blobsDir (h.sha256Hex bytes) = some path →
    s.store.files.fileAt (Path.place path) = some bytes →
      files.fileAt (Path.place path) = some bytes
  | .stageArtifact jobId artifact _ _ => h.Copyable jobId s.store.files artifact →
    ∀ bytes path, pathForDigest h.blobsDir (h.sha256Hex bytes) = some path →
      h.targetPlace jobId artifact ≠ Path.place path
  | _ => True

/-- If the content is that of a `jobs.json`, its digests have their blobs in the content store. -/
def FindsListed (codec : StoreCodec) (files : Files) (content : Option Bytes) : Prop :=
  ∀ t, content.bind codec.fromStr = some t → ∀ digest, t.HasDigest digest → h.HasBlob files digest

/-- What brings a digest finds its blob in the content store: an artifact that is copied and is in
the record, an artifact that is added to a record, a record that is merged, and what a program or
a copy puts in the place of `jobs.json`. -/
def FindsBlobs (codec : StoreCodec) (s : JobNode) : JobEvent → Prop
  | .stageArtifact jobId artifact _ _ => h.Copyable jobId s.store.files artifact →
    ((∃ job, s.jobs.getJob jobId = some job ∧ ∃ a ∈ job.artifacts, a.name = artifact.name) →
      h.HasBlob s.store.files (h.sha256Hex (h.copyOf jobId s.store.files artifact))) ∧
    (h.targetPlace jobId artifact = h.jobsPlace →
      h.FindsListed codec s.store.files (some (h.copyOf jobId s.store.files artifact)))
  | .life (.call (.addJobArtifact jobId artifact) _) => s.jobs.getJob jobId ≠ none →
    ∀ digest, artifact.sha256Hex = some digest → h.HasBlob s.store.files digest
  | .life (.syncJob job) =>
    (∀ held, s.jobs.getJob job.id = some held → held.updatedAt < job.updatedAt) →
      ∀ a ∈ job.artifacts, ∀ digest, a.sha256Hex = some digest → h.HasBlob s.store.files digest
  | .program files => h.FindsListed codec files (h.jobsFile files)
  | _ => True

end StagingHost

/-! ### The digests of a job store -/

namespace JobManagerState

private theorem hasDigest_putJob {s : JobManagerState} {jobId digest : String} {job : JobInstance}
    (h : (s.putJob jobId job).HasDigest digest) :
    s.HasDigest digest ∨ ∃ a ∈ job.artifacts, a.sha256Hex = some digest := by
  obtain ⟨id, found, hfound, hin⟩ := h
  rw [getJob_putJob] at hfound
  split at hfound
  · cases hfound
    exact .inr hin
  · exact .inl ⟨id, found, hfound, hin⟩

private theorem hasDigest_updateJob {s : JobManagerState} {jobId digest : String}
    {change : JobInstance → JobInstance} (h : (s.updateJob jobId change).HasDigest digest) :
    s.HasDigest digest ∨ ∃ job, s.getJob jobId = some job ∧
      ∃ a ∈ (change job).artifacts, a.sha256Hex = some digest := by
  obtain ⟨id, found, hfound, hin⟩ := h
  rw [getJob_updateJob] at hfound
  split at hfound
  · obtain ⟨job, hjob, rfl⟩ := Option.map_eq_some_iff.mp hfound
    exact .inr ⟨job, hjob, hin⟩
  · exact .inl ⟨id, found, hfound, hin⟩

private theorem hasDigest_map {s : JobManagerState} {change : JobInstance → JobInstance}
    (hchange : ∀ job, (change job).artifacts = job.artifacts) (digest : String)
    (h : JobManagerState.HasDigest { s with jobs := s.jobs.map fun _ job ↦ change job } digest) :
    s.HasDigest digest := by
  obtain ⟨id, found, hfound, hin⟩ := h
  simp only [getJob, Std.ExtTreeMap.getElem?_map] at hfound
  obtain ⟨job, hjob, rfl⟩ := Option.map_eq_some_iff.mp hfound
  rw [hchange] at hin
  exact ⟨id, job, hjob, hin⟩

private theorem hasDigest_submitJob {s : JobManagerState} {nodeId : String} {spec : JobSpec}
    {originNodeId jobId : Option String} {now : Clock} {digest : String}
    (h : (s.submitJob nodeId spec originNodeId jobId now).1.HasDigest digest) :
    s.HasDigest digest := by
  rcases hasDigest_putJob (s := { s with nextId := _ }) h with h | ⟨a, ha, -⟩
  · exact h
  · cases ha

private theorem not_hasDigest_new (digest : String) :
    ¬ JobManagerState.HasDigest {} digest := by
  rintro ⟨id, job, hjob, -⟩
  simp [getJob] at hjob

private theorem mem_artifacts_change {op : ManagerOp} {now : Clock} {job : JobInstance}
    {a : JobArtifact} (h : a ∈ (op.change now job).artifacts) :
    a ∈ job.artifacts ∨ op = .addJobArtifact op.jobId a := by
  cases op with
  | addJobArtifact id artifact =>
    rcases List.mem_append.mp h with h | h
    · exact .inl h
    · obtain rfl := List.mem_singleton.mp h
      exact .inr rfl
  | cancelJob id =>
    left
    simp only [ManagerOp.change] at h
    split at h
    · exact h
    · exact h
  | _ => exact .inl h

private theorem hasDigest_apply {s : JobManagerState} {op : ManagerOp} {now : Clock}
    {digest : String} (h : (op.apply s now).HasDigest digest) :
    s.HasDigest digest ∨ ∃ a, op = .addJobArtifact op.jobId a ∧ s.getJob op.jobId ≠ none ∧
      a.sha256Hex = some digest := by
  obtain ⟨id, found, hfound, a, ha, hdigest⟩ := h
  rw [getJob_apply] at hfound
  split at hfound
  · next heq =>
    obtain ⟨job, hjob, rfl⟩ := Option.map_eq_some_iff.mp hfound
    rcases mem_artifacts_change ha with ha | hop
    · exact .inl ⟨id, job, hjob, a, ha, hdigest⟩
    · refine .inr ⟨a, hop, ?_, hdigest⟩
      rw [heq, hjob]
      simp
  · exact .inl ⟨id, found, hfound, a, ha, hdigest⟩

private theorem hasDigest_syncJob {s : JobManagerState} {job : JobInstance} {digest : String}
    (h : (s.syncJob job).HasDigest digest) :
    s.HasDigest digest ∨
      (∀ held, s.getJob job.id = some held → held.updatedAt < job.updatedAt) ∧
        ∃ a ∈ job.artifacts, a.sha256Hex = some digest := by
  unfold syncJob at h
  cases hheld : s.getJob job.id with
  | none =>
    rw [hheld] at h
    rcases hasDigest_putJob h with h | hin
    · exact .inl h
    · exact .inr ⟨by simp, hin⟩
  | some held =>
    rw [hheld] at h
    dsimp only at h
    split at h
    · next hlt =>
      rcases hasDigest_putJob h with h | hin
      · exact .inl h
      · refine .inr ⟨?_, hin⟩
        rintro _ ⟨⟩
        exact hlt
    · exact .inl h

end JobManagerState

private theorem mem_recordDigest {name digest : String} {artifacts : List JobArtifact}
    {a : JobArtifact} (h : a ∈ recordDigest name digest artifacts) :
    a ∈ artifacts ∨ a.sha256Hex = some digest := by
  induction artifacts with
  | nil => exact .inl h
  | cons first rest ih =>
    rw [recordDigest] at h
    split at h
    · rcases List.mem_cons.mp h with rfl | h
      · exact .inr rfl
      · exact .inl (List.mem_cons_of_mem first h)
    · rcases List.mem_cons.mp h with rfl | h
      · exact .inl List.mem_cons_self
      · rcases ih h with h | h
        · exact .inl (List.mem_cons_of_mem first h)
        · exact .inr h

private theorem exists_recordDigest {name digest : String} {artifacts : List JobArtifact}
    (h : ∃ b ∈ artifacts, b.name = name) :
    ∃ a ∈ recordDigest name digest artifacts, a.sha256Hex = some digest := by
  induction artifacts with
  | nil => simp at h
  | cons first rest ih =>
    rw [recordDigest]
    split
    · exact ⟨_, List.mem_cons_self, rfl⟩
    · next hne =>
      obtain ⟨b, hb, hname⟩ := h
      rcases List.mem_cons.mp hb with rfl | hb
      · exact absurd hname hne
      · obtain ⟨a, ha, hdigest⟩ := ih ⟨b, hb, hname⟩
        exact ⟨a, List.mem_cons_of_mem first ha, hdigest⟩

private theorem hasDigest_digestRecord {s : JobManagerState} {jobId name digest other : String}
    {now : Nat} (h : (s.updateJob jobId (digestRecord name digest now)).HasDigest other) :
    s.HasDigest other ∨ other = digest ∧
      ∃ job, s.getJob jobId = some job ∧ ∃ a ∈ job.artifacts, a.name = name := by
  rcases JobManagerState.hasDigest_updateJob h with h | ⟨job, hjob, a, ha, hdigest⟩
  · exact .inl h
  · rw [digestRecord] at ha
    split at ha
    · next hany =>
      rcases mem_recordDigest ha with ha | hnew
      · exact .inl ⟨jobId, job, hjob, a, ha, hdigest⟩
      · obtain ⟨b, hb, hname⟩ := List.any_eq_true.mp hany
        refine .inr ⟨Option.some.inj (hdigest.symm.trans hnew), job, hjob, b, hb, ?_⟩
        simpa using hname
    · exact .inl ⟨jobId, job, hjob, a, ha, hdigest⟩

private theorem hasDigest_of_digestRecord {s : JobManagerState} {jobId name : String}
    {job : JobInstance} (hjob : s.getJob jobId = some job)
    (hin : ∃ a ∈ job.artifacts, a.name = name)
    (digest : String) (now : Nat) :
    (s.updateJob jobId (digestRecord name digest now)).HasDigest digest := by
  refine ⟨jobId, _, by rw [JobManagerState.getJob_updateJob, if_pos rfl, hjob]; rfl, ?_⟩
  have hany : job.artifacts.any (·.name == name) = true := by
    obtain ⟨b, hb, hname⟩ := hin
    exact List.any_eq_true.mpr ⟨b, hb, by simp [hname]⟩
  rw [digestRecord, if_pos hany]
  exact exists_recordDigest hin

/-! ### The steps -/

namespace StagingHost

section Steps

variable {h : StagingHost} {codec : StoreCodec} {s : JobNode}

private theorem hasBlob_of_kept {before after : Files} {digest : String}
    (hkept : ∀ path bytes, pathForDigest h.blobsDir (h.sha256Hex bytes) = some path →
      before.fileAt (Path.place path) = some bytes → after.fileAt (Path.place path) = some bytes)
    (hblob : h.HasBlob before digest) : h.HasBlob after digest := by
  obtain ⟨path, bytes, hpath, hfile, rfl⟩ := hblob
  exact ⟨path, bytes, hpath, hkept path bytes hpath hfile, rfl⟩

private theorem fileAt_opened (store : Store) (base : String) (place : List String) :
    (store.opened base).files.fileAt place = store.files.fileAt place := by
  rw [Store.opened, Files.fileAt_createDirAll]

private theorem fileAt_putBytes {base : String} {store next : Store} {bytes : Bytes}
    {input : StoreInput} {result : Except String String}
    (hput : store.putBytes h.sha256Hex base bytes input = some (next, result))
    {place : List String} {held : Bytes} (hfile : store.files.fileAt place = some held) :
    next.files.fileAt place = some held :=
  Files.fileAt_eq_some.mpr (file_of_putBytes hput (Files.fileAt_eq_some.mp hfile))

private theorem jobsPlace_ne_blob (hsha : ∀ bytes, IsDigest (h.sha256Hex bytes)) (bytes : Bytes)
    {path : String} (hpath : pathForDigest h.blobsDir (h.sha256Hex bytes) = some path) :
    h.jobsPlace ≠ Path.place path := by
  have hjobs : h.jobsPlace = Path.place (h.resolve h.agentDir) ++ ["jobs", "jobs.json"] := by
    rw [jobsPlace, resolve, ← Path.join_join, ← Path.join_join,
      Path.place_join _ (by decide : Path.Plain "jobs.json"),
      Path.place_join _ (by decide : Path.Plain "jobs"), List.append_assoc]
    rfl
  have hblobs : Path.place h.blobsDir =
      Path.place (h.resolve h.agentDir) ++ ["artifacts", "blobs", "sha256"] := by
    rw [blobsDir, baseDir, resolve, ← Path.join_join, ← Path.join_join, ← Path.join_join,
      Path.place_join _ (by decide : Path.Plain "sha256"),
      Path.place_join _ (by decide : Path.Plain "blobs"),
      Path.place_join _ (by decide : Path.Plain "artifacts"), List.append_assoc, List.append_assoc]
    rfl
  obtain ⟨path', a, b, hpath', hplace⟩ := pathForDigest_of_isDigest h.blobsDir (hsha bytes)
  obtain rfl : path' = path := Option.some.inj (hpath'.symm.trans hpath)
  rw [hplace, hblobs, hjobs, List.append_assoc]
  intro heq
  have hnames := List.append_cancel_left heq
  simp at hnames

private theorem jobsFile_putBytes (hsha : ∀ bytes, IsDigest (h.sha256Hex bytes))
    {store next : Store} {bytes : Bytes} {input : StoreInput} {result : Except String String}
    (hput : store.putBytes h.sha256Hex h.blobsDir bytes input = some (next, result)) :
    h.jobsFile next.files = h.jobsFile store.files := by
  obtain ⟨path, -, -, hpath, -⟩ := pathForDigest_of_isDigest h.blobsDir (hsha bytes)
  apply Option.ext
  intro held
  rw [jobsFile, jobsFile, Files.fileAt_eq_some, Files.fileAt_eq_some]
  exact file_putBytes_iff hput hpath (jobsPlace_ne_blob hsha bytes hpath)

private theorem fileAt_writeJobs (files : Files) (content : Bytes) {place : List String}
    (hne : place ≠ h.jobsPlace) :
    (h.writeJobs files content).fileAt place = files.fileAt place := by
  have hdirs : (files.createDirAll h.jobsPlace.dropLast).fileAt place = files.fileAt place :=
    Files.fileAt_createDirAll _ _ place
  unfold writeJobs
  dsimp only
  split
  · next hwrite =>
    rw [Files.eq_insert_of_write hwrite, Files.fileAt_insert, if_neg hne.symm, hdirs]
  · exact hdirs

private theorem jobsFile_writeJobs (files : Files) (content : Bytes) :
    h.jobsFile (h.writeJobs files content) = some content ∨
      h.jobsFile (h.writeJobs files content) = h.jobsFile files := by
  unfold writeJobs
  dsimp only
  split
  · next hwrite =>
    left
    rw [Files.eq_insert_of_write hwrite, jobsFile, Files.fileAt_insert, if_pos rfl]
  · right
    exact Files.fileAt_createDirAll _ _ h.jobsPlace

private theorem fileAt_useArtifact (codec : StoreCodec) (s : JobNode) (cwd specifier : String)
    (input : StoreInput) {place : List String} {held : Bytes}
    (hfile : s.store.files.fileAt place = some held) :
    (h.useArtifact codec s cwd specifier input).2.files.fileAt place = some held := by
  have hopened : (s.store.opened h.blobsDir).files.fileAt place = some held := by
    rw [fileAt_opened, hfile]
  unfold useArtifact
  split
  · exact hfile
  · split
    · exact hfile
    · split
      · exact hfile
      · dsimp only
        split
        · exact hopened
        · next hput => exact fileAt_putBytes hput hopened

private theorem jobsFile_useArtifact (hsha : ∀ bytes, IsDigest (h.sha256Hex bytes))
    (codec : StoreCodec) (s : JobNode) (cwd specifier : String) (input : StoreInput) :
    h.jobsFile (h.useArtifact codec s cwd specifier input).2.files =
      h.jobsFile s.store.files := by
  have hopened : h.jobsFile (s.store.opened h.blobsDir).files = h.jobsFile s.store.files :=
    fileAt_opened s.store h.blobsDir h.jobsPlace
  unfold useArtifact
  split
  · rfl
  · split
    · rfl
    · split
      · rfl
      · dsimp only
        split
        · exact hopened
        · next hput => exact (jobsFile_putBytes hsha hput).trans hopened

private theorem fileAt_stageArtifact {staging : Staging} {jobId : String} {artifact : JobArtifact}
    {i : Nat} {now : Clock} {place : List String}
    (hplace : h.Copyable jobId staging.files artifact → h.targetPlace jobId artifact ≠ place) :
    (h.stageArtifact jobId now staging (artifact, i)).files.fileAt place =
      staging.files.fileAt place := by
  by_cases hcan : h.Copyable jobId staging.files artifact
  · obtain ⟨next, hcopy, hstep⟩ := stageArtifact_of_copyable now i hcan
    rw [hstep, Files.fileAt_copy hcopy, if_neg fun heq ↦ hplace hcan heq.symm]
  · rw [stageArtifact_of_not_copyable now i hcan]

private theorem fileAt_target {staging : Staging} {jobId : String} {artifact : JobArtifact}
    (i : Nat) (now : Clock) (hcan : h.Copyable jobId staging.files artifact) :
    (h.stageArtifact jobId now staging (artifact, i)).files.fileAt (h.targetPlace jobId artifact) =
      some (h.copyOf jobId staging.files artifact) := by
  obtain ⟨next, hcopy, hstep⟩ := stageArtifact_of_copyable now i hcan
  rw [hstep, Files.fileAt_copy hcopy, targetPlace, if_pos rfl, copyOf]

-- The event leaves a file at the place: a program does, no artifact is copied there, and it is not
-- `jobs.json` that is written.
private def Spares (h : StagingHost) (s : JobNode) (place : List String) (held : Bytes) :
    JobEvent → Prop
  | .program files => files.fileAt place = some held
  | .stageArtifact jobId artifact _ _ => h.Copyable jobId s.store.files artifact →
    h.targetPlace jobId artifact ≠ place
  | .life (.saveToDisk _ _) | .submitJob _ _ _ _ _ => place ≠ h.jobsPlace
  | _ => True

private theorem fileAt_jobNext {nodeId : String} {event : JobEvent} {place : List String}
    {held : Bytes} (hspares : h.Spares s place held event)
    (hfile : s.store.files.fileAt place = some held) :
    (h.jobNext codec nodeId s event).store.files.fileAt place = some held := by
  have hopened := (fileAt_opened s.store h.blobsDir place).trans hfile
  cases event with
  | life event =>
    cases event with
    | saveToDisk order written =>
      simp only [jobNext]
      rw [fileAt_writeJobs _ _ hspares]
      exact hfile
    | _ =>
      simp only [jobNext]
      exact hfile
  | makeArtifactsDir jobId =>
    simp only [jobNext, fileAt_makeDirs]
    exact hfile
  | stageArtifact jobId artifact i now =>
    rw [files_stageArtifact, fileAt_stageArtifact fun hcan ↦ hspares hcan]
    exact hfile
  | putBytes content input =>
    simp only [jobNext]
    split
    · next hput => exact fileAt_putBytes hput hopened
    · exact hopened
  | getPath other input =>
    simp only [jobNext]
    split
    · next hget =>
      rw [(getPath_eq_some hget).1]
      exact hopened
    · exact hopened
  | useArtifact cwd specifier input => exact fileAt_useArtifact codec s cwd specifier input hfile
  | submitJob nodeId spec now order written =>
    simp only [jobNext]
    rw [fileAt_writeJobs _ _ hspares]
    exact hfile
  | program files => exact hspares

private theorem hasBlob_jobNext (hsha : ∀ bytes, IsDigest (h.sha256Hex bytes))
    {nodeId digest : String} {event : JobEvent}
    (hkeeps : h.KeepsBlobs s event) (hblob : h.HasBlob s.store.files digest) :
    h.HasBlob (h.jobNext codec nodeId s event).store.files digest := by
  apply hasBlob_of_kept _ hblob
  intro path bytes hpath hfile
  apply fileAt_jobNext _ hfile
  have hapart := (jobsPlace_ne_blob hsha bytes hpath).symm
  cases event with
  | program files => exact hkeeps bytes path hpath hfile
  | stageArtifact jobId artifact i now => exact fun hcan ↦ hkeeps hcan bytes path hpath
  | submitJob nodeId spec now order written => exact hapart
  | life event =>
    cases event with
    | saveToDisk order written => exact hapart
    | _ => trivial
  | _ => trivial

-- All digests that the manager and its file record have the property.
private structure Known (codec : StoreCodec) (p : String → Prop) (jobs : JobManagerState)
    (file : Option Bytes) : Prop where
  recorded : ∀ digest, jobs.HasDigest digest → p digest
  saved : ∀ t, file.bind codec.fromStr = some t → ∀ digest, t.HasDigest digest → p digest

private theorem hasDigest_loaded {t : JobManagerState} {nodeId digest : String}
    (hin : (t.loaded nodeId).HasDigest digest) : t.HasDigest digest := by
  have hchange (job : JobInstance) :
      (JobManagerState.loadRecord nodeId job).artifacts = job.artifacts := rfl
  exact JobManagerState.hasDigest_map hchange digest hin

private theorem hasDigest_loadedFrom {file : Option Bytes} {nodeId digest : String}
    (hin : (loadedFrom codec file nodeId).HasDigest digest) :
    ∃ t, file.bind codec.fromStr = some t ∧ t.HasDigest digest := by
  unfold loadedFrom at hin
  split at hin
  · next t ht => exact ⟨t, ht, hasDigest_loaded hin⟩
  · exact absurd hin (JobManagerState.not_hasDigest_new digest)

private theorem saved_writeJobs (hcodec : codec.Faithful) {p : String → Prop} {files : Files}
    {jobs : JobManagerState} (hjobs : ∀ digest, jobs.HasDigest digest → p digest)
    (hfile : ∀ t, (h.jobsFile files).bind codec.fromStr = some t →
      ∀ digest, t.HasDigest digest → p digest) (order : List String) (written : Nat)
    (t : JobManagerState) (ht : (h.jobsFile (h.writeJobs files
      ((codec.toStringPretty order jobs).take written))).bind codec.fromStr = some t)
    (digest : String) (hin : t.HasDigest digest) : p digest := by
  rcases jobsFile_writeJobs (h := h) files ((codec.toStringPretty order jobs).take written) with
    hnew | hold
  · rw [hnew] at ht
    rw [hcodec order _ written t ht] at hin
    exact hjobs digest hin
  · rw [hold] at ht
    exact hfile t ht digest hin

private theorem recorded_lifeNext {nodeId : String} {event : LifeEvent}
    (hfinds : h.FindsBlobs codec s (.life event))
    (hknown : Known codec (h.HasBlob s.store.files) s.jobs (h.jobsFile s.store.files))
    (digest : String)
    (hin : (lifeNext codec nodeId { jobs := s.jobs, file := h.jobsFile s.store.files }
      event).jobs.HasDigest digest) : h.HasBlob s.store.files digest := by
  obtain ⟨hrecorded, hsaved⟩ := hknown
  cases event with
  | submitJob spec originNodeId jobId now =>
    exact hrecorded digest (JobManagerState.hasDigest_submitJob hin)
  | call op now =>
    rcases JobManagerState.hasDigest_apply hin with hin | ⟨a, hop, hheld, hdigest⟩
    · exact hrecorded digest hin
    · rw [hop] at hfinds
      exact hfinds hheld digest hdigest
  | evaluateSchedules calendar =>
    apply hrecorded digest
    apply JobManagerState.hasDigest_map _ digest hin
    intro job
    rw [scheduleRecord]
    split
    · rfl
    · rfl
  | syncJob job =>
    rcases JobManagerState.hasDigest_syncJob hin with hin | ⟨hnewer, a, ha, hdigest⟩
    · exact hrecorded digest hin
    · exact hfinds hnewer a ha digest hdigest
  | saveToDisk order written => exact hrecorded digest hin
  | loadFromDisk =>
    simp only [lifeNext] at hin
    split at hin
    · next t ht => exact hsaved t ht digest (hasDigest_loaded hin)
    · exact hrecorded digest hin
  | new => exact absurd hin (JobManagerState.not_hasDigest_new digest)

-- An event that finds the blobs of what it records keeps the blobs of all digests.
private theorem known_jobNext (hsha : ∀ bytes, IsDigest (h.sha256Hex bytes))
    (hcodec : codec.Faithful) {nodeId : String} {event : JobEvent}
    (hkeeps : h.KeepsBlobs s event) (hfinds : h.FindsBlobs codec s event)
    (hknown : Known codec (h.HasBlob s.store.files) s.jobs (h.jobsFile s.store.files)) :
    Known codec (h.HasBlob (h.jobNext codec nodeId s event).store.files)
      (h.jobNext codec nodeId s event).jobs
      (h.jobsFile (h.jobNext codec nodeId s event).store.files) := by
  have hlater {digest : String} (hblob : h.HasBlob s.store.files digest) :
      h.HasBlob (h.jobNext codec nodeId s event).store.files digest :=
    hasBlob_jobNext hsha hkeeps hblob
  have hrecorded (digest : String) (hin : s.jobs.HasDigest digest) :=
    hlater (hknown.recorded digest hin)
  have hsaved (t : JobManagerState)
      (ht : (h.jobsFile s.store.files).bind codec.fromStr = some t) (digest : String)
      (hin : t.HasDigest digest) := hlater (hknown.saved t ht digest hin)
  have hopened : h.jobsFile (s.store.opened h.blobsDir).files = h.jobsFile s.store.files :=
    fileAt_opened s.store h.blobsDir h.jobsPlace
  cases event with
  | life event =>
    constructor
    · intro digest hin
      rw [jobs_life] at hin
      exact hlater (recorded_lifeNext hfinds hknown digest hin)
    · rcases files_life h codec nodeId s event with
        hsame | ⟨order, written, hwrite⟩
      · rw [hsame] at hsaved ⊢
        exact hsaved
      · rw [hwrite] at hrecorded hsaved ⊢
        exact saved_writeJobs hcodec hrecorded hsaved order written
  | stageArtifact jobId artifact i now =>
    by_cases hcan : h.Copyable jobId s.store.files artifact
    · obtain ⟨next, -, hstep⟩ := stageArtifact_of_copyable
        (s := { files := s.store.files, jobs := s.jobs }) now i hcan
      constructor
      · intro digest hin
        rw [jobs_stageArtifact, hstep] at hin
        rcases hasDigest_digestRecord hin with hin | ⟨rfl, hrecord⟩
        · exact hrecorded digest hin
        · exact hlater ((hfinds hcan).1 hrecord)
      · intro t ht digest hin
        rw [files_stageArtifact] at ht
        by_cases htarget : h.targetPlace jobId artifact = h.jobsPlace
        · rw [jobsFile, ← htarget, fileAt_target i now hcan] at ht
          exact hlater ((hfinds hcan).2 htarget t ht digest hin)
        · rw [jobsFile, fileAt_stageArtifact fun _ ↦ htarget] at ht
          exact hsaved t ht digest hin
    · have hno := stageArtifact_of_not_copyable
        (s := { files := s.store.files, jobs := s.jobs }) now i hcan
      have hsame : h.jobNext codec nodeId s (.stageArtifact jobId artifact i now) = s := by
        simp only [jobNext, hno, JobNode.staged]
      rw [hsame]
      exact hknown
  | submitJob nodeId spec now order written =>
    simp only [jobNext] at hrecorded hsaved ⊢
    refine ⟨hrecorded, saved_writeJobs hcodec ?_ hsaved order written⟩
    intro digest hin
    obtain ⟨u, hu, hin⟩ := hasDigest_loadedFrom (JobManagerState.hasDigest_submitJob hin)
    exact hsaved u hu digest hin
  | putBytes bytes input =>
    have hjobs : (h.jobNext codec nodeId s (.putBytes bytes input)).jobs = s.jobs ∧
        h.jobsFile (h.jobNext codec nodeId s (.putBytes bytes input)).store.files =
          h.jobsFile s.store.files := by
      simp only [jobNext]
      split
      · next hput => exact ⟨rfl, (jobsFile_putBytes hsha hput).trans hopened⟩
      · exact ⟨rfl, hopened⟩
    rw [hjobs.1, hjobs.2]
    exact ⟨hrecorded, hsaved⟩
  | getPath other input =>
    have hjobs : (h.jobNext codec nodeId s (.getPath other input)).jobs = s.jobs ∧
        h.jobsFile (h.jobNext codec nodeId s (.getPath other input)).store.files =
          h.jobsFile s.store.files := by
      simp only [jobNext]
      split
      · next hget => exact ⟨rfl, by rw [(getPath_eq_some hget).1]; exact hopened⟩
      · exact ⟨rfl, hopened⟩
    rw [hjobs.1, hjobs.2]
    exact ⟨hrecorded, hsaved⟩
  | makeArtifactsDir jobId =>
    simp only [jobNext, jobsFile, fileAt_makeDirs] at hrecorded hsaved ⊢
    exact ⟨hrecorded, hsaved⟩
  | useArtifact cwd specifier input =>
    simp only [jobNext, jobsFile_useArtifact hsha] at hrecorded hsaved ⊢
    exact ⟨hrecorded, hsaved⟩
  | program files =>
    simp only [jobNext] at hrecorded ⊢
    exact ⟨hrecorded, hfinds⟩

private theorem resolves_attachment (hsha : ∀ bytes, IsDigest (h.sha256Hex bytes)) {store : Store}
    {digest : String} (name : String) (hblob : h.HasBlob store.files digest) :
    h.Resolves store (attachment name digest) := by
  obtain ⟨path, bytes, hpath, hfile, hdigest⟩ := hblob
  refine ⟨digest, path, bytes, Text.stripPrefix_append "cas:" digest, hdigest, ?_⟩
  intro input
  have hopened : (store.opened h.blobsDir).files[Path.place path]? = some (.file bytes) := by
    rw [← Files.fileAt_eq_some, fileAt_opened, hfile]
  obtain ⟨⟨t, found⟩, hget⟩ := getPath_isSome hpath (store.opened h.blobsDir) input
  obtain ⟨hfiles, path', hpath', hfound⟩ := getPath_eq_some hget
  obtain rfl : path' = path := Option.some.inj (hpath'.symm.trans hpath)
  rw [lookupDigest_of_isDigest _ (hdigest ▸ hsha bytes) hpath, hopened, Option.isSome_some,
    if_pos rfl] at hfound
  refine ⟨t, by rw [hget, hfound], ?_⟩
  rw [hfiles]
  unfold Files.read
  rw [hopened]

private theorem hasDigest_findArtifact {file : Option Bytes} {specifier name digest : String}
    {art : JobArtifact} (hfind : findArtifact codec file specifier = some (name, art))
    (hdigest : art.sha256Hex = some digest) :
    ∃ t, file.bind codec.fromStr = some t ∧ t.HasDigest digest := by
  simp only [findArtifact, Option.bind_eq_bind, Option.bind_eq_some_iff, Option.pure_def,
    Option.some.injEq, Prod.mk.injEq] at hfind
  obtain ⟨⟨jid, name'⟩, -, prev, hprev, art', hart, -, rfl⟩ := hfind
  exact hasDigest_loadedFrom ⟨jid, prev, hprev, art', List.mem_of_find?_eq_some hart, hdigest⟩

private theorem available_of_known (hsha : ∀ bytes, IsDigest (h.sha256Hex bytes))
    (hknown : Known codec (h.HasBlob s.store.files) s.jobs (h.jobsFile s.store.files)) :
    h.DigestsAvailable codec s := by
  refine ⟨hknown.recorded, hknown.saved, ?_⟩
  intro cwd specifier input name art digest hfind hdigest
  obtain ⟨t, ht, hin⟩ := hasDigest_findArtifact hfind hdigest
  refine ⟨attachment name digest, ?_, resolves_attachment hsha name (hknown.saved t ht digest hin)⟩
  simp only [useArtifact, hfind, hdigest]

private theorem findsBlobs_of_available {nodeId : String} {event : JobEvent}
    (hkeeps : h.KeepsBlobs s event)
    (hafter : h.DigestsAvailable codec (h.jobNext codec nodeId s event)) :
    h.FindsBlobs codec s event := by
  cases event with
  | stageArtifact jobId artifact i now =>
    intro hcan
    have hblob {digest : String} (hnext : h.HasBlob
        (h.jobNext codec nodeId s (.stageArtifact jobId artifact i now)).store.files digest) :
        h.HasBlob s.store.files digest := by
      apply hasBlob_of_kept _ hnext
      intro path bytes hpath hfile
      rw [files_stageArtifact, fileAt_stageArtifact fun hcan ↦ hkeeps hcan _ path hpath] at hfile
      exact hfile
    constructor
    · rintro ⟨job, hjob, hin⟩
      obtain ⟨next, -, hstep⟩ := stageArtifact_of_copyable
        (s := { files := s.store.files, jobs := s.jobs }) now i hcan
      apply hblob
      apply hafter.recorded
      rw [jobs_stageArtifact, hstep]
      exact hasDigest_of_digestRecord hjob hin _ _
    · intro htarget t ht digest hin
      apply hblob
      apply hafter.saved t _ digest hin
      rw [files_stageArtifact, jobsFile, ← htarget, fileAt_target i now hcan]
      exact ht
  | life event =>
    cases event with
    | call op now =>
      cases op with
      | addJobArtifact jobId artifact =>
        intro hheld digest hdigest
        obtain ⟨job, hjob⟩ := Option.ne_none_iff_exists'.mp hheld
        apply hafter.recorded digest
        refine ⟨jobId, artifactRecord artifact now job, ?_, artifact, ?_, hdigest⟩
        · change (s.jobs.addJobArtifact jobId artifact now).getJob jobId = _
          rw [JobManagerState.addJobArtifact, JobManagerState.getJob_updateJob, if_pos rfl, hjob,
            Option.map_some]
        · exact List.mem_append_right _ List.mem_cons_self
      | _ => trivial
    | syncJob job =>
      intro hnewer a ha digest hdigest
      apply hafter.recorded digest
      refine ⟨job.id, job, ?_, a, ha, hdigest⟩
      change (s.jobs.syncJob job).getJob job.id = some job
      rw [JobManagerState.getJob_syncJob_self]
      cases hheld : s.jobs.getJob job.id with
      | none => rfl
      | some held => exact if_pos (hnewer held hheld)
    | _ => trivial
  | program files => exact hafter.saved
  | _ => trivial

private theorem stageArtifact_copied (jobId : String) (now : Clock) (t : Staging)
    (entry : JobArtifact × Nat) :
    (h.stageArtifact jobId now { files := t.files, jobs := t.jobs } entry).files =
        (h.stageArtifact jobId now t entry).files ∧
      (h.stageArtifact jobId now { files := t.files, jobs := t.jobs } entry).jobs =
        (h.stageArtifact jobId now t entry).jobs := by
  unfold stageArtifact
  dsimp only
  split
  · exact ⟨rfl, rfl⟩
  · split
    · exact ⟨rfl, rfl⟩
    · exact ⟨rfl, rfl⟩

end Steps

variable (h : StagingHost)

/-- What an executor does at its end is a run of the events. -/
theorem run_captureEvents (codec : StoreCodec) (nodeId : String) (s : JobNode) (jobId : String)
    (exec : Option (List ArtifactSpec)) (addNow stageNow : Clock) :
    run (h.jobStep codec nodeId) s (h.captureEvents s jobId exec addNow stageNow) =
      some (s.staged (h.captureArtifacts s.store.files s.jobs jobId exec addNow stageNow)) := by
  have hadds (arts : List ArtifactSpec) : run (h.jobStep codec nodeId) s
      (arts.zipIdx.map fun (art, i) ↦ .life (.call
        (.addJobArtifact jobId (h.captured s.store.files art)) fun _ ↦ addNow i)) =
      some (s.staged { files := s.store.files
                       jobs := h.addArtifacts s.store.files s.jobs jobId arts addNow }) :=
    run_map (fun jobs ↦ s.staged { files := s.store.files, jobs }) (fun _ _ ↦ rfl) s.jobs _
  have hstage (artifacts : List JobArtifact) (t : Staging) : run (h.jobStep codec nodeId)
      (s.staged t) (artifacts.zipIdx.map fun (a, i) ↦ .stageArtifact jobId a i stageNow) =
      some (s.staged (artifacts.zipIdx.foldl (h.stageArtifact jobId stageNow) t)) := by
    apply run_map s.staged
    rintro t ⟨a, i⟩
    obtain ⟨hfiles, hjobs⟩ := stageArtifact_copied (h := h) jobId stageNow t (a, i)
    change some (s.staged (h.stageArtifact jobId stageNow { files := t.files, jobs := t.jobs }
      (a, i))) = some (s.staged (h.stageArtifact jobId stageNow t (a, i)))
    rw [JobNode.staged, JobNode.staged, hfiles, hjobs]
  unfold captureEvents captureArtifacts
  cases exec with
  | none => rfl
  | some arts =>
    dsimp only
    cases hjob : (h.addArtifacts s.store.files s.jobs jobId arts addNow).getJob jobId with
    | none => exact hadds arts
    | some job =>
      dsimp only
      rw [run_append, hadds, Option.bind_some]
      apply run_cons_eq_some.mpr
      have hdir (jobs : JobManagerState) : h.jobStep codec nodeId
          (s.staged { files := s.store.files, jobs }) (.makeArtifactsDir jobId) =
          some (s.staged
            { files := (s.store.files.makeDirs (h.resolve (h.artifactsDir jobId))).1, jobs }) := by
        simp only [jobStep, jobNext, JobNode.staged]
      refine ⟨_, hdir (h.addArtifacts s.store.files s.jobs jobId arts addNow), ?_⟩
      unfold stageArtifacts
      generalize s.store.files.makeDirs (h.resolve (h.artifactsDir jobId)) = made
      obtain ⟨made, error⟩ := made
      cases error with
      | some e => rfl
      | none => exact hstage job.artifacts { files := made, jobs := _ }

/-- In every run in which nothing but the store writes blobs, and all that brings a digest finds
its blob there, the recorded digests are available all the time; and a run of the first kind in
which they are has only events of the second kind. -/
theorem digests_available (hsha : ∀ bytes, IsDigest (h.sha256Hex bytes)) {codec : StoreCodec}
    (hcodec : codec.Faithful) (nodeId : String) {s : JobNode}
    (hstart : h.DigestsAvailable codec s) (events : List JobEvent) :
    (StepsMeet (h.jobStep codec nodeId)
        (fun s event ↦ h.KeepsBlobs s event ∧ h.FindsBlobs codec s event) s events →
      Throughout (h.jobStep codec nodeId) (h.DigestsAvailable codec) s events) ∧
    (StepsMeet (h.jobStep codec nodeId) h.KeepsBlobs s events →
      Throughout (h.jobStep codec nodeId) (h.DigestsAvailable codec) s events →
      StepsMeet (h.jobStep codec nodeId) (h.FindsBlobs codec) s events) := by
  constructor
  · intro hmeets
    have hstep (s : JobNode) (event : JobEvent) (t : JobNode)
        (hknown : Known codec (h.HasBlob s.store.files) s.jobs (h.jobsFile s.store.files))
        (hevent : h.KeepsBlobs s event ∧ h.FindsBlobs codec s event)
        (ht : h.jobStep codec nodeId s event = some t) :
        Known codec (h.HasBlob t.store.files) t.jobs (h.jobsFile t.store.files) := by
      cases ht
      exact known_jobNext hsha hcodec hevent.1 hevent.2 hknown
    exact throughout_of_invariant hstep (fun s hknown ↦ available_of_known hsha hknown)
      ⟨hstart.recorded, hstart.saved⟩ hmeets
  · intro hkeeps hthroughout
    apply stepsMeet_of_throughout _ hthroughout hkeeps
    intro s event _ hkeep hnext
    exact findsBlobs_of_available hkeep (hnext _ rfl)

end StagingHost

/-! ### A digest without a blob -/

private def build : JobSpec where
  name := "build"
  runtime := .native "make" none [] []

-- A job leaves an artifact behind, which is staged; its file is in the store or it is not.
private def buildAndStage (stored : List JobEvent) : List JobEvent :=
  [.life (.saveToDisk [] 100), .life .loadFromDisk,
    .life (.submitJob build none (some "node-1") fun _ ↦ 100),
    .life (.call (.startJob "node-1") fun _ ↦ 101)] ++ stored ++
  [.life (.call (.completeJob "node-1" 0) fun _ ↦ 102),
    .life (.call (.addJobArtifact "node-1"
      (artifactHost.captured artifactFiles ⟨"/out/app.wasm", some "app.wasm"⟩)) fun _ ↦ 103),
    .makeArtifactsDir "node-1",
    .stageArtifact "node-1"
      (artifactHost.captured artifactFiles ⟨"/out/app.wasm", some "app.wasm"⟩) 0 fun _ ↦ 104]

-- The node that the job runs on.
private def buildNode : JobNode where
  store := { files := artifactFiles }

private def wasmDigest : String := "4bf5122f344554c53bde2ebb8cd2b7e3d1600ad631c385a5d7cce23c7785459a"

private def wasmPath : String :=
  "/srv/realm-agent/artifacts/blobs/sha256/4b/f5/" ++ wasmDigest

private theorem isDigest_wasm : IsDigest wasmDigest := by decide

private theorem isDigest_artifactHost (bytes : Bytes) :
    IsDigest (artifactHost.sha256Hex bytes) := by
  unfold artifactHost
  dsimp only
  split
  · decide
  · exact isDigest_wasm

private theorem buildNode_available : artifactHost.DigestsAvailable emptyStoreCodec buildNode := by
  apply StagingHost.available_of_known isDigest_artifactHost
  constructor
  · intro digest hin
    exact absurd hin (JobManagerState.not_hasDigest_new digest)
  · intro t ht
    have hmissing : artifactHost.jobsFile buildNode.store.files = none := by
      decide
    rw [hmissing] at ht
    cases ht

private theorem target_ne_blob (bytes : Bytes) {path : String}
    (hpath : pathForDigest artifactHost.blobsDir (artifactHost.sha256Hex bytes) = some path) :
    artifactHost.targetPlace "node-1" (artifactHost.captured artifactFiles
      ⟨"/out/app.wasm", some "app.wasm"⟩) ≠ Path.place path := by
  obtain ⟨path', hpath', hplace, -⟩ :=
    pathForDigest_eq_blob artifactHost.blobsDir (isDigest_artifactHost bytes)
  obtain rfl : path' = path := Option.some.inj (hpath'.symm.trans hpath)
  intro heq
  have hlen := congrArg List.length (heq.trans hplace)
  rw [length_blobPlace] at hlen
  revert hlen
  decide

private theorem target_ne_jobs : artifactHost.targetPlace "node-1"
    (artifactHost.captured artifactFiles ⟨"/out/app.wasm", some "app.wasm"⟩) ≠
      artifactHost.jobsPlace := by
  decide +kernel

private theorem sha256Hex_copied {files : Files}
    (hout : files.fileAt ["out", "app.wasm"] = some [1]) :
    artifactHost.sha256Hex (artifactHost.copyOf "node-1" files
      (artifactHost.captured artifactFiles ⟨"/out/app.wasm", some "app.wasm"⟩)) = wasmDigest := by
  have hsource : Path.place (artifactHost.resolve "/out/app.wasm") = ["out", "app.wasm"] := by
    decide
  have hapart : ["out", "app.wasm"] ≠
      Path.place (artifactHost.resolve (artifactHost.getArtifactPath "node-1" "app.wasm")) := by
    decide
  have hstored : (artifactHost.captured artifactFiles
      ⟨"/out/app.wasm", some "app.wasm"⟩).storedPath = "/out/app.wasm" := rfl
  have hname : (artifactHost.captured artifactFiles
      ⟨"/out/app.wasm", some "app.wasm"⟩).name = "app.wasm" := rfl
  rw [StagingHost.copyOf, hstored, hname, Files.leaves, hsource, if_neg hapart, hout]
  rfl

private theorem stepsMeet_cons {p : JobNode → JobEvent → Prop} {s : JobNode} {event : JobEvent}
    {rest : List JobEvent} (hevent : p s event)
    (hrest : StepsMeet (artifactHost.jobStep emptyStoreCodec "node") p
      (artifactHost.jobNext emptyStoreCodec "node" s event) rest) :
    StepsMeet (artifactHost.jobStep emptyStoreCodec "node") p s (event :: rest) := by
  refine ⟨hevent, ?_⟩
  intro t ht
  exact Option.some.inj ht ▸ hrest

private theorem pathForDigest_wasm :
    pathForDigest artifactHost.blobsDir wasmDigest = some wasmPath := by
  decide

-- The place of the blob.
private def wasmPlace : List String :=
  ["srv", "realm-agent", "artifacts", "blobs", "sha256", "4b", "f5", wasmDigest]

private theorem place_wasmPath :
    Path.place wasmPath = wasmPlace ∧ Path.parentPlace wasmPath = wasmPlace.dropLast := by
  obtain ⟨path, hpath, hplace, hparent⟩ :=
    pathForDigest_eq_blob artifactHost.blobsDir isDigest_wasm
  obtain rfl := Option.some.inj (hpath.symm.trans pathForDigest_wasm)
  have hblob : blobPlace artifactHost.blobsDir wasmDigest = wasmPlace := by decide
  rw [hplace, hparent, hblob]
  exact ⟨rfl, rfl⟩

-- The files of the node once its manager has saved an empty store.
private def savedFiles : Files :=
  artifactHost.writeJobs artifactFiles ((emptyStoreCodec.toStringPretty [] {}).take 100)

private theorem files_stored (s : JobNode) (hfiles : s.store = { files := savedFiles }) :
    artifactHost.HasBlob (artifactHost.jobNext emptyStoreCodec "node" s
        (.putBytes [1] {})).store.files wasmDigest ∧
      (artifactHost.jobNext emptyStoreCodec "node" s (.putBytes [1] {})).store.files.fileAt
        ["out", "app.wasm"] = some [1] := by
  have hsha : artifactHost.sha256Hex [1] = wasmDigest := rfl
  have hput : ((Store.opened { files := savedFiles } artifactHost.blobsDir).putBytes
      artifactHost.sha256Hex artifactHost.blobsDir [1] {}).map (fun r ↦
        (r.1.files.fileAt (Path.place wasmPath), r.1.files.fileAt ["out", "app.wasm"])) =
      some (some [1], some [1]) := by
    unfold Store.putBytes Store.writeBlob
    dsimp only
    rw [hsha, pathForDigest_wasm, Option.bind_eq_bind, Option.bind_some, place_wasmPath.1,
      place_wasmPath.2]
    decide +kernel
  obtain ⟨⟨t, result⟩, hput, hseen⟩ := Option.map_eq_some_iff.mp hput
  obtain ⟨hblob, hout⟩ := Prod.mk.inj hseen
  have hnext : (artifactHost.jobNext emptyStoreCodec "node" s (.putBytes [1] {})).store = t := by
    simp only [StagingHost.jobNext, hfiles, hput]
  rw [hnext]
  exact ⟨⟨wasmPath, [1], pathForDigest_wasm, hblob, hsha⟩, hout⟩

/-- The bytes are in the content store before they are staged, and all digests are available. -/
theorem digests_available_stored :
    Throughout (artifactHost.jobStep emptyStoreCodec "node")
      (artifactHost.DigestsAvailable emptyStoreCodec) buildNode
      (buildAndStage [.putBytes [1] {}]) := by
  apply (artifactHost.digests_available isDigest_artifactHost faithful_emptyStoreCodec "node"
    buildNode_available _).1
  refine stepsMeet_cons ⟨trivial, trivial⟩ ?_
  refine stepsMeet_cons ⟨trivial, trivial⟩ ?_
  refine stepsMeet_cons ⟨trivial, trivial⟩ ?_
  refine stepsMeet_cons ⟨trivial, trivial⟩ ?_
  refine stepsMeet_cons ⟨trivial, trivial⟩ ?_
  refine stepsMeet_cons ⟨trivial, trivial⟩ ?_
  refine stepsMeet_cons ⟨trivial, fun _ digest hdigest ↦ by cases hdigest⟩ ?_
  refine stepsMeet_cons ⟨trivial, trivial⟩ ?_
  refine stepsMeet_cons ⟨fun _ bytes path hpath ↦ target_ne_blob bytes hpath,
    fun _ ↦ ⟨fun _ ↦ ?_, fun htarget ↦ absurd htarget target_ne_jobs⟩⟩ trivial
  generalize hs : artifactHost.jobNext emptyStoreCodec "node" _
    (.life (.call (.startJob "node-1") fun _ ↦ 101)) = s
  have hfiles : s.store = { files := savedFiles } := by
    rw [← hs]
    rfl
  obtain ⟨hblob, hout⟩ := files_stored s hfiles
  rw [sha256Hex_copied]
  · refine StagingHost.hasBlob_jobNext isDigest_artifactHost trivial ?_
    refine StagingHost.hasBlob_jobNext isDigest_artifactHost trivial ?_
    exact StagingHost.hasBlob_jobNext isDigest_artifactHost trivial hblob
  · refine StagingHost.fileAt_jobNext trivial ?_
    refine StagingHost.fileAt_jobNext trivial ?_
    exact StagingHost.fileAt_jobNext trivial hout

/-- Staging alone records the digest, and the lookup of the attachment finds nothing. -/
theorem staged_digest_missing :
    ∃ t, run (artifactHost.jobStep emptyStoreCodec "node") buildNode (buildAndStage []) = some t ∧
      t.jobs.HasDigest wasmDigest ∧
      ((t.store.opened artifactHost.blobsDir).getPath artifactHost.blobsDir wasmDigest {}).map
        Prod.snd = some none ∧
      ¬ artifactHost.DigestsAvailable emptyStoreCodec t := by
  have hseen : (run (artifactHost.jobStep emptyStoreCodec "node") buildNode
      (buildAndStage [])).map (fun t ↦
        ((t.jobs.getJob "node-1").map fun job ↦ job.artifacts.map (·.sha256Hex),
          (t.store.opened artifactHost.blobsDir).files[wasmPlace]?,
          t.store.files.fileAt wasmPlace)) =
      some (some [some wasmDigest], none, none) := by
    decide +kernel
  obtain ⟨t, hrun, ht⟩ := Option.map_eq_some_iff.mp hseen
  obtain ⟨hjob, hfree, hfile⟩ : _ ∧ _ ∧ _ := by simpa only [Prod.mk.injEq] using ht
  obtain ⟨job, hjob, hdigests⟩ := Option.map_eq_some_iff.mp hjob
  have hlookup : ((t.store.opened artifactHost.blobsDir).getPath artifactHost.blobsDir wasmDigest
      {}).map Prod.snd = some none := by
    unfold Store.getPath
    rw [pathForDigest_wasm, Option.bind_eq_bind, Option.bind_some,
      lookupDigest_of_isDigest _ isDigest_wasm pathForDigest_wasm, place_wasmPath.1, hfree]
    rfl
  have hrecorded : t.jobs.HasDigest wasmDigest := by
    have hin : some wasmDigest ∈ job.artifacts.map (·.sha256Hex) := by
      rw [hdigests]
      exact List.mem_cons_self
    obtain ⟨a, ha, hdigest⟩ := List.mem_map.mp hin
    exact ⟨"node-1", job, hjob, a, ha, hdigest⟩
  refine ⟨t, hrun, hrecorded, hlookup, ?_⟩
  intro havailable
  obtain ⟨path, bytes, hpath, hheld, -⟩ := havailable.recorded wasmDigest hrecorded
  obtain rfl : path = wasmPath := Option.some.inj (hpath.symm.trans pathForDigest_wasm)
  rw [place_wasmPath.1, hfile] at hheld
  cases hheld

end PeerDeploy.Job
