import PeerDeploy.Base.Copies
import PeerDeploy.Deploy.Handler
import PeerDeploy.Storage.ContentStore
import PeerDeploy.Storage.Exchange

/-!
# The three job executors

`execute_wasm_job`, `execute_native_job` and `execute_qemu_job`
(`crates/agent/src/p2p/jobs_wasm.rs`, `jobs_native.rs`, `jobs_qemu.rs`) up to the point where
the program runs: find the program, check its digest, stage the attachments, launch. The
three fetch and staging parts are the same text and one definition here; the executors differ
in their policy check, in when the program goes into the content store, and in the launch.
Log lines and the job records are left out.
-/

namespace PeerDeploy.Execution

open PeerDeploy.Common PeerDeploy.Base PeerDeploy.Storage

/-- What stays the same while an agent runs. -/
structure Host where
  sha256Hex : Bytes → String
  base64Decode : String → Except String Bytes
  dataDir : String
  /-- The working directory, where relative paths start. -/
  cwd : String
  os : String
  /-- `which::which`. -/
  which : String → Option String

/-- `crates/agent/src/policy.rs:3–9`. -/
structure ExecutionPolicy where
  allowNativeExecution : Bool := false
  allowEmulation : Bool := false

/-- What a step reads from outside. -/
structure ExecInput where
  policy : ExecutionPolicy := {}
  store : StoreInput := {}
  /-- The answer of a fetch: bytes, or the error text. -/
  fetched : Except String Bytes := .ok []
  readError : Option String := none
  writeError : Option String := none
  spawnError : Option String := none

/-- What is known of the program while the attachments are staged. -/
inductive Program where
  /-- Its bytes, still to be stored. -/
  | fetched (bytes : Bytes)
  /-- The file to run. -/
  | stored (path : String)

/-- Where an executor stands. -/
inductive ExecPc where
  | start
  | fetchProgram
  | readProgram (path : String)
  /-- Waits for the answer to a request; `save` says that it goes into the content store. -/
  | askProgram (request : Nat) (save : Bool)
  | stage (program : Program) (rest : List PreStageSpec)
  | readItem (program : Program) (item : PreStageSpec) (hex path : String)
      (rest : List PreStageSpec)
  | askItem (program : Program) (item : PreStageSpec) (hex : String) (request : Nat)
      (rest : List PreStageSpec)
  | writeItem (program : Program) (item : PreStageSpec) (hex : String) (bytes : Bytes)
      (rest : List PreStageSpec)
  | running (path : String)
  | failed (error : String)
  | panicked

/-- An executor of a job, with or without access to other peers. -/
structure ExecTask where
  job : JobSpec
  storage : Bool := true
  pc : ExecPc := .start

/-- A file that an executor has written for an attachment. -/
structure StagedFile where
  hex : String
  dest : String
  bytes : Bytes
  deriving DecidableEq

/-- What a step leaves: the store, where the executor stands, the digest it asks other peers
for, and the attachment it has written. -/
structure Outcome where
  store : Store
  pc : ExecPc
  ask : Option String := none
  wrote : Option StagedFile := none

/-- The program text of a job's runtime: `source` or `binary`. -/
def programSource : JobRuntime → String
  | .wasm source _ _ _ _ _ => source
  | .native binary _ _ _ => binary
  | .qemu binary _ _ _ _ _ => binary

/-- Where a lookup leads. -/
inductive Found where
  | here (path : String)
  | peers
  | nowhere

/-- Look a digest up in the content store, else among other peers; `none` when it panics. -/
def findBlob (h : Host) (store : Store) (storage : Bool) (hex : String) (input : ExecInput) :
    Option (Store × Found) :=
  let base := baseDir h.dataDir
  ((store.opened base).getPath base hex input.store).map fun (store, found) ↦
    match found, storage with
    | some path, _ => (store, .here path)
    | none, true => (store, .peers)
    | none, false => (store, .nowhere)

/-- `crates/agent/src/policy.rs:55–61`. -/
def policyEnableHelp (h : Host) : String :=
  let path := Path.join h.dataDir "policy.json"
  "To enable, create " ++ path ++ " with:\n\x7b\n  \"allow_native_execution\": true,\n" ++
    "  \"allow_emulation\": true\n\x7d\nOr set env vars REALM_ALLOW_NATIVE_EXECUTION=1 and/or " ++
    "REALM_ALLOW_EMULATION=1."

/-- `crates/agent/src/policy.rs:46–53`. -/
def qemuInstallHelp (h : Host) : String :=
  match h.os with
  | "linux" => "Install qemu-user binaries (e.g., \x60sudo apt install qemu-user\x60 or " ++
      "\x60sudo dnf install qemu-user-binfmt\x60)."
  | "macos" => "Install QEMU with Homebrew: \x60brew install qemu\x60 (user-mode binaries like " ++
      "qemu-aarch64, qemu-x86_64)."
  | "freebsd" => "Install QEMU via pkg: \x60sudo pkg install qemu-user-static\x60."
  | _ => "Install QEMU user-mode emulator (package name varies by OS)."

/-- `Debug` of an optional text that holds nothing to escape. -/
def debugOption : Option String → String
  | none => "None"
  | some text => "Some(\"" ++ text ++ "\")"

/-- `crates/agent/src/p2p/jobs_qemu.rs:237–254`. -/
def resolveQemuBinary (h : Host) (targetPlatform : Option String) : Option String :=
  let parts := (targetPlatform.map fun p ↦ Path.splitSlash p.toList).getD []
  let arch := (parts[1]?.map String.ofList).getD "x86_64"
  let qemuName := match arch with
    | "x86_64" | "amd64" => some "qemu-x86_64"
    | "aarch64" | "arm64" => some "qemu-aarch64"
    | "arm" | "armv7" => some "qemu-arm"
    | "riscv64" => some "qemu-riscv64"
    | _ => none
  qemuName.bind h.which

/-! ### The parts of an executor -/

/-- Stop with an error. -/
def Outcome.fail (store : Store) (error : String) : Outcome := { store, pc := .failed error }

/-- Start with the content store or with a fetch; `jobs_wasm.rs:32–36,79–87`. -/
def locateProgram (h : Host) (store : Store) (task : ExecTask) (request : Nat)
    (input : ExecInput) : Outcome :=
  let source := programSource task.job.runtime
  match task.job.runtime.digest with
  | none => { store, pc := .fetchProgram }
  | some hex =>
    if Text.startsWith "cached:" source || Text.startsWith "cas:" source then
      match findBlob h store task.storage hex input with
      | none => { store, pc := .panicked }
      | some (store, .here path) => { store, pc := .readProgram path }
      | some (store, .peers) => { store, pc := .askProgram request true, ask := some hex }
      | some (store, .nowhere) =>
        .fail store "job failed: digest not local and no P2P storage available"
    else { store, pc := .fetchProgram }

/-- Store the program and find its file; `jobs_wasm.rs:122–129`. `none` when it panics. -/
def keepProgram (h : Host) (store : Store) (bytes : Bytes) (input : ExecInput) :
    Option (Store × Except String String) := do
  let base := baseDir h.dataDir
  let (store, result) ← (store.opened base).putBytes h.sha256Hex base bytes input.store
  match result with
  | .error e => return (store, .error s!"cas put failed: {e}")
  | .ok digest =>
    let (store, found) ← store.getPath base digest input.store
    return (store, match found with
      | some path => .ok path
      | none => .error "cas path missing")

/-- The program has arrived: check its digest, and for a native job store it;
`jobs_wasm.rs:86–91`, `jobs_native.rs:108–136`. -/
def withProgram (h : Host) (store : Store) (task : ExecTask) (bytes : Bytes)
    (input : ExecInput) : Outcome :=
  if task.job.runtime.digest.all (h.sha256Hex bytes == ·) then
    match task.job.runtime with
    | .native _ _ _ _ =>
      match keepProgram h store bytes input with
      | none => { store, pc := .panicked }
      | some (store, .error e) => .fail store e
      | some (store, .ok path) =>
        { store, pc := .stage (.stored path) task.job.execution.preStage }
    | _ => { store, pc := .stage (.fetched bytes) task.job.execution.preStage }
  else .fail store "job failed: digest mismatch"

/-- The start of `execute_wasm_job`; `jobs_wasm.rs:5–36`. -/
def executeWasmJob (h : Host) (store : Store) (task : ExecTask) (request : Nat)
    (input : ExecInput) : Outcome := locateProgram h store task request input

/-- The start of `execute_native_job`; `jobs_native.rs:6–60`. -/
def executeNativeJob (h : Host) (store : Store) (task : ExecTask) (request : Nat)
    (input : ExecInput) : Outcome :=
  if input.policy.allowNativeExecution then
    let binary := programSource task.job.runtime
    if Path.isAbsolute binary then
      { store, pc := .stage (.stored binary) task.job.execution.preStage }
    else locateProgram h store task request input
  else
    let help := policyEnableHelp h
    .fail store
      s!"job failed: native execution is disabled by policy for job {task.job.name}. {help}"

/-- The start of `execute_qemu_job`; `jobs_qemu.rs:6–47`. -/
def executeQemuJob (h : Host) (store : Store) (task : ExecTask) (request : Nat)
    (input : ExecInput) : Outcome :=
  if input.policy.allowEmulation then locateProgram h store task request input
  else
    let help := policyEnableHelp h
    .fail store s!"job failed: QEMU emulation is disabled by policy for job {task.job.name}. {help}"

/-- The fetch has come back; `jobs_wasm.rs:57–85`. -/
def fetchDone (h : Host) (store : Store) (task : ExecTask) (request : Nat) (input : ExecInput) :
    Outcome :=
  match Deploy.fetchBytes (programSource task.job.runtime) input.fetched with
  | .ok bytes => withProgram h store task bytes input
  | .error e =>
    match task.job.runtime.digest with
    | none => .fail store s!"job failed: fetch: {e}"
    | some hex =>
      if task.storage then { store, pc := .askProgram request false, ask := some hex }
      else .fail store "job failed: unsupported source and no P2P storage"

/-- The answer of other peers to a request for the program, or none in time;
`jobs_wasm.rs:42–51,63–72`. -/
def programAnswered (h : Host) (store : Store) (task : ExecTask) (save : Bool)
    (answer : Option Bytes) (input : ExecInput) : Outcome :=
  match answer with
  | none =>
    .fail store (if save then "job failed: digest not available via P2P"
      else "job failed: fetch unavailable and P2P fetch failed")
  | some bytes =>
    if save then
      match store.putBytes h.sha256Hex (baseDir h.dataDir) bytes input.store with
      | none => { store, pc := .panicked }
      | some (store, _) => withProgram h store task bytes input
    else withProgram h store task bytes input

/-- Look the next attachment up; `jobs_native.rs:164–184`. -/
def stageItem (h : Host) (store : Store) (task : ExecTask) (program : Program)
    (item : PreStageSpec) (rest : List PreStageSpec) (request : Nat) (input : ExecInput) :
    Outcome :=
  match Text.stripPrefix "cas:" item.source with
  | none => { store, pc := .stage program rest }
  | some hex =>
    match findBlob h store task.storage hex input with
    | none => { store, pc := .panicked }
    | some (store, .here path) => { store, pc := .readItem program item hex path rest }
    | some (store, .peers) =>
      { store, pc := .askItem program item hex request rest, ask := some hex }
    | some (store, .nowhere) =>
      .fail store "prestage: digest not local and no P2P storage available"

/-- The answer of other peers to a request for an attachment, or none in time;
`jobs_native.rs:173–181`. -/
def itemAnswered (store : Store) (program : Program) (item : PreStageSpec) (hex : String)
    (rest : List PreStageSpec) : Option Bytes → Outcome
  | none => .fail store s!"prestage: digest not available via P2P: {hex}"
  | some bytes => { store, pc := .writeItem program item hex bytes rest }

/-- The place of an attachment. -/
def destPlace (h : Host) (item : PreStageSpec) : List String :=
  Path.place (Path.join h.cwd item.dest)

/-- Write the attachment; `jobs_native.rs:185–190`. -/
def writeItem (h : Host) (store : Store) (program : Program) (item : PreStageSpec) (hex : String)
    (bytes : Bytes) (rest : List PreStageSpec) (input : ExecInput) : Outcome :=
  let files := store.files.createDirAll (Path.parentPlace (Path.join h.cwd item.dest))
  match files.write (destPlace h item) bytes input.writeError with
  | .error e => .fail { store with files } s!"prestage write failed: {e}"
  | .ok files =>
    { store := { store with files }
      pc := .stage program rest
      wrote := some { hex, dest := item.dest, bytes } }

/-- All attachments are there: run the program; `jobs_wasm.rs:122–175`,
`jobs_native.rs:193`, `jobs_qemu.rs:128–196`. -/
def launch (h : Host) (store : Store) (task : ExecTask) (program : Program) (input : ExecInput) :
    Outcome :=
  let spawn (store : Store) (path : String) : Outcome :=
    match input.spawnError with
    | some e => .fail store e
    | none => { store, pc := .running path }
  match program with
  | .stored path => spawn store path
  | .fetched bytes =>
    match keepProgram h store bytes input with
    | none => { store, pc := .panicked }
    | some (store, .error e) => .fail store e
    | some (store, .ok path) =>
      match task.job.runtime with
      | .qemu _ _ _ _ targetPlatform qemuBinary =>
        if (qemuBinary <|> resolveQemuBinary h targetPlatform).isSome then spawn store path
        else
          let platform := debugOption targetPlatform
          let help := qemuInstallHelp h
          .fail store
            s!"job failed: QEMU user-mode binary not found for platform {platform}. {help}"
      | _ => { store, pc := .running path }

/-- One step of an executor that has no request open: a request that it makes gets the given
number. -/
def ExecTask.advance (h : Host) (store : Store) (task : ExecTask) (request : Nat)
    (input : ExecInput) : Option Outcome :=
  match task.pc with
  | .start => some <| match task.job.runtime with
    | .wasm _ _ _ _ _ _ => executeWasmJob h store task request input
    | .native _ _ _ _ => executeNativeJob h store task request input
    | .qemu _ _ _ _ _ _ => executeQemuJob h store task request input
  | .fetchProgram => some (fetchDone h store task request input)
  | .readProgram path => some <| match store.files.read (Path.place path) input.readError with
    | .error e => .fail store s!"cas read failed: {e}"
    | .ok bytes => withProgram h store task bytes input
  | .stage program [] => some (launch h store task program input)
  | .stage program (item :: rest) => some (stageItem h store task program item rest request input)
  | .readItem program item hex path rest =>
    some <| match store.files.read (Path.place path) input.readError with
    | .error e => .fail store s!"prestage cas read failed: {e}"
    | .ok bytes => { store, pc := .writeItem program item hex bytes rest }
  | .writeItem program item hex bytes rest =>
    some (writeItem h store program item hex bytes rest input)
  | .askProgram _ _ | .askItem _ _ _ _ _ | .running _ | .failed _ | .panicked => none

/-- The step of an executor when its open request is answered, or timed out. -/
def ExecTask.answered (h : Host) (store : Store) (task : ExecTask) (answer : Option Bytes)
    (input : ExecInput) : Option Outcome :=
  match task.pc with
  | .askProgram _ save => some (programAnswered h store task save answer input)
  | .askItem program item hex _ rest => some (itemAnswered store program item hex rest answer)
  | _ => none

/-! ### What a step can do -/

/-- The store operations of a step keep the invariant of the content store, and the files
elsewhere as they are. -/
structure Keeps (h : Host) (s t : Store) : Prop where
  inv : StoreInv h.sha256Hex (baseDir h.dataDir) s.files →
    StoreInv h.sha256Hex (baseDir h.dataDir) t.files
  apart : ∀ place, ¬ Path.place (baseDir h.dataDir) <+: place →
    t.files.fileAt place = s.files.fileAt place

/-- The executor is still after its program. -/
def ExecPc.early : ExecPc → Bool
  | .start | .fetchProgram | .readProgram _ | .askProgram _ _ => true
  | _ => false

/-- The executor has come to its end. -/
def ExecPc.finished : ExecPc → Bool
  | .running _ | .failed _ | .panicked => true
  | _ => false

/-- A bound on the steps to the end, for a job with that many attachments. -/
def ExecPc.stepsLeft (attachments : Nat) : ExecPc → Nat
  | .start => 3 * attachments + 4
  | .fetchProgram => 3 * attachments + 3
  | .readProgram _ | .askProgram _ _ => 3 * attachments + 2
  | .stage _ rest => 3 * rest.length + 1
  | .readItem _ _ _ _ rest | .askItem _ _ _ _ rest => 3 * rest.length + 3
  | .writeItem _ _ _ _ rest => 3 * rest.length + 2
  | .running _ | .failed _ | .panicked => 0

/-- The digest text that the next step looks up in the content store. -/
def ExecTask.looksUp (task : ExecTask) : Option String :=
  match task.pc with
  | .start =>
    let source := programSource task.job.runtime
    if Text.startsWith "cached:" source || Text.startsWith "cas:" source then
      task.job.runtime.digest
    else none
  | .stage _ (item :: _) => Text.stripPrefix "cas:" item.source
  | _ => none

/-- The steps of an executor, one case for each kind. -/
inductive ExecMoves (h : Host) (store : Store) (task : ExecTask) (request : Nat) :
    Outcome → Prop where
  | failed {t : Store} {error : String} (hkeeps : Keeps h store t) :
    ExecMoves h store task request (.fail t error)
  | panicked {hex : String} (hlooks : task.looksUp = some hex)
    (hpath : pathForDigest (baseDir h.dataDir) hex = none) :
    ExecMoves h store task request { store, pc := .panicked }
  | sought {t : Store} {pc : ExecPc} {ask : Option String} (hkeeps : Keeps h store t)
    (hnext : pc.early = true)
    (hless : ∀ n, pc.stepsLeft n < task.pc.stepsLeft n) :
    ExecMoves h store task request { store := t, pc, ask }
  | obtained {t : Store} {program : Program} (hpc : task.pc.early = true)
    (hkeeps : Keeps h store t) :
    ExecMoves h store task request
      { store := t, pc := .stage program task.job.execution.preStage }
  | skipped {program : Program} {item : PreStageSpec} {rest : List PreStageSpec}
    (hpc : task.pc = .stage program (item :: rest))
    (hsource : Text.stripPrefix "cas:" item.source = none) :
    ExecMoves h store task request { store, pc := .stage program rest }
  | located {t : Store} {program : Program} {item : PreStageSpec} {rest : List PreStageSpec}
    {hex path : String} (hpc : task.pc = .stage program (item :: rest))
    (hsource : Text.stripPrefix "cas:" item.source = some hex) (hkeeps : Keeps h store t)
    (hpath : pathForDigest (baseDir h.dataDir) hex = some path)
    (hin : (store.opened (baseDir h.dataDir)).files.contains (Path.place path) = true) :
    ExecMoves h store task request { store := t, pc := .readItem program item hex path rest }
  | asked {t : Store} {program : Program} {item : PreStageSpec} {rest : List PreStageSpec}
    {hex : String} (hpc : task.pc = .stage program (item :: rest))
    (hsource : Text.stripPrefix "cas:" item.source = some hex) (hkeeps : Keeps h store t) :
    ExecMoves h store task request
      { store := t, pc := .askItem program item hex request rest, ask := some hex }
  | read {program : Program} {item : PreStageSpec} {rest : List PreStageSpec} {hex path : String}
    {bytes : Bytes} (hpc : task.pc = .readItem program item hex path rest)
    (hfile : store.files[Path.place path]? = some (.file bytes)) :
    ExecMoves h store task request { store, pc := .writeItem program item hex bytes rest }
  | wrote {t : Store} {program : Program} {item : PreStageSpec} {rest : List PreStageSpec}
    {hex : String} {bytes : Bytes} (hpc : task.pc = .writeItem program item hex bytes rest)
    (hinv : (∀ digest path, IsDigest digest →
      pathForDigest (baseDir h.dataDir) digest = some path →
        Path.place path = destPlace h item → h.sha256Hex bytes = digest) →
      StoreInv h.sha256Hex (baseDir h.dataDir) store.files →
        StoreInv h.sha256Hex (baseDir h.dataDir) t.files)
    (hfile : ∀ place, t.files.fileAt place =
      if destPlace h item = place then some bytes else store.files.fileAt place) :
    ExecMoves h store task request
      { store := t, pc := .stage program rest, wrote := some { hex, dest := item.dest, bytes } }
  | launched {t : Store} {program : Program} {path : String} (hpc : task.pc = .stage program [])
    (hkeeps : Keeps h store t) : ExecMoves h store task request { store := t, pc := .running path }

section Moves

variable {h : Host} {store : Store} {task : ExecTask} {request : Nat}

/-- Nothing changes. -/
theorem Keeps.refl (s : Store) : Keeps h s s := ⟨id, fun _ _ ↦ rfl⟩

/-- One change after the other. -/
theorem Keeps.trans {s t u : Store} (hst : Keeps h s t) (htu : Keeps h t u) : Keeps h s u where
  inv hs := htu.inv (hst.inv hs)
  apart place hplace := (htu.apart place hplace).trans (hst.apart place hplace)

/-- Opening the content store keeps it. -/
theorem keeps_opened (h : Host) (s : Store) : Keeps h s (s.opened (baseDir h.dataDir)) := by
  constructor
  · exact fun hinv ↦ storeInv_opened hinv
  · intro place _
    rw [Store.opened, Files.fileAt_createDirAll]

/-- Looking a digest up changes no file. -/
theorem keeps_getPath {s t : Store} {digest : String} {input : StoreInput}
    {found : Option String} (hget : s.getPath (baseDir h.dataDir) digest input = some (t, found)) :
    Keeps h s t := by
  have hfiles := (getPath_eq_some hget).1
  constructor
  · intro hinv
    rw [hfiles]
    exact hinv
  · intro place _
    rw [hfiles]

/-- Storing bytes keeps the content store. -/
theorem keeps_putBytes (hsha : ∀ bytes, IsDigest (h.sha256Hex bytes)) {s t : Store}
    {bytes : Bytes} {input : StoreInput} {result : Except String String}
    (hput : s.putBytes h.sha256Hex (baseDir h.dataDir) bytes input = some (t, result)) :
    Keeps h s t where
  inv hinv := storeInv_putBytes hsha hinv hput
  apart place hplace := by
    obtain ⟨path, a, b, hpath, hblob⟩ := pathForDigest_of_isDigest (baseDir h.dataDir) (hsha bytes)
    have hne : place ≠ Path.place path := by
      intro heq
      apply hplace
      rw [heq, hblob]
      exact List.prefix_append _ _
    apply Option.ext
    intro held
    rw [Files.fileAt_eq_some, Files.fileAt_eq_some]
    exact file_putBytes_iff hput hpath hne

private theorem findBlob_eq_some {storage : Bool} {hex : String} {input : ExecInput} {t : Store}
    {found : Found} (hfind : findBlob h store storage hex input = some (t, found)) :
    Keeps h store t ∧ ∀ path, found = .here path →
      pathForDigest (baseDir h.dataDir) hex = some path ∧
        (store.opened (baseDir h.dataDir)).files.contains (Path.place path) = true := by
  obtain ⟨⟨u, result⟩, hget, hresult⟩ := Option.map_eq_some_iff.mp hfind
  obtain ⟨hfiles, path, hpath, hwhere⟩ := getPath_eq_some hget
  have hkeeps : Keeps h store u := (keeps_opened h store).trans (keeps_getPath hget)
  cases result with
  | some p =>
    cases hresult
    refine ⟨hkeeps, ?_⟩
    intro q hq
    cases hq
    split at hwhere
    · next hin =>
      cases hwhere
      refine ⟨hpath, ?_⟩
      obtain ⟨entry, hentry⟩ := Option.isSome_iff_exists.mp hin
      rw [Std.ExtTreeMap.contains_eq_isSome_getElem?, entry_of_lookupDigest hpath hentry]
      rfl
    · cases hwhere
  | none =>
    cases storage with
    | false =>
      cases hresult
      exact ⟨hkeeps, fun q hq ↦ by cases hq⟩
    | true =>
      cases hresult
      exact ⟨hkeeps, fun q hq ↦ by cases hq⟩

private theorem findBlob_eq_none {storage : Bool} {hex : String} {input : ExecInput}
    (hfind : findBlob h store storage hex input = none) :
    pathForDigest (baseDir h.dataDir) hex = none := by
  cases hpath : pathForDigest (baseDir h.dataDir) hex with
  | none => rfl
  | some path =>
    obtain ⟨r, hget⟩ := getPath_isSome hpath (store.opened (baseDir h.dataDir)) input.store
    simp [findBlob, hget] at hfind

private theorem keepProgram_eq_some (hsha : ∀ bytes, IsDigest (h.sha256Hex bytes)) (store : Store)
    (bytes : Bytes) (input : ExecInput) :
    ∃ t result, keepProgram h store bytes input = some (t, result) ∧ Keeps h store t := by
  obtain ⟨⟨t, result⟩, hput⟩ := putBytes_isSome hsha (baseDir h.dataDir)
    (store.opened (baseDir h.dataDir)) bytes input.store
  have hkeeps : Keeps h store t := (keeps_opened h store).trans (keeps_putBytes hsha hput)
  unfold keepProgram
  simp only [hput, Option.bind_eq_bind, Option.bind_some]
  cases result with
  | error e => exact ⟨t, _, rfl, hkeeps⟩
  | ok digest =>
    have hdigest : IsDigest digest := by
      rw [putBytes_ok hput]
      exact hsha bytes
    obtain ⟨path, -, -, hpath, -⟩ := pathForDigest_of_isDigest (baseDir h.dataDir) hdigest
    obtain ⟨⟨u, found⟩, hget⟩ := getPath_isSome hpath t input.store
    exact ⟨u, _, by simp only [hget, Option.bind_some]; rfl, hkeeps.trans (keeps_getPath hget)⟩

private theorem moves_withProgram (hsha : ∀ bytes, IsDigest (h.sha256Hex bytes))
    (hpc : task.pc.early = true) {t : Store} (hkeeps : Keeps h store t) (bytes : Bytes)
    (input : ExecInput) : ExecMoves h store task request (withProgram h t task bytes input) := by
  unfold withProgram
  split
  · split
    · obtain ⟨u, result, hkeep, hnext⟩ := keepProgram_eq_some hsha t bytes input
      rw [hkeep]
      cases result with
      | error e => exact .failed (hkeeps.trans hnext)
      | ok path => exact .obtained hpc (hkeeps.trans hnext)
    · exact .obtained hpc hkeeps
  · exact .failed hkeeps

private theorem moves_locateProgram (hpc : task.pc = .start) (input : ExecInput) :
    ExecMoves h store task request (locateProgram h store task request input) := by
  have hless {pc : ExecPc} (hpc' : ∀ n, pc.stepsLeft n < 3 * n + 4) :
      ∀ n, pc.stepsLeft n < task.pc.stepsLeft n := by
    rw [hpc]
    exact hpc'
  unfold locateProgram
  simp only
  split
  · exact .sought (Keeps.refl store) rfl (hless fun n ↦ by simp only [ExecPc.stepsLeft]; omega)
  · next hex hdigest =>
    split
    · next hsource =>
      split
      · next hfind =>
        have hlooks : task.looksUp = some hex := by
          simp only [ExecTask.looksUp, hpc, hsource, if_true, hdigest]
        exact .panicked hlooks (findBlob_eq_none hfind)
      · next hfind =>
        exact .sought (findBlob_eq_some hfind).1 rfl
          (hless fun n ↦ by simp only [ExecPc.stepsLeft]; omega)
      · next hfind =>
        exact .sought (findBlob_eq_some hfind).1 rfl
          (hless fun n ↦ by simp only [ExecPc.stepsLeft]; omega)
      · next hfind => exact .failed (findBlob_eq_some hfind).1
    · exact .sought (Keeps.refl store) rfl (hless fun n ↦ by simp only [ExecPc.stepsLeft]; omega)

private theorem moves_start (hpc : task.pc = .start) (input : ExecInput) :
    ExecMoves h store task request (match task.job.runtime with
      | .wasm _ _ _ _ _ _ => executeWasmJob h store task request input
      | .native _ _ _ _ => executeNativeJob h store task request input
      | .qemu _ _ _ _ _ _ => executeQemuJob h store task request input) := by
  split
  · exact moves_locateProgram hpc input
  · unfold executeNativeJob
    split
    · simp only
      split
      · exact .obtained (by rw [hpc]; rfl) (Keeps.refl store)
      · exact moves_locateProgram hpc input
    · exact .failed (Keeps.refl store)
  · unfold executeQemuJob
    split
    · exact moves_locateProgram hpc input
    · exact .failed (Keeps.refl store)

private theorem moves_fetchDone (hsha : ∀ bytes, IsDigest (h.sha256Hex bytes))
    (hpc : task.pc = .fetchProgram) (input : ExecInput) :
    ExecMoves h store task request (fetchDone h store task request input) := by
  unfold fetchDone
  split
  · exact moves_withProgram hsha (by rw [hpc]; rfl) (Keeps.refl store) _ input
  · split
    · exact .failed (Keeps.refl store)
    · split
      · apply ExecMoves.sought (Keeps.refl store) rfl
        intro n
        rw [hpc]
        simp only [ExecPc.stepsLeft]
        omega
      · exact .failed (Keeps.refl store)

private theorem moves_stageItem {program : Program} {item : PreStageSpec}
    {rest : List PreStageSpec} (hpc : task.pc = .stage program (item :: rest))
    (input : ExecInput) :
    ExecMoves h store task request
      (stageItem h store task program item rest request input) := by
  unfold stageItem
  split
  · next hsource => exact .skipped hpc hsource
  · next hex hsource =>
    split
    · next hfind =>
      have hlooks : task.looksUp = some hex := by
        simp only [ExecTask.looksUp, hpc, hsource]
      exact .panicked hlooks (findBlob_eq_none hfind)
    · next hfind =>
      obtain ⟨hkeeps, hwhere⟩ := findBlob_eq_some hfind
      obtain ⟨hpath, hin⟩ := hwhere _ rfl
      exact .located hpc hsource hkeeps hpath hin
    · next hfind => exact .asked hpc hsource (findBlob_eq_some hfind).1
    · next hfind => exact .failed (findBlob_eq_some hfind).1

private theorem moves_writeItem {program : Program} {item : PreStageSpec} {hex : String}
    {bytes : Bytes} {rest : List PreStageSpec}
    (hpc : task.pc = .writeItem program item hex bytes rest) (input : ExecInput) :
    ExecMoves h store task request
      (writeItem h store program item hex bytes rest input) := by
  unfold writeItem
  simp only
  split
  · exact .failed ⟨fun hinv ↦ storeInv_createDirAll hinv _,
      fun place _ ↦ Files.fileAt_createDirAll _ _ place⟩
  · next files hwrite =>
    have hfiles := Files.eq_insert_of_write hwrite
    apply ExecMoves.wrote hpc
    · intro hplace hinv
      rw [hfiles]
      exact storeInv_insert (storeInv_createDirAll hinv _) hplace
    · intro place
      rw [hfiles, Files.fileAt_insert, Files.fileAt_createDirAll]

private theorem moves_launch (hsha : ∀ bytes, IsDigest (h.sha256Hex bytes)) {program : Program}
    (hpc : task.pc = .stage program []) (input : ExecInput) :
    ExecMoves h store task request (launch h store task program input) := by
  unfold launch
  simp only
  split
  · split
    · exact .failed (Keeps.refl store)
    · exact .launched hpc (Keeps.refl store)
  · next bytes =>
    obtain ⟨t, result, hkeep, hkeeps⟩ := keepProgram_eq_some hsha store bytes input
    rw [hkeep]
    cases result with
    | error e => exact .failed hkeeps
    | ok path =>
      simp only
      split
      · split
        · split
          · exact .failed hkeeps
          · exact .launched hpc hkeeps
        · exact .failed hkeeps
      · exact .launched hpc hkeeps

/-- Every step of an executor is one of these moves. -/
theorem execMoves_of_advance (hsha : ∀ bytes, IsDigest (h.sha256Hex bytes)) {input : ExecInput}
    {out : Outcome} (hstep : task.advance h store request input = some out) :
    ExecMoves h store task request out := by
  unfold ExecTask.advance at hstep
  split at hstep
  · next hpc =>
    cases hstep
    exact moves_start hpc input
  · next hpc =>
    cases hstep
    exact moves_fetchDone hsha hpc input
  · next hpc =>
    cases hstep
    split
    · exact .failed (Keeps.refl store)
    · exact moves_withProgram hsha (by rw [hpc]; rfl) (Keeps.refl store) _ input
  · next hpc =>
    cases hstep
    exact moves_launch hsha hpc input
  · next hpc =>
    cases hstep
    exact moves_stageItem hpc input
  · next hpc =>
    cases hstep
    split
    · exact .failed (Keeps.refl store)
    · next hread => exact .read hpc (Files.file_of_read hread)
  · next hpc =>
    cases hstep
    exact moves_writeItem hpc input
  · cases hstep
  · cases hstep
  · cases hstep
  · cases hstep
  · cases hstep

private theorem moves_programAnswered (hsha : ∀ bytes, IsDigest (h.sha256Hex bytes))
    {id : Nat} {save : Bool} (hpc : task.pc = .askProgram id save) (answer : Option Bytes)
    (input : ExecInput) :
    ExecMoves h store task request (programAnswered h store task save answer input) := by
  have hearly : task.pc.early = true := by
    rw [hpc]
    rfl
  unfold programAnswered
  split
  · exact .failed (Keeps.refl store)
  · next bytes =>
    split
    · obtain ⟨⟨t, result⟩, hput⟩ := putBytes_isSome hsha (baseDir h.dataDir) store bytes
        input.store
      rw [hput]
      exact moves_withProgram hsha hearly (keeps_putBytes hsha hput) bytes input
    · exact moves_withProgram hsha hearly (Keeps.refl store) bytes input

/-- The step on an answer is one of these moves, or takes the attachment as it has come. -/
theorem execMoves_of_answered (hsha : ∀ bytes, IsDigest (h.sha256Hex bytes))
    {answer : Option Bytes} {input : ExecInput} {out : Outcome}
    (hstep : task.answered h store answer input = some out) :
    ExecMoves h store task request out ∨
      ∃ program item hex id rest bytes, task.pc = .askItem program item hex id rest ∧
        answer = some bytes ∧ out = { store, pc := .writeItem program item hex bytes rest } := by
  unfold ExecTask.answered at hstep
  split at hstep
  · next hpc =>
    cases hstep
    exact .inl (moves_programAnswered hsha hpc answer input)
  · next program item hex id rest hpc =>
    cases hstep
    cases answer with
    | none => exact .inl (.failed (Keeps.refl store))
    | some bytes => exact .inr ⟨program, item, hex, id, rest, bytes, hpc, rfl, rfl⟩
  · cases hstep

/-- Every step brings an executor nearer to its end. -/
theorem stepsLeft_lt_of_moves {out : Outcome} (hmoves : ExecMoves h store task request out)
    (hpc : task.pc.finished = false) :
    out.pc.stepsLeft task.job.execution.preStage.length <
      task.pc.stepsLeft task.job.execution.preStage.length := by
  have hpos : 0 < task.pc.stepsLeft task.job.execution.preStage.length := by
    cases hp : task.pc with
    | running path | failed error | panicked =>
      rw [hp] at hpc
      cases hpc
    | _ => simp only [ExecPc.stepsLeft]; omega
  cases hmoves with
  | failed _ => exact hpos
  | panicked _ _ => exact hpos
  | sought _ _ hless => exact hless _
  | obtained hearly _ =>
    cases hp : task.pc with
    | start | fetchProgram | readProgram path | askProgram id save =>
      simp only [ExecPc.stepsLeft]
      omega
    | _ =>
      rw [hp] at hearly
      cases hearly
  | skipped hp _ | located hp _ _ _ _ | asked hp _ _ =>
    rw [hp]
    simp only [ExecPc.stepsLeft, List.length_cons]
    omega
  | read hp _ | wrote hp _ _ =>
    rw [hp]
    simp only [ExecPc.stepsLeft]
    omega
  | launched hp _ =>
    rw [hp]
    simp only [ExecPc.stepsLeft]
    omega

end Moves

end PeerDeploy.Execution
