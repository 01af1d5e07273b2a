import PeerDeploy.Execution.PreStage

/-!
# A pinned digest is checked

A job may pin the digest of its program ("Optional pinned digest for integrity",
`crates/common/src/lib.rs:487,506,519`). The executors check the bytes that they obtain and
run them from the content store; a native job whose binary is an absolute path runs that file
as it is (`crates/agent/src/p2p/jobs_native.rs:33–44`).
-/

namespace PeerDeploy.Execution

open PeerDeploy.Common PeerDeploy.Base PeerDeploy.Storage

/-- The file of the system that a native job runs as it is. -/
def systemFile : JobRuntime → Option String
  | .native binary _ _ _ => if Path.isAbsolute binary then some binary else none
  | .wasm _ _ _ _ _ _ | .qemu _ _ _ _ _ _ => none

/-- The event brings the `k`-th executor to the point where it runs the file. -/
structure Launches (h : Host) (a : Agent) (event : Event) (d : Agent) (k : Nat) (job : JobSpec)
    (path : String) : Prop where
  step : step h a event = some d
  before : ∀ task, a.tasks[k]? = some task → task.pc.finished = false
  after : ∃ task, d.tasks[k]? = some task ∧ task.pc = .running path ∧ task.job = job

/-- A file that an executor starts to run has the digest that its job pins. -/
def Enforced (h : Host) (a : Agent) (event : Event) : Prop :=
  ∀ (d : Agent) (k : Nat) (job : JobSpec) (path hex : String) (bytes : Bytes),
    Launches h a event d k job path → job.runtime.digest = some hex →
      d.store.files[Path.place path]? = some (.file bytes) → h.sha256Hex bytes = hex

/-- No attachment is written over the blob of another digest, and a file of the system that an
executor is about to run has the digest that its job pins. -/
def Undisturbed (h : Host) (a : Agent) : Event → Prop
  | .advance k _ => ∀ task, a.tasks[k]? = some task →
    (∀ program item hex bytes rest, task.pc = .writeItem program item hex bytes rest →
      ∀ digest path, IsDigest digest → pathForDigest (baseDir h.dataDir) digest = some path →
        Path.place path = destPlace h item → h.sha256Hex bytes = digest) ∧
    ∀ program path hex bytes, task.pc = .stage program [] →
      systemFile task.job.runtime = some path → task.job.runtime.digest = some hex →
        a.store.files[Path.place path]? = some (.file bytes) → h.sha256Hex bytes = hex
  | _ => True

/-! ### The program that an executor holds -/

/-- The program that an executor holds while it stages the attachments. -/
def ExecPc.program : ExecPc → Option Program
  | .stage program _ | .readItem program _ _ _ _ | .askItem program _ _ _ _
  | .writeItem program _ _ _ _ => some program
  | _ => none

/-- The program has the digest: its bytes do, or it is the blob of the digest, or a file of the
system. -/
def Program.Pinned (h : Host) (runtime : JobRuntime) (hex : String) : Program → Prop
  | .fetched bytes => h.sha256Hex bytes = hex
  | .stored path => systemFile runtime = some path ∨
    IsDigest hex ∧ pathForDigest (baseDir h.dataDir) hex = some path

/-- An executor of a job that pins a digest holds no other program. -/
def HoldsPinned (h : Host) (job : JobSpec) (pc : ExecPc) : Prop :=
  ∀ program hex, pc.program = some program → job.runtime.digest = some hex →
    program.Pinned h job.runtime hex

section Steps

variable {h : Host} {store t : Store} {task : ExecTask} {request : Nat} {input : ExecInput}

private theorem holdsPinned_of_none {job : JobSpec} {pc : ExecPc} (hpc : pc.program = none) :
    HoldsPinned h job pc := by
  intro program hex hprogram
  rw [hpc] at hprogram
  cases hprogram

private theorem holdsPinned_of_same {pc : ExecPc} (hold : HoldsPinned h task.job task.pc)
    (hpc : pc.program = task.pc.program) : HoldsPinned h task.job pc := by
  intro program hex hprogram
  exact hold program hex (hpc ▸ hprogram)

private theorem keepProgram_ok (hsha : ∀ bytes, IsDigest (h.sha256Hex bytes)) {bytes : Bytes}
    {path : String} (hkeep : keepProgram h store bytes input = some (t, .ok path)) :
    Keeps h store t ∧ pathForDigest (baseDir h.dataDir) (h.sha256Hex bytes) = some path := by
  obtain ⟨⟨u, result⟩, hput, hkeep⟩ := Option.bind_eq_some_iff.mp hkeep
  have hkeeps : Keeps h store u := (keeps_opened h store).trans (keeps_putBytes hsha hput)
  cases result with
  | error e => cases hkeep
  | ok digest =>
    obtain ⟨⟨v, found⟩, hget, hkeep⟩ := Option.bind_eq_some_iff.mp hkeep
    obtain ⟨-, other, hother, hfound⟩ := getPath_eq_some hget
    cases found with
    | none => cases hkeep
    | some last =>
      cases hkeep
      rw [putBytes_ok hput] at hother
      refine ⟨hkeeps.trans (keeps_getPath hget), ?_⟩
      split at hfound
      · cases hfound
        exact hother
      · cases hfound

private theorem holdsPinned_withProgram (hsha : ∀ bytes, IsDigest (h.sha256Hex bytes))
    (bytes : Bytes) : HoldsPinned h task.job (withProgram h store task bytes input).pc := by
  unfold withProgram
  split
  · next hchecked =>
    have hsame (hex : String) (hhex : task.job.runtime.digest = some hex) :
        h.sha256Hex bytes = hex := by
      rw [hhex, Option.all_some] at hchecked
      exact eq_of_beq hchecked
    split
    · split
      · exact holdsPinned_of_none rfl
      · exact holdsPinned_of_none rfl
      · next path hkeep =>
        rintro program hex ⟨⟩ hhex
        have hpath := (keepProgram_ok hsha hkeep).2
        have hdigest := hsha bytes
        rw [hsame hex hhex] at hpath hdigest
        exact .inr ⟨hdigest, hpath⟩
    · rintro program hex ⟨⟩ hhex
      exact hsame hex hhex
  · exact holdsPinned_of_none rfl

private theorem program_locateProgram :
    (locateProgram h store task request input).pc.program = none := by
  unfold locateProgram
  dsimp only
  split
  · rfl
  · split
    · split <;> rfl
    · rfl

private theorem holdsPinned_start :
    HoldsPinned h task.job (match task.job.runtime with
      | .wasm _ _ _ _ _ _ => executeWasmJob h store task request input
      | .native _ _ _ _ => executeNativeJob h store task request input
      | .qemu _ _ _ _ _ _ => executeQemuJob h store task request input).pc := by
  split
  · exact holdsPinned_of_none program_locateProgram
  · next binary sha args env hruntime =>
    unfold executeNativeJob
    split
    · dsimp only
      split
      · next habsolute =>
        rintro program hex ⟨⟩ -
        refine .inl ?_
        rw [hruntime] at habsolute ⊢
        exact if_pos habsolute
      · exact holdsPinned_of_none program_locateProgram
    · exact holdsPinned_of_none rfl
  · unfold executeQemuJob
    split
    · exact holdsPinned_of_none program_locateProgram
    · exact holdsPinned_of_none rfl

private theorem program_launch {program : Program} :
    (launch h store task program input).pc.program = none := by
  unfold launch
  dsimp only
  split
  · split <;> rfl
  · split
    · rfl
    · rfl
    · split
      · split
        · split <;> rfl
        · rfl
      · rfl

private theorem holdsPinned_advance (hsha : ∀ bytes, IsDigest (h.sha256Hex bytes))
    {out : Outcome} (hold : HoldsPinned h task.job task.pc)
    (hstep : task.advance h store request input = some out) :
    HoldsPinned h task.job out.pc := by
  unfold ExecTask.advance at hstep
  split at hstep
  · cases hstep
    exact holdsPinned_start
  · cases hstep
    unfold fetchDone
    split
    · exact holdsPinned_withProgram hsha _
    · split
      · exact holdsPinned_of_none rfl
      · split
        · exact holdsPinned_of_none rfl
        · exact holdsPinned_of_none rfl
  · cases hstep
    split
    · exact holdsPinned_of_none rfl
    · exact holdsPinned_withProgram hsha _
  · cases hstep
    exact holdsPinned_of_none program_launch
  · next hpc =>
    cases hstep
    unfold stageItem
    split
    · exact holdsPinned_of_same hold (by rw [hpc]; rfl)
    · split
      · exact holdsPinned_of_none rfl
      · exact holdsPinned_of_same hold (by rw [hpc]; rfl)
      · exact holdsPinned_of_same hold (by rw [hpc]; rfl)
      · exact holdsPinned_of_none rfl
  · next hpc =>
    cases hstep
    split
    · exact holdsPinned_of_none rfl
    · exact holdsPinned_of_same hold (by rw [hpc]; rfl)
  · next hpc =>
    cases hstep
    unfold writeItem
    dsimp only
    split
    · exact holdsPinned_of_none rfl
    · exact holdsPinned_of_same hold (by rw [hpc]; rfl)
  all_goals cases hstep

private theorem holdsPinned_answered (hsha : ∀ bytes, IsDigest (h.sha256Hex bytes))
    {answer : Option Bytes} {out : Outcome} (hold : HoldsPinned h task.job task.pc)
    (hstep : task.answered h store answer input = some out) :
    HoldsPinned h task.job out.pc := by
  unfold ExecTask.answered at hstep
  split at hstep
  · cases hstep
    unfold programAnswered
    split
    · exact holdsPinned_of_none rfl
    · split
      · split
        · exact holdsPinned_of_none rfl
        · exact holdsPinned_withProgram hsha _
      · exact holdsPinned_withProgram hsha _
  · next hpc =>
    cases hstep
    cases answer with
    | none => exact holdsPinned_of_none rfl
    | some bytes => exact holdsPinned_of_same hold (by rw [hpc]; rfl)
  · cases hstep

/-! ### The step that launches -/

private theorem withProgram_not_running (bytes : Bytes) (path : String) :
    (withProgram h store task bytes input).pc ≠ .running path := by
  unfold withProgram
  split
  · split
    · split <;> rintro ⟨⟩
    · rintro ⟨⟩
  · rintro ⟨⟩

private theorem answered_not_running {answer : Option Bytes} {out : Outcome}
    (hstep : task.answered h store answer input = some out) (path : String) :
    out.pc ≠ .running path := by
  unfold ExecTask.answered at hstep
  split at hstep
  · cases hstep
    unfold programAnswered
    split
    · rintro ⟨⟩
    · split
      · split
        · rintro ⟨⟩
        · exact withProgram_not_running _ path
      · exact withProgram_not_running _ path
  · cases hstep
    cases answer with
    | none => rintro ⟨⟩
    | some bytes => rintro ⟨⟩
  · cases hstep

private theorem locateProgram_not_running (path : String) :
    (locateProgram h store task request input).pc ≠ .running path := by
  unfold locateProgram
  dsimp only
  split
  · rintro ⟨⟩
  · split
    · split <;> rintro ⟨⟩
    · rintro ⟨⟩

private theorem launch_of_running {out : Outcome} {path : String}
    (hstep : task.advance h store request input = some out) (hrun : out.pc = .running path) :
    ∃ program, task.pc = .stage program [] ∧ out = launch h store task program input := by
  unfold ExecTask.advance at hstep
  split at hstep
  · cases hstep
    refine absurd hrun ?_
    split
    · exact locateProgram_not_running path
    · unfold executeNativeJob
      split
      · dsimp only
        split
        · rintro ⟨⟩
        · exact locateProgram_not_running path
      · rintro ⟨⟩
    · unfold executeQemuJob
      split
      · exact locateProgram_not_running path
      · rintro ⟨⟩
  · cases hstep
    refine absurd hrun ?_
    unfold fetchDone
    split
    · exact withProgram_not_running _ path
    · split
      · rintro ⟨⟩
      · split <;> rintro ⟨⟩
  · cases hstep
    refine absurd hrun ?_
    split
    · rintro ⟨⟩
    · exact withProgram_not_running _ path
  · next program hpc =>
    cases hstep
    exact ⟨program, hpc, rfl⟩
  · cases hstep
    refine absurd hrun ?_
    unfold stageItem
    split
    · rintro ⟨⟩
    · split <;> rintro ⟨⟩
  · cases hstep
    refine absurd hrun ?_
    split <;> rintro ⟨⟩
  · cases hstep
    refine absurd hrun ?_
    unfold writeItem
    dsimp only
    split <;> rintro ⟨⟩
  all_goals cases hstep

private theorem launch_running (hsha : ∀ bytes, IsDigest (h.sha256Hex bytes)) {program : Program}
    {path : String} (hrun : (launch h store task program input).pc = .running path) :
    program = .stored path ∧ (launch h store task program input).store = store ∨
      ∃ bytes, program = .fetched bytes ∧
        Keeps h store (launch h store task program input).store ∧
          pathForDigest (baseDir h.dataDir) (h.sha256Hex bytes) = some path := by
  unfold launch at hrun ⊢
  dsimp only at hrun ⊢
  cases program with
  | stored other =>
    dsimp only at hrun ⊢
    cases hspawn : input.spawnError with
    | some e =>
      rw [hspawn] at hrun
      cases hrun
    | none =>
      rw [hspawn] at hrun
      cases hrun
      exact .inl ⟨rfl, rfl⟩
  | fetched bytes =>
    refine .inr ⟨bytes, rfl, ?_⟩
    dsimp only at hrun ⊢
    cases hkeep : keepProgram h store bytes input with
    | none =>
      rw [hkeep] at hrun
      cases hrun
    | some kept =>
      obtain ⟨t, result⟩ := kept
      rw [hkeep] at hrun
      cases result with
      | error e => cases hrun
      | ok other =>
        obtain ⟨hkeeps, hpath⟩ := keepProgram_ok hsha hkeep
        cases hruntime : task.job.runtime with
        | qemu binary sha args env platform qemuBinary =>
          rw [hruntime] at hrun
          dsimp only at hrun ⊢
          by_cases hfound : (qemuBinary <|> resolveQemuBinary h platform).isSome
          · rw [if_pos hfound] at hrun ⊢
            cases hspawn : input.spawnError with
            | some e =>
              rw [hspawn] at hrun
              cases hrun
            | none =>
              rw [hspawn] at hrun
              cases hrun
              exact ⟨hkeeps, hpath⟩
          · rw [if_neg hfound] at hrun
            cases hrun
        | wasm | native =>
          rw [hruntime] at hrun
          cases hrun
          exact ⟨hkeeps, hpath⟩

end Steps

/-! ### Runs of an agent -/

/-- What holds of an agent whose blobs stay as they are. -/
structure PinInv (h : Host) (a : Agent) : Prop where
  store : StoreInv h.sha256Hex (baseDir h.dataDir) a.store.files
  tasks : ∀ (k : Nat) task, a.tasks[k]? = some task → HoldsPinned h task.job task.pc

private theorem step_executor {h : Host} {a d : Agent} {event : Event} {k : Nat}
    (hevent : event = .timeout k ∨ ∃ input, event = .advance k input)
    (hstep : step h a event = some d) :
    ∃ task out, a.tasks[k]? = some task ∧ d = a.settle k task out ∧
      ((∃ input, event = .advance k input ∧
          task.advance h a.store a.exchange.asked.length input = some out) ∨
        ∃ answer input, task.answered h a.store answer input = some out) := by
  unfold step at hstep
  split at hstep
  · cases hstep
  rcases hevent with rfl | ⟨input, rfl⟩
  · obtain ⟨task, htask, hstep⟩ := Option.bind_eq_some_iff.mp hstep
    obtain ⟨out, hout, rfl⟩ := Option.map_eq_some_iff.mp hstep
    exact ⟨task, out, htask, rfl, .inr ⟨none, {}, hout⟩⟩
  · obtain ⟨task, htask, hstep⟩ := Option.bind_eq_some_iff.mp hstep
    obtain ⟨out, hout, rfl⟩ := Option.map_eq_some_iff.mp hstep
    refine ⟨task, out, htask, rfl, ?_⟩
    unfold Agent.outcome at hout
    split at hout
    · obtain ⟨answer, -, hout⟩ := Option.bind_eq_some_iff.mp hout
      exact .inr ⟨answer, input, hout⟩
    · exact .inl ⟨input, rfl, hout⟩

private theorem pinInv_settle {h : Host} {a : Agent} {k : Nat} {task : ExecTask} {out : Outcome}
    (hinv : PinInv h a) (htask : a.tasks[k]? = some task)
    (hstore : StoreInv h.sha256Hex (baseDir h.dataDir) out.store.files)
    (hholds : HoldsPinned h task.job out.pc) : PinInv h (a.settle k task out) := by
  refine ⟨hstore, ?_⟩
  intro j other hj
  have hlt : k < a.tasks.length := (List.getElem?_eq_some_iff.mp htask).1
  by_cases hjk : j = k
  · subst hjk
    simp only [Agent.settle, List.getElem?_set_self hlt] at hj
    cases hj
    exact hholds
  · simp only [Agent.settle, List.getElem?_set_ne (Ne.symm hjk)] at hj
    exact hinv.tasks j other hj

private theorem storeInv_moves {h : Host} {store : Store} {task : ExecTask} {request : Nat}
    {out : Outcome} (hstore : StoreInv h.sha256Hex (baseDir h.dataDir) store.files)
    (hwrites : ∀ program item hex bytes rest, task.pc = .writeItem program item hex bytes rest →
      ∀ digest path, IsDigest digest → pathForDigest (baseDir h.dataDir) digest = some path →
        Path.place path = destPlace h item → h.sha256Hex bytes = digest)
    (hmoves : ExecMoves h store task request out) :
    StoreInv h.sha256Hex (baseDir h.dataDir) out.store.files := by
  cases hmoves with
  | failed hkeeps | sought hkeeps _ _ | obtained _ hkeeps | located _ _ hkeeps _ _
  | asked _ _ hkeeps | launched _ hkeeps => exact hkeeps.inv hstore
  | panicked _ _ | skipped _ _ | read _ _ => exact hstore
  | wrote hpc hkept _ => exact hkept (hwrites _ _ _ _ _ hpc) hstore

private theorem pinInv_executor {h : Host} (hsha : ∀ bytes, IsDigest (h.sha256Hex bytes))
    {a d : Agent} {event : Event} {k : Nat}
    (hevent : event = .timeout k ∨ ∃ input, event = .advance k input) (hinv : PinInv h a)
    (hcond : Undisturbed h a event) (hstep : step h a event = some d) : PinInv h d := by
  obtain ⟨task, out, htask, rfl, ⟨input, rfl, hout⟩ | ⟨answer, input, hout⟩⟩ :=
    step_executor hevent hstep
  · exact pinInv_settle hinv htask
      (storeInv_moves hinv.store (hcond task htask).1 (execMoves_of_advance hsha hout))
      (holdsPinned_advance hsha (hinv.tasks k task htask) hout)
  · refine pinInv_settle hinv htask ?_ (holdsPinned_answered hsha (hinv.tasks k task htask) hout)
    have hcases : ExecMoves h a.store task 0 out ∨ _ := execMoves_of_answered hsha hout
    rcases hcases with hmoves | ⟨_, _, _, _, _, _, -, -, rfl⟩
    · -- an answer writes no attachment
      refine storeInv_moves hinv.store ?_ hmoves
      intro program item hex bytes rest hpc
      unfold ExecTask.answered at hout
      rw [hpc] at hout
      cases hout
    · exact hinv.store

private theorem pinInv_step {h : Host} (hsha : ∀ bytes, IsDigest (h.sha256Hex bytes))
    {a d : Agent} {event : Event} (hinv : PinInv h a) (hcond : Undisturbed h a event)
    (hstep : step h a event = some d) : PinInv h d := by
  cases moves_of_step hsha hstep with
  | @spawned job storage =>
    refine ⟨hinv.store, ?_⟩
    intro k task htask
    change (a.tasks ++ [({ job, storage } : ExecTask)])[k]? = some task at htask
    rw [List.getElem?_append] at htask
    split at htask
    · exact hinv.tasks k task htask
    · cases List.mem_singleton.mp (List.mem_of_getElem? htask)
      exact holdsPinned_of_none rfl
  | moved hevent _ _ _ => exact pinInv_executor hsha hevent hinv hcond hstep
  | delivered _ _ _ => exact pinInv_executor hsha (.inr ⟨_, rfl⟩) hinv hcond hstep
  | served _ _ hkeeps _ _ => exact ⟨hkeeps.inv hinv.store, hinv.tasks⟩
  | awaited _ _ hkeeps => exact ⟨hkeeps.inv hinv.store, hinv.tasks⟩
  | crashed _ _ _ => exact ⟨hinv.store, hinv.tasks⟩
  | received => exact ⟨hinv.store, hinv.tasks⟩
  | put hkeeps => exact ⟨hkeeps.inv hinv.store, hinv.tasks⟩

private theorem executor_of_launches {h : Host} (hsha : ∀ bytes, IsDigest (h.sha256Hex bytes))
    {a d : Agent} {event : Event} {k : Nat} {job : JobSpec} {path : String}
    (hlaunch : Launches h a event d k job path) :
    ∃ input task out, event = .advance k input ∧ a.tasks[k]? = some task ∧
      d = a.settle k task out ∧ task.job = job ∧ out.pc = .running path ∧
        task.advance h a.store a.exchange.asked.length input = some out := by
  obtain ⟨hstep, hbefore, last, hlast, hpc, hjob⟩ := hlaunch
  have hsame (hold : a.tasks[k]? = some last) : False := by
    have hfinished := hbefore last hold
    rw [hpc] at hfinished
    cases hfinished
  have hexecutor (j : Nat) (hevent : event = .timeout j ∨ ∃ input, event = .advance j input) :
      ∃ input task out, event = .advance k input ∧ a.tasks[k]? = some task ∧
        d = a.settle k task out ∧ task.job = job ∧ out.pc = .running path ∧
          task.advance h a.store a.exchange.asked.length input = some out := by
    obtain ⟨task, out, htask, rfl, hout⟩ := step_executor hevent hstep
    by_cases hjk : j = k
    · subst hjk
      have hlt : j < a.tasks.length := (List.getElem?_eq_some_iff.mp htask).1
      simp only [Agent.settle, List.getElem?_set_self hlt] at hlast
      cases hlast
      rcases hout with ⟨input, rfl, hout⟩ | ⟨answer, input, hout⟩
      · exact ⟨input, task, out, rfl, htask, rfl, hjob, hpc, hout⟩
      · exact absurd hpc (answered_not_running hout path)
    · simp only [Agent.settle, List.getElem?_set_ne hjk] at hlast
      exact (hsame hlast).elim
  cases moves_of_step hsha hstep with
  | @spawned spawned storage =>
    change (a.tasks ++ [({ job := spawned, storage } : ExecTask)])[k]? = some last at hlast
    rw [List.getElem?_append] at hlast
    split at hlast
    · exact (hsame hlast).elim
    · cases List.mem_singleton.mp (List.mem_of_getElem? hlast)
      cases hpc
  | moved hevent _ _ _ => exact hexecutor _ hevent
  | delivered _ _ _ => exact hexecutor _ (.inr ⟨_, rfl⟩)
  | served _ _ _ _ _ | awaited _ _ _ | crashed _ _ _ | received | put _ =>
    exact (hsame hlast).elim

private theorem enforced_of_inv {h : Host} (hsha : ∀ bytes, IsDigest (h.sha256Hex bytes))
    {a : Agent} {event : Event} (hinv : PinInv h a) (hcond : Undisturbed h a event) :
    Enforced h a event := by
  intro d k job path hex bytes hlaunch hhex hfile
  obtain ⟨input, task, out, rfl, htask, rfl, rfl, hrun, hout⟩ := executor_of_launches hsha hlaunch
  obtain ⟨program, hpc, rfl⟩ := launch_of_running hout hrun
  have hholds := hinv.tasks k task htask program hex (by rw [hpc]; rfl) hhex
  change (launch h a.store task program input).store.files[Path.place path]? =
    some (.file bytes) at hfile
  rcases launch_running hsha hrun with ⟨rfl, hstore⟩ | ⟨found, rfl, hkeeps, hpath⟩
  · rw [hstore] at hfile
    rcases hholds with hsystem | ⟨hdigest, hpath⟩
    · exact (hcond task htask).2 _ path hex bytes hpc hsystem hhex hfile
    · exact hinv.store hex path bytes hdigest hpath hfile
  · have hsame : h.sha256Hex found = hex := hholds
    rw [← hsame]
    exact hkeeps.inv hinv.store _ path bytes (hsha found) hpath hfile

/-- In every run from a content store whose blobs have the digests in their names, under the
condition every file that an executor starts to run has the digest that its job pins. Programs
and the staging of artifacts, which could write over blobs, are not followed. -/
theorem pinned_digest_enforced (h : Host) (hsha : ∀ bytes, IsDigest (h.sha256Hex bytes))
    (store : Store) (hstore : StoreInv h.sha256Hex (baseDir h.dataDir) store.files)
    (events : List Event) (hcond : StepsMeet (step h) (Undisturbed h) { store } events) :
    StepsMeet (step h) (Enforced h) { store } events := by
  have hinv : ∀ a event d, PinInv h a → Undisturbed h a event → step h a event = some d →
      PinInv h d := fun a event d hi hp hstep ↦ pinInv_step hsha hi hp hstep
  exact stepsMeet_of_invariant hinv (fun a event hi hp ↦ enforced_of_inv hsha hi hp)
    ⟨hstore, by simp⟩ hcond

/-! ### A file of the system -/

/-- A test that implies the condition. -/
def isUndisturbed (h : Host) (a : Agent) : Event → Bool
  | .advance k _ => (a.tasks[k]?).all fun task ↦
    match task.pc with
    | .writeItem _ item _ _ _ => !(Path.place (baseDir h.dataDir)).isPrefixOf (destPlace h item)
    | .stage _ [] => (systemFile task.job.runtime).all fun path ↦
      task.job.runtime.digest.all fun hex ↦
        match a.store.files[Path.place path]? with
        | some (.file bytes) => h.sha256Hex bytes == hex
        | _ => true
    | _ => true
  | _ => true

private theorem undisturbed_of_test (h : Host) (a : Agent) (event : Event)
    (htest : isUndisturbed h a event = true) : Undisturbed h a event := by
  cases event with
  | advance k input =>
    intro task htask
    simp only [isUndisturbed, htask, Option.all_some] at htest
    constructor
    · -- the blob of a digest lies below the base directory, the attachment does not
      intro program item hex bytes rest hpc digest path hdigest hpath heq
      obtain ⟨other, b, c, hother, hplace⟩ :=
        pathForDigest_of_isDigest (baseDir h.dataDir) hdigest
      rw [hpath] at hother
      cases hother
      have hbelow : (Path.place (baseDir h.dataDir)).isPrefixOf (destPlace h item) = true := by
        rw [← heq, hplace]
        exact List.isPrefixOf_iff_prefix.mpr (List.prefix_append _ _)
      simp [hpc, hbelow] at htest
    · intro program path hex bytes hpc hsystem hhex hfile
      simpa [hpc, hsystem, hhex, hfile] using htest
  | _ => trivial

/-- A job that runs a file of the system and pins its digest. -/
def toolJob : JobSpec where
  name := "tool"
  runtime := .native "/usr/bin/tool" (some wasmDigest) [] []

/-- A store of an agent on whose system the file has the bytes. -/
def toolStore (bytes : Bytes) : Store where
  files := (∅ : Files).insert ["usr", "bin", "tool"] (.file bytes)

/-- The job is executed under a policy that allows it. -/
def toolRun : List Event :=
  [.execute toolJob true, .advance 0 { policy := { allowNativeExecution := true } },
    .advance 0 { policy := { allowNativeExecution := true } }]

private theorem storeInv_toolStore (bytes : Bytes) :
    StoreInv sampleHost.sha256Hex (baseDir sampleHost.dataDir) (toolStore bytes).files := by
  intro digest path found hdigest hpath hfile
  obtain ⟨other, a, b, hother, hplace⟩ :=
    pathForDigest_of_isDigest (baseDir sampleHost.dataDir) hdigest
  rw [hpath] at hother
  cases hother
  have hbase : Path.place (baseDir sampleHost.dataDir) = ["d", "artifacts", "blobs", "sha256"] := by
    decide
  rw [hplace, hbase, toolStore, Table.getElem?_insert, if_neg (by simp)] at hfile
  cases hfile

/-- With the pinned bytes there, the executor runs them. -/
theorem pinned_digest_enforced_tool :
    (run (step sampleHost) { store := toolStore wasmModule } toolRun).map
        (fun a ↦ a.tasks.map (·.pc.finished)) = some [true] ∧
      StepsMeet (step sampleHost) (Enforced sampleHost) { store := toolStore wasmModule } toolRun :=
  ⟨by decide,
    pinned_digest_enforced sampleHost isDigest_sampleHost (toolStore wasmModule)
      (storeInv_toolStore wasmModule) toolRun
        (stepsMeet_of_checkSteps (undisturbed_of_test sampleHost) (by decide))⟩

/-- With other bytes there, it runs these. -/
theorem unpinned_file_runs :
    StoreInv sampleHost.sha256Hex (baseDir sampleHost.dataDir) (toolStore [104, 105]).files ∧
      ¬ StepsMeet (step sampleHost) (Enforced sampleHost) { store := toolStore [104, 105] }
        toolRun := by
  refine ⟨storeInv_toolStore _, fun hall ↦ ?_⟩
  have hmid : (run (step sampleHost) { store := toolStore [104, 105] } (toolRun.take 2)).map
      (fun a ↦ a.tasks.map fun task ↦ task.pc.finished) = some [false] := by
    decide
  have hend : (run (step sampleHost) { store := toolStore [104, 105] } toolRun).map
      (fun d ↦ d.tasks.map fun task ↦ (task.job, match task.pc with
        | .running path => d.store.files[Path.place path]?
        | _ => none)) = some [(toolJob, some (.file [104, 105]))] := by
    decide
  obtain ⟨a, ha, hbefore⟩ := Option.map_eq_some_iff.mp hmid
  obtain ⟨d, hd, hafter⟩ := Option.map_eq_some_iff.mp hend
  have hsplit : toolRun = toolRun.take 2 ++ toolRun.drop 2 := (List.take_append_drop 2 _).symm
  rw [hsplit, stepsMeet_append] at hall
  rw [hsplit, run_append, ha, Option.bind_some] at hd
  obtain ⟨e, hstep, hlast⟩ := run_cons_eq_some.mp hd
  cases hlast
  obtain ⟨task, htasks, htask⟩ := List.map_eq_singleton_iff.mp hafter
  obtain ⟨hjob, hfile⟩ := Prod.mk.inj htask
  cases hpc : task.pc with
  | running path =>
    rw [hpc] at hfile
    have hlaunch : Launches sampleHost a _ d 0 toolJob path :=
      ⟨hstep, fun other hother ↦ by
        have hget := congrArg (·[0]?) hbefore
        simpa [hother] using hget, task, by rw [htasks]; rfl, hpc, hjob⟩
    have hsame := (hall.2 a ha).1 d 0 toolJob path wasmDigest [104, 105] hlaunch rfl hfile
    exact absurd hsame (by decide)
  | _ =>
    rw [hpc] at hfile
    cases hfile

end PeerDeploy.Execution
