import PeerDeploy.Deploy.Owner
import PeerDeploy.Deploy.Versions

/-!
# The newest manifest

Manifests reach a node in any order and more than once, and a manifest that is refused does not
come back (`crates/agent/src/p2p/handlers/apply.rs:13–148`). The result says that the newest one
stands in the end, so that nodes which have received it agree.
-/

namespace PeerDeploy.Deploy

open PeerDeploy.Common PeerDeploy.Base

/-- The manifest is older than the newest one, or it is that one. -/
def NotAfter (newest signed : SignedManifest) : Prop :=
  signed.version < newest.version ∨
    signed.version = newest.version ∧ signed.manifestToml = newest.manifestToml

/-- The owner has issued nothing after the newest manifest: a message that names the owner and has
a valid signature does not come later. -/
def IsNewest (x : Env) (newest : SignedManifest) : Event → Prop
  | .applyManifest signed => signed.ownerPubBs58 = newest.ownerPubBs58 →
    ManifestVerified x.toExternals signed → NotAfter newest signed
  | _ => True

/-- The artifacts of the newest manifest can be fetched and written. -/
def serves (x : Env) (newest : SignedManifest) (node : Node) : Event → Bool
  | .advance k input =>
    match node.tasks[k]? with
    | some (.apply task) =>
      match task.pc with
      | .stage _ ((_, comp) :: _) _ => task.signed ≠ newest ||
        input.ioError.isNone && (fetchBytes comp.source input.fetched).toOption.any
          (x.sha256Hex · == comp.sha256Hex)
      | _ => true
    | _ => true
  | _ => true

/-- What holds in all runs with the newest manifest. -/
structure NewestInv (x : Env) (newest : SignedManifest) (node : Node) : Prop where
  owner : node.site.loadTrustedOwner = some newest.ownerPubBs58
  upgrades : ∀ task, .upgrade task ∈ node.tasks → task.pc ≠ .trusting
  issued : ∀ task, .apply task ∈ node.tasks → task.signed.ownerPubBs58 = newest.ownerPubBs58 →
    ManifestVerified x.toExternals task.signed → NotAfter newest task.signed
  checked : ∀ task, .apply task ∈ node.tasks → task.pc ≠ .check → task.pc ≠ .rejected →
    NotAfter newest task.signed
  accepted : ∀ entry ∈ node.acceptedManifests, NotAfter newest entry.2
  before : node.acceptedManifests = [] → node.site.loadState.manifestVersion < newest.version
  settled : ∀ task, .apply task ∈ node.tasks → task.signed = newest →
    task.pc = .accepted ∨ task.pc = .rejected →
      newest.version ≤ node.site.loadState.manifestVersion

section Steps

variable {x : Env} {newest : SignedManifest}

-- A handler of the newest manifest is refused only if the node has its version or a higher one.
private theorem rejected_newest {s t : Site} {task : ApplyTask} {input : StepInput} {pc : ApplyPc}
    {accepted : Bool} {manifest : Manifest} (hsigned : task.signed = newest)
    (howner : s.loadTrustedOwner = some newest.ownerPubBs58)
    (hverified : ManifestVerified x.toExternals newest)
    (hparse : x.tomlParse newest.manifestToml = .ok manifest)
    (hserves : ∀ applicable name comp rest staged,
      task.pc = .stage applicable ((name, comp) :: rest) staged → input.ioError = none ∧
        (fetchBytes comp.source input.fetched).toOption.any (x.sha256Hex · == comp.sha256Hex))
    (hadv : task.advance x s input = some ((t, pc), accepted)) (hpc : pc = .rejected) :
    newest.version ≤ s.loadState.manifestVersion := by
  subst hsigned hpc
  obtain ⟨sig, hsig, hver⟩ := hverified
  unfold ApplyTask.advance at hadv
  split at hadv
  · have hchecked : applyCheck x s task = (t, .rejected) := (Prod.mk.inj (Option.some.inj hadv)).1
    have htrust : s.trustOnFirstUse task.signed.ownerPubBs58 = some s := by
      rw [Site.trustOnFirstUse, howner]
      exact if_neg (not_not.mpr rfl)
    simp only [applyCheck, hsig, hver, Bool.not_true, Bool.false_eq_true, if_false, htrust]
      at hchecked
    split at hchecked
    · assumption
    · simp only [applyParsed, hparse] at hchecked
      split at hchecked
      · cases hchecked
      · cases hchecked
  · cases hadv
  · next applicable name comp rest staged hstage =>
    obtain ⟨hio, hfetch⟩ := hserves applicable name comp rest staged hstage
    have hstaged : applyStage x s input applicable name comp rest staged = (t, .rejected) :=
      (Prod.mk.inj (Option.some.inj hadv)).1
    unfold applyStage at hstaged
    split at hstaged
    · next e hfetched =>
      rw [hfetched] at hfetch
      cases hfetch
    · next bytes hfetched =>
      rw [hfetched] at hfetch
      have hdigest : x.sha256Hex bytes = comp.sha256Hex := by
        simpa [Except.toOption] using hfetch
      simp only [hdigest, ne_eq, not_true_eq_false, if_false, Site.stageFile, hio] at hstaged
      split at hstaged
      · next hnone =>
        split at hnone
        · cases hnone
        · cases hnone
      · split at hstaged
        · cases hstaged
        · cases hstaged
  all_goals cases hadv

private theorem NotAfter.of_staging {s t : Site} {task : ApplyTask}
    (howner : s.loadTrustedOwner = some newest.ownerPubBs58)
    (hissued : task.signed.ownerPubBs58 = newest.ownerPubBs58 →
      ManifestVerified x.toExternals task.signed → NotAfter newest task.signed)
    (hverified : ManifestVerified x.toExternals task.signed)
    (htrust : s.Trusts t task.signed.ownerPubBs58) : NotAfter newest task.signed := by
  refine hissued ?_ hverified
  rcases htrust with ⟨hsame, -⟩ | ⟨hnone, -⟩
  · rw [howner] at hsame
    exact (Option.some.inj hsame).symm
  · rw [howner] at hnone
    cases hnone

private theorem owner_step {node d : Node} {event : Event} (h : NewestInv x newest node)
    (hmoves : Moves x node event d) : d.site.loadTrustedOwner = some newest.ownerPubBs58 := by
  apply ownerKept_of_moves hmoves _ _ h.owner
  cases event with
  | advance k input =>
    intro task htask hpc
    exact absurd hpc (h.upgrades task (List.mem_of_getElem? htask))
  | _ => trivial

private theorem version_cases {node d : Node} {event : Event} (hm : ManifestInv True node)
    (hcond : NoOvertaking node event) (hmoves : Moves x node event d) :
    (d.site.loadState.manifestVersion = node.site.loadState.manifestVersion ∧
      d.acceptedManifests = node.acceptedManifests) ∨
    ∃ k task, node.tasks[k]? = some (.apply task) ∧ task.pc = .commit ∧
      node.site.loadState.manifestVersion < task.signed.version ∧
      d.site.loadState.manifestVersion = task.signed.version ∧
      d.acceptedManifests = node.acceptedManifests ++ [(k, task.signed)] := by
  cases hmoves with
  | spawned _ => exact .inl ⟨rfl, rfl⟩
  | ignored _ => exact .inl ⟨rfl, rfl⟩
  | roles hsite =>
    rcases hsite with rfl | rfl
    · exact .inl ⟨rfl, rfl⟩
    · exact .inl ⟨rfl, rfl⟩
  | @apply k input task site pc accepted htask hmoves =>
    cases hmoves with
    | refused _ htrust =>
      rcases htrust with hkeeps | ⟨u, -, htrust, hkeeps⟩
      · exact .inl ⟨congrArg _ (loadState_congr hkeeps.stateJson), List.append_nil _⟩
      · have hstate := hkeeps.stateJson.trans htrust.stateJson_eq
        exact .inl ⟨congrArg _ (loadState_congr hstate), List.append_nil _⟩
    | checked _ _ htrust _ _ =>
      exact .inl ⟨congrArg _ (loadState_congr htrust.stateJson_eq), List.append_nil _⟩
    | staged _ hkeeps _ | installed _ hkeeps =>
      exact .inl ⟨congrArg _ (loadState_congr hkeeps.stateJson), List.append_nil _⟩
    | persisted _ _ hstate _ =>
      exact .inl ⟨congrArg _ (loadState_congr hstate), List.append_nil _⟩
    | committed hpc _ hstate _ =>
      have hwritten : node.writtenAt k = some task.signed := by
        rw [Node.writtenAt, htask]
        simp [Task.written, hpc]
      refine .inr ⟨k, task, htask, hpc, (hm.written k task.signed hwritten).1, ?_, rfl⟩
      simp [Site.loadState, Node.resume, hstate]
  | @upgrade k input task site pc mark htask hmoves =>
    have hsite : ((node.resume k site (.upgrade { task with pc })).mark k task.pkg mark).site =
        site := Node.site_mark ..
    have hlog : ((node.resume k site (.upgrade { task with pc })).mark k task.pkg
        mark).acceptedManifests = node.acceptedManifests := Node.acceptedManifests_mark ..
    refine .inl ⟨?_, hlog⟩
    rw [hsite]
    cases hmoves with
    | refused _ hkeeps | trusted _ hkeeps _ | wrote _ hkeeps | linked _ hkeeps =>
      exact congrArg _ (loadState_congr hkeeps.stateJson)
    | committed hpc _ hstate _ =>
      rw [((hcond.2 task htask).1 _ hpc).1]
      simp [Site.loadState, hstate]
    | restored _ _ hstate _ => simp [Site.loadState, hstate]
    | _ => rfl
  | push htask _ => exact absurd htask (hm.noPush trivial _ _)

private theorem apply_cases {node d : Node} {event : Event} (hstep : step x node event = some d)
    {next : ApplyTask} (hnext : .apply next ∈ d.tasks) :
    .apply next ∈ node.tasks ∨ (event = .applyManifest next.signed ∧ next.pc = .check) ∨
      ∃ k input task accepted, event = .advance k input ∧
        node.tasks[k]? = some (.apply task) ∧ next.signed = task.signed ∧
        task.advance x node.site input = some ((d.site, next.pc), accepted) := by
  cases event with
  | applyManifest signed =>
    cases hstep
    rcases List.mem_append.mp hnext with hold | hnew
    · exact .inl hold
    · cases List.mem_singleton.mp hnew
      exact .inr (.inl ⟨rfl, rfl⟩)
  | upgradeAgent pkg | pushComponent pkg =>
    simp only [step] at hstep
    split at hstep
    · cases hstep
      rcases List.mem_append.mp hnext with hold | hnew
      · exact .inl hold
      · cases List.mem_singleton.mp hnew
    · cases hstep
      exact .inl hnext
  | webPush pkg =>
    cases hstep
    rcases List.mem_append.mp hnext with hold | hnew
    · exact .inl hold
    · cases List.mem_singleton.mp hnew
  | updateRoles targetPeerIds newRoles =>
    simp only [step] at hstep
    split at hstep
    · cases hstep
      exact .inl hnext
    · cases hstep
      exact .inl hnext
  | advance k input =>
    simp only [step, Node.advance] at hstep
    split at hstep
    · next task htask =>
      obtain ⟨⟨⟨site, pc⟩, accepted⟩, hadv, rfl⟩ := Option.map_eq_some_iff.mp hstep
      have hmem : .apply next ∈ node.tasks.set k (.apply { task with pc }) := by
        cases accepted <;> exact hnext
      rcases List.mem_or_eq_of_mem_set hmem with hold | hnew
      · exact .inl hold
      · cases hnew
        refine .inr (.inr ⟨k, input, task, accepted, rfl, htask, rfl, ?_⟩)
        rw [hadv]
        cases accepted <;> rfl
    · next task htask =>
      obtain ⟨⟨⟨site, pc⟩, mark⟩, -, rfl⟩ := Option.map_eq_some_iff.mp hstep
      have hmem : .apply next ∈ node.tasks.set k (.upgrade { task with pc }) :=
        Node.mem_of_mem_mark hnext (by simp)
      rcases List.mem_or_eq_of_mem_set hmem with hold | hnew
      · exact .inl hold
      · cases hnew
    · next task htask =>
      obtain ⟨⟨site, pc⟩, -, rfl⟩ := Option.map_eq_some_iff.mp hstep
      rcases List.mem_or_eq_of_mem_set hnext with hold | hnew
      · exact .inl hold
      · cases hnew
    · cases hstep

private theorem upgrades_step {node d : Node} {event : Event} (h : NewestInv x newest node)
    (hmoves : Moves x node event d) {next : UpgradeTask} (hnext : .upgrade next ∈ d.tasks) :
    next.pc ≠ .trusting := by
  cases hmoves with
  | @spawned _ task hspawns =>
    rcases List.mem_append.mp hnext with hold | hnew
    · exact h.upgrades next hold
    · rw [← List.mem_singleton.mp hnew] at hspawns
      cases event with
      | upgradeAgent pkg => simp [hspawns.2]
      | _ => exact hspawns.elim
  | ignored _ => exact h.upgrades next hnext
  | roles _ => exact h.upgrades next hnext
  | apply _ _ =>
    rcases List.mem_or_eq_of_mem_set hnext with hold | hnew
    · exact h.upgrades next hold
    · cases hnew
  | @upgrade k input task site pc mark htask hmoves =>
    have hmem : .upgrade next ∈ node.tasks.set k (.upgrade { task with pc }) :=
      Node.mem_of_mem_mark hnext (by simp)
    rcases List.mem_or_eq_of_mem_set hmem with hold | hnew
    · exact h.upgrades next hold
    · cases hnew
      cases hmoves with
      | suspended _ _ howner =>
        rw [h.owner] at howner
        cases howner
      | trusted hpc _ _ => exact absurd hpc (h.upgrades task (List.mem_of_getElem? htask))
      | _ => simp
  | push _ _ =>
    rcases List.mem_or_eq_of_mem_set hnext with hold | hnew
    · exact h.upgrades next hold
    · cases hnew

private theorem served {node : Node} {k : Nat} {input : StepInput} {task : ApplyTask}
    (hserves : serves x newest node (.advance k input) = true)
    (htask : node.tasks[k]? = some (.apply task)) (hsigned : task.signed = newest)
    {applicable : List (String × ComponentSpec)} {name : String} {comp : ComponentSpec}
    {rest : List (String × ComponentSpec)} {staged : List (String × String)}
    (hpc : task.pc = .stage applicable ((name, comp) :: rest) staged) :
    input.ioError = none ∧
      (fetchBytes comp.source input.fetched).toOption.any (x.sha256Hex · == comp.sha256Hex) := by
  simpa [serves, htask, hpc, hsigned] using hserves

private theorem newestInv_step {node d : Node} {event : Event} {manifest : Manifest}
    (hverified : ManifestVerified x.toExternals newest)
    (hparse : x.tomlParse newest.manifestToml = .ok manifest) (h : NewestInv x newest node)
    (hm : ManifestInv True node) (hissued : IsNewest x newest event)
    (hcond : NoOvertaking node event) (hserves : serves x newest node event = true)
    (hstep : step x node event = some d) : NewestInv x newest d := by
  have hmoves := moves_of_step hstep
  have hversion := version_cases hm hcond hmoves
  have hle : node.site.loadState.manifestVersion ≤ d.site.loadState.manifestVersion := by
    rcases hversion with ⟨hsame, -⟩ | ⟨k, task, -, -, hlt, hnew, -⟩
    · exact hsame.ge
    · exact hlt.le.trans hnew.ge
  have hissues : ∀ next, .apply next ∈ d.tasks → next.signed.ownerPubBs58 = newest.ownerPubBs58 →
      ManifestVerified x.toExternals next.signed → NotAfter newest next.signed := by
    intro next hnext
    rcases apply_cases hstep hnext with hold | ⟨rfl, -⟩ | ⟨k, input, task, _, -, htask, hsame, -⟩
    · exact h.issued next hold
    · exact hissued
    · rw [hsame]
      exact h.issued task (List.mem_of_getElem? htask)
  refine { owner := owner_step h hmoves, upgrades := fun next ↦ upgrades_step h hmoves,
           issued := hissues, checked := ?_, accepted := ?_, before := ?_, settled := ?_ }
  · intro next hnext hcheck hrejected
    rcases apply_cases hstep hnext with hold | ⟨-, hpc⟩ | ⟨k, input, task, _, -, htask, hsame, hadv⟩
    · exact h.checked next hold hcheck hrejected
    · exact absurd hpc hcheck
    · have hmem := List.mem_of_getElem? htask
      rw [hsame]
      generalize next.pc = pc at hadv hcheck hrejected
      cases applyMoves_of_advance hadv with
      | refused _ _ => exact absurd rfl hrejected
      | checked _ hsigned htrust _ _ =>
        exact NotAfter.of_staging h.owner (h.issued task hmem) hsigned htrust
      | staged hpc _ _ =>
        apply h.checked task hmem
        · rintro hcheck
          simp [hcheck, ApplyPc.staging] at hpc
        · rintro hrejected
          simp [hrejected, ApplyPc.staging] at hpc
      | persisted hpc _ _ _ | installed hpc _ | committed hpc _ _ _ =>
        apply h.checked task hmem <;> simp [hpc]
  · intro entry hentry
    rcases hversion with ⟨-, hlog⟩ | ⟨k, task, htask, hpc, -, -, hlog⟩
    · exact h.accepted entry (hlog ▸ hentry)
    · rw [hlog] at hentry
      rcases List.mem_append.mp hentry with hold | hnew
      · exact h.accepted entry hold
      · rw [List.mem_singleton.mp hnew]
        apply h.checked task (List.mem_of_getElem? htask) <;> simp [hpc]
  · intro hnone
    rcases hversion with ⟨hsame, hlog⟩ | ⟨k, task, -, -, -, -, hlog⟩
    · rw [hsame]
      exact h.before (hlog ▸ hnone)
    · rw [hlog] at hnone
      exact absurd hnone (by simp)
  · intro next hnext hsigned hpc
    rcases apply_cases hstep hnext with
      hold | ⟨-, hcheck⟩ | ⟨k, input, task, _, rfl, htask, hsame, hadv⟩
    · exact (h.settled next hold hsigned hpc).trans hle
    · rcases hpc with hpc | hpc
      · simp [hcheck] at hpc
      · simp [hcheck] at hpc
    · rw [hsame] at hsigned
      rcases hpc with hpc | hpc
      · rw [hpc] at hadv
        cases applyMoves_of_advance hadv with
        | checked _ _ _ _ hnext | staged _ _ hnext => cases hnext
        | committed _ _ hstate _ => simp [Site.loadState, hstate, hsigned]
      · refine (rejected_newest hsigned h.owner hverified hparse ?_ hadv hpc).trans hle
        intro applicable name comp rest staged hstage
        exact served hserves htask hsigned hstage

end Steps

/-- The newest manifest stands in the end. Manifests, upgrades and changes of roles reach a node
that trusts the owner, in any order and any number of times, and their handlers take their steps
in any order in which none overtakes another. If the owner has issued nothing after one of the
manifests, and its artifacts can be fetched and written, then once all handlers have come to their
end and one of them has worked on that manifest, it is the persisted one, under its version. -/
theorem newest_stands {x : Env} {site : Site} {roles : List String} {newest : SignedManifest}
    {manifest : Manifest} (howner : site.loadTrustedOwner = some newest.ownerPubBs58)
    (hverified : ManifestVerified x.toExternals newest)
    (hparse : x.tomlParse newest.manifestToml = .ok manifest)
    (hversion : site.loadState.manifestVersion < newest.version) {events : List Event}
    (hpush : ∀ event ∈ events, event.isPush = false)
    (hnewest : ∀ event ∈ events, IsNewest x newest event)
    (hcond : StepsMeet (step x) NoOvertaking { site, roles } events)
    (hserves : StepsMeet (step x) (fun node event ↦ serves x newest node event = true)
      { site, roles } events)
    {d : Node} (hrun : run (step x) { site, roles } events = some d)
    (hfinished : ∀ task ∈ d.tasks, task.finished)
    (hworked : ∃ task, .apply task ∈ d.tasks ∧ task.signed = newest) :
    d.site.desiredManifest = some newest.manifestToml ∧
      d.site.loadState.manifestVersion = newest.version := by
  have hevents : ∀ event ∈ events, event.isPush = false ∧ IsNewest x newest event :=
    fun event hevent ↦ ⟨hpush event hevent, hnewest event hevent⟩
  have hmeets := (stepsMeet_and _ events).mpr ⟨hcond, (stepsMeet_and _ events).mpr ⟨hserves,
    stepsMeet_of_forall hevents _⟩⟩
  have hstart : NewestInv x newest { site, roles } :=
    { owner := howner
      upgrades := fun _ h ↦ nomatch h
      issued := fun _ h ↦ nomatch h
      checked := fun _ h ↦ nomatch h
      accepted := fun _ h ↦ nomatch h
      before := fun _ ↦ hversion
      settled := fun _ h ↦ nomatch h }
  let Inv (node : Node) : Prop :=
    (ManifestInv True node ∧ UpgradeInv node) ∧ NewestInv x newest node
  have hinv : Inv d := by
    refine run_invariant (fun node event next hi hp hstep ↦ ?_) ⟨versionInv_init site roles, hstart⟩
      hmeets hrun
    exact ⟨versionInv_step hi.1.1 hi.1.2 (fun _ ↦ hp.2.2.1) hp.1 hstep,
      newestInv_step hverified hparse hi.2 hi.1.1 hp.2.2.2 hp.1 hp.2.1 hstep⟩
  obtain ⟨⟨hm, -⟩, hn⟩ := hinv
  obtain ⟨task, htask, hsigned⟩ := hworked
  have hreached := hn.settled task htask hsigned (hfinished _ htask)
  cases hlast : d.acceptedManifests.getLast? with
  | none =>
    have hlt := hn.before (List.getLast?_eq_none_iff.mp hlast)
    omega
  | some last =>
    obtain ⟨htext, hheld⟩ := persisted_of_finished hm hfinished last hlast
    rcases hn.accepted last (List.mem_of_getLast? hlast) with hbefore | ⟨hsame, htoml⟩
    · omega
    · rw [htext, hheld, hsame, htoml]
      exact ⟨rfl, rfl⟩

-- The manifest of an apply handler, and where the handler stands.
private def standing : Task → Option (SignedManifest × ApplyPc)
  | .apply task => some (task.signed, task.pc)
  | _ => none

private theorem finished_of_standing {task : Task} {signed : SignedManifest} {pc : ApplyPc}
    (h : standing task = some (signed, pc)) (hpc : pc = .accepted ∨ pc = .rejected) :
    task.finished := by
  cases task with
  | apply task =>
    cases h
    exact hpc
  | _ => cases h

-- The second manifest comes first, then the first one, and then the second one again.
private def newestFirst : List Event :=
  .applyManifest (secondManifest 2) :: List.replicate 5 (fetching 0) ++
    [.applyManifest (firstManifest 1), fetching 1, .applyManifest (secondManifest 2), fetching 2]

/-- The second manifest stands. -/
theorem newest_stands_first :
    ∃ d, run (step sampleEnv) { site := { ownerPub := some (firstManifest 1).ownerPubBs58 } }
        newestFirst = some d ∧
      d.site.desiredManifest = some (secondManifest 2).manifestToml ∧
      d.site.loadState.manifestVersion = 2 := by
  have hrun : (run (step sampleEnv) { site := { ownerPub := some (firstManifest 1).ownerPubBs58 } }
      newestFirst).map (·.tasks.map standing) =
      some [some (secondManifest 2, .accepted), some (firstManifest 1, .rejected),
        some (secondManifest 2, .rejected)] := by
    decide +kernel
  obtain ⟨d, hd, htasks⟩ := Option.map_eq_some_iff.mp hrun
  have hverified : ManifestVerified sampleEnv.toExternals (secondManifest 2) :=
    ⟨nextSigA, by decide +kernel, by decide +kernel⟩
  have hnewest : ∀ event ∈ newestFirst, IsNewest sampleEnv (secondManifest 2) event := by
    simp [newestFirst, IsNewest, NotAfter, fetching, firstManifest, secondManifest, manifestA]
  have hserves : checkSteps (step sampleEnv) (serves sampleEnv (secondManifest 2))
      { site := { ownerPub := some (firstManifest 1).ownerPubBs58 } } newestFirst = true := by
    decide +kernel
  refine ⟨d, hd, newest_stands (by decide +kernel) hverified rfl (by decide) (by decide) hnewest
    (stepsMeet_of_checkSteps noOvertaking_of_steady (by decide +kernel))
    (stepsMeet_of_checkSteps (fun _ _ h ↦ h) hserves) hd ?_ ?_⟩
  · intro task htask
    have hmem : standing task ∈ d.tasks.map standing := List.mem_map_of_mem htask
    rw [htasks] at hmem
    simp only [List.mem_cons, List.not_mem_nil, or_false] at hmem
    rcases hmem with h | h | h
    · exact finished_of_standing h (.inl rfl)
    · exact finished_of_standing h (.inr rfl)
    · exact finished_of_standing h (.inr rfl)
  · have hmem : some (secondManifest 2, .accepted) ∈ d.tasks.map standing := by
      rw [htasks]
      exact List.mem_cons_self
    obtain ⟨task, htask, hstanding⟩ := List.mem_map.mp hmem
    cases task with
    | apply task =>
      exact ⟨task, htask, (Prod.mk.inj (Option.some.inj hstanding)).1⟩
    | _ => cases hstanding

end PeerDeploy.Deploy
