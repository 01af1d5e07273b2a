import PeerDeploy.Base.Transition
import PeerDeploy.Deploy.Owner

/-!
# Taking a failed upgrade back

An upgrade whose new process cannot be spawned has by then replaced the `current` link, saved
two version fields and reported that it was accepted. The event loop turns the reports into
metrics (`crates/agent/src/p2p/mod.rs:500–515`), so the version that the agent shows comes
from the message and not from the state file. What the handler takes back is one field.
-/

namespace PeerDeploy.Deploy

open PeerDeploy.Common PeerDeploy.Base

/-- The counters and gauges that results change; `crates/agent/src/p2p/metrics.rs:34–58`. -/
structure Metrics where
  runOkTotal : Nat := 0
  runErrorTotal : Nat := 0
  manifestAcceptedTotal : Nat := 0
  manifestRejectedTotal : Nat := 0
  upgradeAcceptedTotal : Nat := 0
  upgradeRejectedTotal : Nat := 0
  agentVersion : Nat := 0
  manifestVersion : Nat := 0
  deriving DecidableEq, Repr

/-- `fetch_add(1)` on an `AtomicU64`, which wraps around. -/
def fetchAdd (counter : Nat) : Nat := (counter + 1) % 2 ^ 64

/-- The number that starts a piece of a message. -/
def leadingVersion (piece : Option String) : Option Nat :=
  piece.bind Text.firstWord |>.bind (Text.parseUnsigned 64)

/-- What the event loop does with a result; `crates/agent/src/p2p/mod.rs:500–515`. -/
def handleRunResult (m : Metrics) : Except String String → Metrics
  | .ok text =>
    if Text.startsWith "run ok:" text then { m with runOkTotal := fetchAdd m.runOkTotal }
    else if Text.startsWith "manifest accepted v" text then
      { m with
        manifestAcceptedTotal := fetchAdd m.manifestAcceptedTotal
        manifestVersion := (leadingVersion (Text.splitChar 'v' text).getLast?).getD
          m.manifestVersion }
    else if Text.startsWith "upgrade accepted v" text then
      { m with
        upgradeAcceptedTotal := fetchAdd m.upgradeAcceptedTotal
        agentVersion := (leadingVersion (Text.splitChar 'v' text)[1]?).getD m.agentVersion }
    else m
  | .error text =>
    if Text.startsWith "run error:" text then { m with runErrorTotal := fetchAdd m.runErrorTotal }
    else if Text.startsWith "manifest rejected " text then
      { m with manifestRejectedTotal := fetchAdd m.manifestRejectedTotal }
    else if Text.startsWith "upgrade rejected " text then
      { m with upgradeRejectedTotal := fetchAdd m.upgradeRejectedTotal }
    else m

/-- One step of an upgrade task that has the agent to itself. -/
def upgradeStep (x : Env) (pkg : AgentUpgrade) (at_ : Site × UpgradePc) (input : StepInput) :
    Option (Site × UpgradePc) :=
  (UpgradeTask.advance x at_.1 ⟨pkg, at_.2⟩ input).map (·.1)

/-- The upgrade of `pkg` passes every check on `s`, the spawn of the new process fails, and the
handler returns with `t`. -/
def SpawnFails (x : Env) (pkg : AgentUpgrade) (s t : Site) : Prop :=
  ∃ inputs previous u failing last,
    run (upgradeStep x pkg) (s, .check) inputs = some (u, .spawn previous) ∧
    failing.spawned = false ∧
    run (upgradeStep x pkg) (u, .spawn previous) [failing, last] = some (t, .rejected)

/-- The state file, the shown version and the link are as they were before: the metrics `m`
show the old version once the results that `t` has more than `s` are processed. -/
structure RolledBack (s t : Site) (m : Metrics) : Prop where
  state : t.loadState = s.loadState
  shown : ((t.reports.drop s.reports.length).foldl handleRunResult m).agentVersion =
    m.agentVersion
  current : t.current = s.current

/-! ### What an upgrade has done when the spawn fails -/

/-- State file, link and reports are those of `s`. -/
structure Untouched (s u : Site) : Prop where
  stateJson : u.stateJson = s.stateJson
  current : u.current = s.current
  reports : u.reports = s.reports

/-- What the state file holds while the new process is spawned. -/
def upgradedState (state : AgentState) (version : Nat) : AgentState :=
  { state with previousAgentVersion := state.agentVersion, agentVersion := version }

/-- The report of an accepted upgrade. -/
def acceptedText (version previous : Nat) : String :=
  s!"upgrade accepted v{version} (prev v{previous})"

/-- An upgrade of `pkg` that started on `s` is underway. -/
def Attempt (x : Env) (pkg : AgentUpgrade) (s : Site) : Site × UpgradePc → Prop
  | (u, .check) | (u, .trusting) | (u, .sniff) | (u, .version) => Untouched s u
  | (u, .write state) | (u, .link state) => Untouched s u ∧ state = s.loadState
  | (u, .commit state) =>
    state = s.loadState ∧ u.stateJson = s.stateJson ∧ u.reports = s.reports ∧
      u.current = some (versionedPath x.dataDir pkg.version)
  | (u, .spawn previous) | (u, .restore previous) =>
    previous = s.loadState.agentVersion ∧
      u.stateJson = some (upgradedState s.loadState pkg.version) ∧
      u.reports = s.reports ++ [.ok (acceptedText pkg.version s.loadState.agentVersion)] ∧
      u.current = some (versionedPath x.dataDir pkg.version)
  | (_, .exiting) | (_, .exited) | (_, .rejected) | (_, .crashed) => True

private theorem attempt_check {x : Env} {pkg : AgentUpgrade} {s u : Site} (h : Untouched s u) :
    Attempt x pkg s (upgradeCheck x u pkg) := by
  unfold upgradeCheck upgradeDigest
  repeat' split
  all_goals first | exact trivial | exact h

private theorem attempt_write {x : Env} {pkg : AgentUpgrade} {s u : Site} (h : Untouched s u)
    (input : StepInput) : Attempt x pkg s (upgradeWrite x u pkg s.loadState input) := by
  unfold upgradeWrite
  cases input.writeFault with
  | none => exact ⟨⟨h.stateJson, h.current, h.reports⟩, rfl⟩
  | some fault =>
    cases fault with
    | createDir => exact trivial
    | openFile error => exact trivial
    | write error written => exact trivial
    | sync error => exact trivial

/-- Every step of an upgrade that has the agent to itself stays within the attempt. -/
theorem attempt_step {x : Env} {pkg : AgentUpgrade} {s : Site} {a b : Site × UpgradePc}
    {input : StepInput} (h : Attempt x pkg s a) (hstep : upgradeStep x pkg a input = some b) :
    Attempt x pkg s b := by
  obtain ⟨u, pc⟩ := a
  obtain ⟨⟨⟨v, pc'⟩, mark⟩, hadvance, rfl⟩ := Option.map_eq_some_iff.mp hstep
  cases pc with
  | check =>
    have hchecked : upgradeCheck x u pkg = (v, pc') :=
      congrArg Prod.fst (Option.some.inj hadvance)
    exact hchecked ▸ attempt_check h
  | trusting =>
    simp only [UpgradeTask.advance, upgradeDigest] at hadvance
    split at hadvance
    · cases hadvance
      exact trivial
    · cases hadvance
      exact ⟨h.stateJson, h.current, h.reports⟩
  | sniff =>
    simp only [UpgradeTask.advance] at hadvance
    split at hadvance
    · cases hadvance
      exact trivial
    · cases hadvance
      exact h
    · cases hadvance
      exact trivial
  | version =>
    simp only [UpgradeTask.advance, upgradeVersion] at hadvance
    split at hadvance
    · split at hadvance
      · cases hadvance
        exact trivial
      · cases hadvance
        exact ⟨h, loadState_congr h.stateJson⟩
    · cases hadvance
      exact trivial
  | write state =>
    obtain ⟨huntouched, rfl⟩ := h
    have hwrote : upgradeWrite x u pkg s.loadState input = (v, pc') :=
      congrArg Prod.fst (Option.some.inj hadvance)
    exact hwrote ▸ attempt_write huntouched input
  | link state =>
    obtain ⟨huntouched, rfl⟩ := h
    cases hadvance
    exact ⟨rfl, huntouched.stateJson, huntouched.reports, rfl⟩
  | commit state =>
    obtain ⟨rfl, -, hreports, hcurrent⟩ := h
    cases hadvance
    refine ⟨rfl, rfl, ?_, hcurrent⟩
    simp only [Site.report, Site.saveState, hreports]
    rfl
  | spawn previous =>
    simp only [UpgradeTask.advance] at hadvance
    split at hadvance
    · cases hadvance
      exact trivial
    · cases hadvance
      exact h
  | restore previous =>
    cases hadvance
    exact trivial
  | exiting =>
    cases hadvance
    exact trivial
  | exited => cases hadvance
  | rejected => cases hadvance
  | crashed => cases hadvance

/-- What a failed upgrade leaves behind. -/
theorem leaves_of_spawnFails {x : Env} {pkg : AgentUpgrade} {s t : Site}
    (h : SpawnFails x pkg s t) :
    t.loadState = { s.loadState with previousAgentVersion := s.loadState.agentVersion } ∧
      t.reports = s.reports ++ [.ok (acceptedText pkg.version s.loadState.agentVersion),
        .error "upgrade rejected (spawn failed)"] ∧
      t.current = some (versionedPath x.dataDir pkg.version) := by
  obtain ⟨inputs, previous, u, failing, last, hrun, hfails, hlast⟩ := h
  have hattempt : Attempt x pkg s (u, .spawn previous) := by
    have hstart : Attempt x pkg s (s, .check) := ⟨rfl, rfl, rfl⟩
    exact run_invariant_all (fun _ _ _ ha hb ↦ attempt_step ha hb) hstart hrun
  obtain ⟨rfl, hstate, hreports, hcurrent⟩ := hattempt
  have hfailed : upgradeStep x pkg (u, .spawn s.loadState.agentVersion) failing =
      some (u, .restore s.loadState.agentVersion) := by
    simp [upgradeStep, UpgradeTask.advance, hfails]
  rw [run_cons_eq_some] at hlast
  obtain ⟨v, hv, hlast⟩ := hlast
  rw [hfailed] at hv
  cases hv
  rw [run_cons_eq_some] at hlast
  obtain ⟨w, hw, hlast⟩ := hlast
  cases hw
  cases hlast
  have hloaded : u.loadState = upgradedState s.loadState pkg.version := by
    rw [Site.loadState, hstate]
    rfl
  refine ⟨?_, ?_, hcurrent⟩
  · simp only [hloaded]
    rfl
  · simp [Site.report, Site.saveState, hreports]

/-! ### What the event loop makes of the reports -/

private theorem acceptedText_eq (version previous : Nat) : acceptedText version previous =
    "upgrade accepted " ++ String.singleton 'v' ++
      (version.repr ++ " (pre" ++ String.singleton 'v' ++ (" v" ++ previous.repr ++ ")")) := by
  have hfront : "upgrade accepted v" = "upgrade accepted " ++ String.singleton 'v' := by decide
  have hmiddle : " (prev v" = " (pre" ++ String.singleton 'v' ++ " v" := by decide
  have htext : acceptedText version previous =
      "upgrade accepted v" ++ version.repr ++ " (prev v" ++ previous.repr ++ ")" := rfl
  rw [htext, hfront, hmiddle]
  repeat rw [← String.append_assoc]

private theorem splitChar_accepted (version previous : Nat) :
    (Text.splitChar 'v' (acceptedText version previous))[1]? = some (version.repr ++ " (pre") := by
  rw [acceptedText_eq, Text.splitChar_append (by decide), Text.splitChar_append]
  · rfl
  · rw [String.toList_append, List.mem_append, not_or]
    exact ⟨fun hv ↦ absurd (Text.isDigit_of_mem_repr hv) (by decide), by decide⟩

private theorem leadingVersion_repr {version : Nat} (h : version < 2 ^ 64) :
    leadingVersion (some (version.repr ++ " (pre")) = some version := by
  have hword : Text.firstWord (version.repr ++ " (pre") = some version.repr := by
    apply Text.firstWord_append
    · intro hnil
      have hempty : version.repr.toList = [] := by rw [hnil]; rfl
      rw [Nat.toList_repr] at hempty
      exact Nat.toDigits_ne_nil hempty
    · exact fun c hc ↦ Text.isWhitespace_of_isDigit (Text.isDigit_of_mem_repr hc)
    · intro c hc
      obtain rfl : ' ' = c := Option.some.inj hc
      rfl
  simp [leadingVersion, hword, Text.parseUnsigned_repr h]

/-- The version of an accepted upgrade becomes the shown one. -/
theorem agentVersion_accepted (m : Metrics) {version : Nat} (h : version < 2 ^ 64)
    (previous : Nat) :
    (handleRunResult m (.ok (acceptedText version previous))).agentVersion = version := by
  have hhead : ∃ rest, (acceptedText version previous).toList = 'u' :: rest := by
    rw [acceptedText_eq, String.toList_append, String.toList_append]
    exact ⟨_, rfl⟩
  obtain ⟨rest, hrest⟩ := hhead
  have hrun : Text.startsWith "run ok:" (acceptedText version previous) = false := by
    rw [Text.startsWith, hrest]
    rfl
  have hmanifest :
      Text.startsWith "manifest accepted v" (acceptedText version previous) = false := by
    rw [Text.startsWith, hrest]
    rfl
  have hupgrade : Text.startsWith "upgrade accepted v" (acceptedText version previous) = true := by
    rw [acceptedText_eq]
    exact Text.startsWith_append "upgrade accepted v" _
  simp [handleRunResult, hrun, hmanifest, hupgrade, splitChar_accepted, leadingVersion_repr h]

/-- A rejected upgrade leaves the shown version alone. -/
theorem agentVersion_error (m : Metrics) (text : String) :
    (handleRunResult m (.error text)).agentVersion = m.agentVersion := by
  simp only [handleRunResult]
  repeat' split
  all_goals rfl

/-- A failed upgrade is rolled back completely exactly where there was nothing to roll back: an
earlier attempt at the same version has left all of it behind. -/
theorem upgrade_rolled_back_iff {x : Env} {pkg : AgentUpgrade} {s t : Site}
    (hversion : pkg.version < 2 ^ 64) (h : SpawnFails x pkg s t) (m : Metrics) :
    RolledBack s t m ↔
      s.loadState.previousAgentVersion = s.loadState.agentVersion ∧
        m.agentVersion = pkg.version ∧
        s.current = some (versionedPath x.dataDir pkg.version) := by
  obtain ⟨hstate, hreports, hcurrent⟩ := leaves_of_spawnFails h
  have hshown : ((t.reports.drop s.reports.length).foldl handleRunResult m).agentVersion =
      pkg.version := by
    rw [hreports, List.drop_left, List.foldl_cons, List.foldl_cons, List.foldl_nil,
      agentVersion_error, agentVersion_accepted m hversion]
  have hfields : t.loadState = s.loadState ↔
      s.loadState.previousAgentVersion = s.loadState.agentVersion := by
    rw [hstate]
    constructor
    · intro heq
      exact (congrArg AgentState.previousAgentVersion heq).symm
    · intro heq
      rw [← heq]
  constructor
  · rintro ⟨hs, hm, hc⟩
    exact ⟨hfields.mp hs, by rw [← hm, hshown], by rw [← hc, hcurrent]⟩
  · rintro ⟨hs, hm, hc⟩
    exact ⟨hfields.mpr hs, by rw [hshown, hm], by rw [hcurrent, hc]⟩

/-- An agent that has been upgraded to version 1. -/
def upgradedSite : Site where
  stateJson := some { agentVersion := 1 }
  current := some "/root/.local/share/realm-agent/bin/realm-agent-v1"

/-- The same agent after its upgrade to version 2 has failed. -/
def failedSite : Site where
  stateJson := some { agentVersion := 1, previousAgentVersion := 1 }
  current := some "/root/.local/share/realm-agent/bin/realm-agent-v2"

/-- When the upgrade to version 2 fails once more, everything is as it was before. -/
theorem upgrade_rolled_back_again : ∃ t, SpawnFails sampleEnv (upgradeA 2) failedSite t ∧
    RolledBack failedSite t { agentVersion := 2 } := by
  have hfails : SpawnFails sampleEnv (upgradeA 2) failedSite _ :=
    ⟨List.replicate 7 {}, 1, _, { spawned := false }, {}, rfl, rfl, rfl⟩
  exact ⟨_, hfails, (upgrade_rolled_back_iff (by decide) hfails _).mpr
    ⟨rfl, rfl, by decide⟩⟩

/-- The first failed upgrade to version 2 is not taken back: the agent shows version 2, the link
leads to it, and version 1 is recorded as the previous version. -/
theorem upgrade_not_rolled_back : ∃ t, SpawnFails sampleEnv (upgradeA 2) upgradedSite t ∧
    ¬ RolledBack upgradedSite t { agentVersion := 1 } ∧
    t.loadState.previousAgentVersion = 1 ∧
    ((t.reports.drop upgradedSite.reports.length).foldl handleRunResult
      { agentVersion := 1 }).agentVersion = 2 ∧
    t.current = some "/root/.local/share/realm-agent/bin/realm-agent-v2" := by
  refine ⟨_, ⟨List.replicate 7 {}, 1, _, { spawned := false }, {}, rfl, rfl, rfl⟩, ?_⟩
  refine ⟨?_, ?_, ?_, ?_⟩
  · intro h
    exact absurd h.current (by decide)
  · decide
  · decide
  · decide

end PeerDeploy.Deploy
