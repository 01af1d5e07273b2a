import PeerDeploy.Base.Text
import PeerDeploy.Common.Command

/-!
# Metrics as text

An agent writes its counters in the Prometheus text format
(`crates/agent/src/p2p/metrics.rs:33–239`). A manager that runs without an agent of its own reads
them into counters (`crates/agent/src/web/utils.rs:77–104`), and a discovery of peers reads their
status (`crates/agent/src/web/handlers.rs:1117–1149`). A counter is read and written by one atomic
access, and no one else writes the counters of a text while it is built or read.
-/

namespace PeerDeploy.Web.Prometheus

open PeerDeploy.Base PeerDeploy.Common

/-- `crates/agent/src/p2p/metrics.rs:33–58`. -/
structure Metrics where
  statusPublishedTotal : UInt64 := 0
  statusPublishErrorsTotal : UInt64 := 0
  commandsReceivedTotal : UInt64 := 0
  runOkTotal : UInt64 := 0
  runErrorTotal : UInt64 := 0
  manifestAcceptedTotal : UInt64 := 0
  manifestRejectedTotal : UInt64 := 0
  upgradeAcceptedTotal : UInt64 := 0
  upgradeRejectedTotal : UInt64 := 0
  agentVersion : UInt64 := 0
  manifestVersion : UInt64 := 0
  componentsRunning : UInt64 := 0
  componentsDesired : UInt64 := 0
  restartsTotal : UInt64 := 0
  fuelUsedTotal : UInt64 := 0
  memCurrentBytes : UInt64 := 0
  memPeakBytes : UInt64 := 0
  msgsPerSec : UInt64 := 0
  gatewayRequestsTotal : UInt64 := 0
  gatewayErrorsTotal : UInt64 := 0
  gatewayLastLatencyMs : UInt64 := 0

namespace Metrics

/-- `crates/agent/src/p2p/metrics.rs:94–96`. -/
def setComponentsDesired (m : Metrics) (v : UInt64) : Metrics := { m with componentsDesired := v }

/-- `crates/agent/src/p2p/metrics.rs:111–118`. -/
def setMemCurrentBytes (m : Metrics) (current : UInt64) : Metrics :=
  let m := { m with memCurrentBytes := current }
  if m.memPeakBytes < current then { m with memPeakBytes := current } else m

/-- The difference of the component counts, not below zero;
`crates/agent/src/p2p/metrics.rs:191–194`. -/
def drift (m : Metrics) : UInt64 :=
  if m.componentsRunning ≤ m.componentsDesired then m.componentsDesired - m.componentsRunning else 0

end Metrics

/-- A metric of the text: its name, its type and its value. -/
structure Sample where
  name : String
  kind : String
  value : UInt64

namespace Sample

/-- `# TYPE <name> <kind>`. -/
def comment (s : Sample) : String := "# TYPE " ++ s.name ++ " " ++ s.kind

/-- `<name> <value>`. -/
def line (s : Sample) : String := s.name ++ " " ++ Nat.repr s.value.toNat

end Sample

/-- What is written, in this order; `crates/agent/src/p2p/metrics.rs:126–236`. -/
def Metrics.samples (m : Metrics) : List Sample :=
  [⟨"agent_status_published_total", "counter", m.statusPublishedTotal⟩,
    ⟨"agent_status_publish_errors_total", "counter", m.statusPublishErrorsTotal⟩,
    ⟨"agent_commands_received_total", "counter", m.commandsReceivedTotal⟩,
    ⟨"agent_run_ok_total", "counter", m.runOkTotal⟩,
    ⟨"agent_run_error_total", "counter", m.runErrorTotal⟩,
    ⟨"agent_manifest_accepted_total", "counter", m.manifestAcceptedTotal⟩,
    ⟨"agent_manifest_rejected_total", "counter", m.manifestRejectedTotal⟩,
    ⟨"agent_upgrade_accepted_total", "counter", m.upgradeAcceptedTotal⟩,
    ⟨"agent_upgrade_rejected_total", "counter", m.upgradeRejectedTotal⟩,
    ⟨"agent_version", "gauge", m.agentVersion⟩,
    ⟨"manifest_version", "gauge", m.manifestVersion⟩,
    ⟨"components_running", "gauge", m.componentsRunning⟩,
    ⟨"components_desired", "gauge", m.componentsDesired⟩,
    ⟨"components_drift", "gauge", m.drift⟩,
    ⟨"agent_restarts_total", "counter", m.restartsTotal⟩,
    ⟨"agent_fuel_used_total", "counter", m.fuelUsedTotal⟩,
    ⟨"agent_mem_current_bytes", "gauge", m.memCurrentBytes⟩,
    ⟨"agent_mem_peak_bytes", "gauge", m.memPeakBytes⟩,
    ⟨"agent_msgs_per_sec", "gauge", m.msgsPerSec⟩,
    ⟨"gateway_requests_total", "counter", m.gatewayRequestsTotal⟩,
    ⟨"gateway_errors_total", "counter", m.gatewayErrorsTotal⟩,
    ⟨"gateway_last_latency_ms", "gauge", m.gatewayLastLatencyMs⟩]

/-- Every sample has a comment of its own, and each line ends with a line feed. -/
def renderSamples (samples : List Sample) : String :=
  samples.foldr (fun s out ↦ s.comment ++ "\n" ++ (s.line ++ "\n" ++ out)) ""

/-- `crates/agent/src/p2p/metrics.rs:124–238`. -/
def Metrics.renderPrometheus (m : Metrics) : String := renderSamples m.samples

/-- The name and the value in a line; `crates/agent/src/web/utils.rs:85–86` and
`crates/agent/src/web/handlers.rs:1124–1125`. -/
def readSample (line : String) : Option (String × UInt64) := do
  let (metricName, valueStr) ← Text.splitOnce " " line
  let value ← Text.parseUnsigned 64 valueStr
  return (metricName, UInt64.ofNat value)

/-- `crates/agent/src/web/utils.rs:87–100`. -/
def Metrics.store (m : Metrics) (metricName : String) (value : UInt64) : Metrics :=
  match metricName with
  | "components_running" => { m with componentsRunning := value }
  | "components_desired" => m.setComponentsDesired value
  | "agent_restarts_total" => { m with restartsTotal := value }
  | "agent_mem_current_bytes" => m.setMemCurrentBytes value
  | "agent_fuel_used_total" => { m with fuelUsedTotal := value }
  | _ => m

/-- One line of the text; `crates/agent/src/web/utils.rs:81–102`. -/
def Metrics.storeLine (m : Metrics) (line : String) : Metrics :=
  if Text.startsWith "#" line ∨ Text.trim line = "" then m
  else match readSample line with
    | some (metricName, value) => m.store metricName value
    | none => m

/-- `crates/agent/src/web/utils.rs:77–104`. -/
def parsePrometheusMetrics (metricsText : String) (metrics : Metrics) : Metrics :=
  (Text.lines metricsText).foldl Metrics.storeLine metrics

/-- `crates/agent/src/web/handlers.rs:1061–1064`. -/
structure PeerInfo where
  address : String
  metrics : String

/-- The counts of a peer. -/
structure PeerCounts where
  agentVersion : UInt64 := 0
  componentsRunning : UInt64 := 0
  componentsDesired : UInt64 := 0

/-- `crates/agent/src/web/handlers.rs:1126–1131`. -/
def PeerCounts.store (c : PeerCounts) (metricName : String) (value : UInt64) : PeerCounts :=
  match metricName with
  | "agent_version" => { c with agentVersion := value }
  | "components_running" => { c with componentsRunning := value }
  | "components_desired" => { c with componentsDesired := value }
  | _ => c

/-- One line of the text; `crates/agent/src/web/handlers.rs:1123–1134`. -/
def PeerCounts.storeLine (c : PeerCounts) (line : String) : PeerCounts :=
  match readSample line with
  | some (metricName, value) => c.store metricName value
  | none => c

/-- `crates/agent/src/web/handlers.rs:1117–1149`, also at `crates/agent/src/web/discover.rs:117`.
The difference of the counts is one of 64 bits with a sign, which wraps in a release build. -/
def parsePeerInfo (peerInfo : PeerInfo) : Except String Status :=
  let counts := (Text.lines peerInfo.metrics).foldl PeerCounts.storeLine {}
  .ok {
    nodeId := peerInfo.address
    msg := "discovered"
    agentVersion := counts.agentVersion.toNat
    componentsDesired := counts.componentsDesired.toNat
    componentsRunning := counts.componentsRunning.toNat
    cpuPercent := 0
    memPercent := 0
    tags := ["discovered"]
    drift := (counts.componentsDesired.toInt64 - counts.componentsRunning.toInt64).toInt
    trustedOwnerPubBs58 := none
    links := 0 }

/-! ### Lines -/

/-- A name of letters and underscores, and so is a type. -/
def Sample.Plain (s : Sample) : Prop :=
  ∀ c ∈ s.name.toList ++ s.kind.toList, (c.isAlpha || c == '_') = true

private theorem char_of_comment {s : Sample} (h : s.Plain) {c : Char}
    (hc : c ∈ s.comment.toList) : c ∈ "# TYPE ".toList ∨ (c.isAlpha || c == '_') = true := by
  simp only [Sample.comment, String.toList_append, List.mem_append] at hc
  rcases hc with ((hc | hc) | hc) | hc
  · exact .inl hc
  · exact .inr (h c (List.mem_append_left _ hc))
  · rw [List.mem_singleton.mp hc]
    decide
  · exact .inr (h c (List.mem_append_right _ hc))

private theorem char_of_line {s : Sample} (h : s.Plain) {c : Char} (hc : c ∈ s.line.toList) :
    c = ' ' ∨ (c.isAlpha || c == '_') = true ∨ c.isDigit = true := by
  simp only [Sample.line, String.toList_append, List.mem_append] at hc
  rcases hc with (hc | hc) | hc
  · exact .inr (.inl (h c (List.mem_append_left _ hc)))
  · exact .inl (List.mem_singleton.mp hc)
  · exact .inr (.inr (Text.isDigit_of_mem_repr hc))

private theorem space_notMem_name {s : Sample} (h : s.Plain) : ' ' ∉ s.name.toList := by
  intro hin
  have hchar := h ' ' (List.mem_append_left _ hin)
  revert hchar
  decide

/-- A line of a sample is read as its name and value. -/
theorem readSample_line {s : Sample} (h : s.Plain) :
    readSample s.line = some (s.name, s.value) := by
  have hsplit : Text.splitOnce " " s.line = some (s.name, Nat.repr s.value.toNat) :=
    Text.splitOnce_append (c := ' ') (by decide) (space_notMem_name h) _
  simp only [readSample, hsplit, Text.parseUnsigned_repr s.value.toNat_lt, Option.bind_eq_bind,
    Option.bind_some, Option.pure_def, UInt64.ofNat_toNat]

/-- A comment is not read: what follows its first space is no number. -/
theorem readSample_comment (s : Sample) : readSample s.comment = none := by
  have hcomment : s.comment = "#" ++ " " ++ ("TYPE " ++ s.name ++ " " ++ s.kind) := by
    apply String.toList_inj.mp
    simp [Sample.comment]
  have hsplit : Text.splitOnce " " s.comment = some ("#", "TYPE " ++ s.name ++ " " ++ s.kind) := by
    rw [hcomment]
    exact Text.splitOnce_append (c := ' ') (by decide) (by decide) _
  have hparse : Text.parseUnsigned 64 ("TYPE " ++ s.name ++ " " ++ s.kind) = none := by
    have hletter : 'T'.isDigit = false := by decide
    simp [Text.parseUnsigned, String.toList_append, hletter]
  simp only [readSample, hsplit, hparse, Option.bind_eq_bind, Option.bind_some, Option.bind_none]

/-- Reading the lines of a text of samples is a fold over the samples, for any reader that passes
over comments. -/
theorem foldl_lines {α : Type} {read : α → String → α} {store : α → Sample → α}
    (hcomment : ∀ a (s : Sample), read a s.comment = a)
    (hline : ∀ a (s : Sample), s.Plain → read a s.line = store a s)
    {samples : List Sample} (hplain : ∀ s ∈ samples, s.Plain) (a : α) :
    (Text.lines (renderSamples samples)).foldl read a = samples.foldl store a := by
  induction samples generalizing a with
  | nil => rfl
  | cons s samples ih =>
    have hs := hplain s List.mem_cons_self
    rw [renderSamples, List.foldr_cons,
      Text.lines_append (fun hin ↦ absurd (char_of_comment hs hin) (by decide))
        fun hin ↦ absurd (char_of_comment hs hin) (by decide),
      Text.lines_append (fun hin ↦ absurd (char_of_line hs hin) (by decide))
        fun hin ↦ absurd (char_of_line hs hin) (by decide),
      List.foldl_cons, List.foldl_cons, List.foldl_cons, hcomment, hline a s hs]
    exact ih (fun other hother ↦ hplain other (List.mem_cons_of_mem s hother)) _

/-- All names that are written are plain. -/
theorem plain_samples (m : Metrics) : ∀ s ∈ m.samples, s.Plain := by
  have hnames : ((({} : Metrics).samples.map fun s ↦ s.name.toList ++ s.kind.toList).all
      fun name ↦ name.all fun c ↦ c.isAlpha || c == '_') = true := by
    decide
  intro s hs
  have hs : s.name.toList ++ s.kind.toList ∈ m.samples.map fun s ↦ s.name.toList ++ s.kind.toList :=
    List.mem_map_of_mem hs
  exact List.all_eq_true.mp (List.all_eq_true.mp hnames _ hs)

/-! ### Round trips -/

private theorem storeLine_comment (m : Metrics) (s : Sample) : m.storeLine s.comment = m := by
  apply if_pos
  left
  have hcomment : s.comment = "#" ++ (" TYPE " ++ s.name ++ " " ++ s.kind) := by
    apply String.toList_inj.mp
    simp [Sample.comment]
  rw [hcomment]
  exact Text.startsWith_append _ _

private theorem storeLine_line (m : Metrics) (s : Sample) (h : s.Plain) :
    m.storeLine s.line = m.store s.name s.value := by
  have hdigit : ∃ c ∈ (Nat.repr s.value.toNat).toList, c.isDigit := by
    obtain ⟨c, hc⟩ := List.exists_mem_of_ne_nil (Nat.repr s.value.toNat).toList (by
      rw [Nat.toList_repr]
      exact Nat.toDigits_ne_nil)
    exact ⟨c, hc, Text.isDigit_of_mem_repr hc⟩
  obtain ⟨c, hc, hdigit⟩ := hdigit
  have hshown : Text.trim s.line ≠ "" := by
    apply Text.trim_ne_empty (c := c) _ (Text.isWhitespace_of_isDigit hdigit)
    rw [Sample.line, String.toList_append]
    exact List.mem_append_right _ hc
  have hplain : ¬ Text.startsWith "#" s.line = true := by
    intro hstarts
    have hin := (List.isPrefixOf_iff_prefix.mp hstarts).subset (List.mem_singleton.mpr rfl)
    exact absurd (char_of_line h hin) (by decide)
  unfold Metrics.storeLine
  rw [if_neg (not_or.mpr ⟨hplain, hshown⟩), readSample_line h]

private theorem foldl_filter {α : Type} {store : α → Sample → α} {known : List String}
    (hother : ∀ a (s : Sample), s.name ∉ known → store a s = a) (samples : List Sample) (a : α) :
    samples.foldl store a = (samples.filter (·.name ∈ known)).foldl store a := by
  induction samples generalizing a with
  | nil => rfl
  | cons s samples ih =>
    by_cases hs : s.name ∈ known
    · rw [List.filter_cons_of_pos (by simpa using hs), List.foldl_cons, List.foldl_cons, ih]
    · rw [List.filter_cons_of_neg (by simpa using hs), List.foldl_cons, hother a s hs, ih]

private theorem store_other (m : Metrics) (s : Sample) (h : s.name ∉ ["components_running",
    "components_desired", "agent_restarts_total", "agent_fuel_used_total",
    "agent_mem_current_bytes"]) : m.store s.name s.value = m := by
  unfold Metrics.store
  split
  all_goals first
    | rfl
    | next hname => exact absurd (hname ▸ h) (by decide)

private theorem peerStore_other (c : PeerCounts) (s : Sample) (h : s.name ∉ ["agent_version",
    "components_running", "components_desired"]) : c.store s.name s.value = c := by
  unfold PeerCounts.store
  split
  all_goals first
    | rfl
    | next hname => exact absurd (hname ▸ h) (by decide)

/-- Reading a text into counters sets the five that it knows, and may raise the peak; reading it
as that of a peer gives its version and component counts. -/
theorem parse_renderPrometheus (m target : Metrics) (address : String) :
    parsePrometheusMetrics m.renderPrometheus target =
      { target with
        componentsRunning := m.componentsRunning
        componentsDesired := m.componentsDesired
        restartsTotal := m.restartsTotal
        fuelUsedTotal := m.fuelUsedTotal
        memCurrentBytes := m.memCurrentBytes
        memPeakBytes := if target.memPeakBytes < m.memCurrentBytes then m.memCurrentBytes
          else target.memPeakBytes } ∧
    ∃ status, parsePeerInfo ⟨address, m.renderPrometheus⟩ = .ok status ∧
      status.agentVersion = m.agentVersion.toNat ∧
      status.componentsRunning = m.componentsRunning.toNat ∧
      status.componentsDesired = m.componentsDesired.toNat := by
  constructor
  · have hstored : parsePrometheusMetrics m.renderPrometheus target =
        ((((target.store "components_running" m.componentsRunning).store
          "components_desired" m.componentsDesired).store
          "agent_restarts_total" m.restartsTotal).store
          "agent_fuel_used_total" m.fuelUsedTotal).store
          "agent_mem_current_bytes" m.memCurrentBytes := by
      rw [parsePrometheusMetrics, Metrics.renderPrometheus,
        foldl_lines storeLine_comment storeLine_line (plain_samples m), foldl_filter store_other]
      rfl
    rw [hstored]
    simp only [Metrics.store, Metrics.setComponentsDesired, Metrics.setMemCurrentBytes]
    split
    · rfl
    · rfl
  · refine ⟨_, rfl, ?_⟩
    rw [Metrics.renderPrometheus,
      foldl_lines (fun c s ↦ by rw [PeerCounts.storeLine, readSample_comment])
        (fun c s hs ↦ by rw [PeerCounts.storeLine, readSample_line hs]) (plain_samples m),
      foldl_filter peerStore_other]
    exact ⟨rfl, rfl, rfl⟩

end PeerDeploy.Web.Prometheus
