import PeerDeploy.Base.Json
import PeerDeploy.Base.Table
import PeerDeploy.Base.Text

/-!
# Live logs

`crates/agent/src/p2p/metrics.rs:13–30` and `crates/agent/src/web/websocket.rs:19–121`. The log
buffer keeps the last lines of each component; a connection remembers for each component how
many lines of the buffer it has sent. A tick looks at the buffers under their lock, so it is one
step. The connection is open all the time: what is sent reaches the client.
-/

namespace PeerDeploy.Web.LogStream

open PeerDeploy.Base

/-- `LOGS_CAP`; `crates/agent/src/p2p/metrics.rs:13`. -/
def logsCap : Nat := 1000

/-- The log buffers by component; `crates/agent/src/p2p/metrics.rs:10–11`. -/
abbrev Logs := Std.ExtTreeMap String (List String)

/-- The lines of a component. -/
def Logs.buffer (logs : Logs) (name : String) : List String := logs[name]?.getD []

/-- `crates/agent/src/p2p/metrics.rs:29`. -/
def logLine (now : UInt64) (line : String) : String := Nat.repr now.toNat ++ " | " ++ line

/-- The buffer of a component with one more line; `crates/agent/src/p2p/metrics.rs:26–29`. -/
def pushBack (buf : List String) (line : String) : List String :=
  if logsCap ≤ buf.length then buf.drop 1 ++ [line] else buf ++ [line]

/-- `crates/agent/src/p2p/metrics.rs:16–30`. -/
def pushLog (logs : Logs) (now : UInt64) (name line : String) : Logs :=
  logs.insert name (pushBack (logs.buffer name) (logLine now line))

/-- `crates/agent/src/p2p/events.rs:4–10`. -/
structure P2PEvent where
  timestamp : UInt64
  direction : String
  source : String
  topic : String
  message : String

/-- What a status update reads; `crates/agent/src/web/websocket.rs:126–135`. -/
structure Gauges where
  peers : Nat := 0
  componentsRunning : Nat := 0
  componentsDesired : Nat := 0
  restartsTotal : Nat := 0
  memCurrentBytes : Nat := 0
  memPeakBytes : Nat := 0
  fuelUsedTotal : Nat := 0

/-- A log line for the client. -/
structure LogMessage where
  timestamp : String
  component : String
  message : String
  deriving DecidableEq

/-- What the client is sent. -/
inductive Message where
  | pong
  | status (gauges : Gauges)
  | log (message : LogMessage)
  | p2pEvent (timestamp : String) (event : P2PEvent)

/-- The text on the wire; the members of a `json!` object are in alphabetical order. -/
def Message.text : Message → String
  | .pong => "pong"
  | .status gauges => String.ofList <| Json.print <| .obj
    [("type", .str "metrics"),
      ("data", .obj [("components_desired", .num gauges.componentsDesired),
        ("components_running", .num gauges.componentsRunning),
        ("fuel_used_total", .num gauges.fuelUsedTotal),
        ("mem_current_bytes", .num gauges.memCurrentBytes),
        ("mem_peak_bytes", .num gauges.memPeakBytes),
        ("nodes", .num (max gauges.peers 1)),
        ("restarts_total", .num gauges.restartsTotal)])]
  | .log message => String.ofList <| Json.print <| .obj
    [("component", .str message.component), ("message", .str message.message),
      ("timestamp", .str message.timestamp), ("type", .str "log")]
  | .p2pEvent timestamp event => String.ofList <| Json.print <| .obj
    [("direction", .str event.direction), ("message", .str event.message),
      ("source", .str event.source), ("timestamp", .str timestamp), ("topic", .str event.topic),
      ("type", .str "p2p_event")]

/-- A connection and what it shares with the agent. -/
structure Stream where
  logs : Logs := ∅
  p2pEvents : List P2PEvent := []
  /-- The lines sent, by component. -/
  lastSent : Std.ExtTreeMap String Nat := ∅
  lastSentP2p : Nat := 0
  sent : List Message := []

/-- What happens during a connection. -/
inductive Event where
  | pushLog (now : UInt64) (name line : String)
  | p2pEvent (event : P2PEvent)
  /-- A text from the client. -/
  | message (text : String)
  | tick (gauges : Gauges)

section Steps

/- `format_timestamp`, which formats by the `time` crate. -/
variable (formatTimestamp : UInt64 → String)

/-- The message for a line of the buffer; `crates/agent/src/web/websocket.rs:77–87`. -/
def logMessage (component line : String) : Option LogMessage := do
  let (ts, message) ← Text.splitOnce " | " line
  let seconds ← Text.parseUnsigned 64 (Text.trim ts)
  return { timestamp := formatTimestamp (UInt64.ofNat seconds), component,
           message := Text.trim message }

/-- The new lines of one component; `crates/agent/src/web/websocket.rs:73–90`. -/
def streamComponent (acc : Std.ExtTreeMap String Nat × List LogMessage)
    (entry : String × List String) : Std.ExtTreeMap String Nat × List LogMessage :=
  let start := acc.1[entry.1]?.getD 0
  let stop := entry.2.length
  if start ≥ stop then acc
  else (acc.1.insert entry.1 stop,
    acc.2 ++ ((entry.2.drop start).take (stop - start)).filterMap
      (logMessage formatTimestamp entry.1))

/-- The positions after a tick and the lines it sends. -/
def newLogs (s : Stream) : Std.ExtTreeMap String Nat × List LogMessage :=
  s.logs.toList.foldl (streamComponent formatTimestamp) (s.lastSent, [])

/-- What a tick sends; `crates/agent/src/web/websocket.rs:60–117`. -/
def tickMessages (s : Stream) (gauges : Gauges) : List Message :=
  .status gauges :: ((newLogs formatTimestamp s).2.map .log ++
    (s.p2pEvents.drop s.lastSentP2p).map fun event ↦
      .p2pEvent (formatTimestamp event.timestamp) event)

/-- One event. -/
def step (s : Stream) : Event → Stream
  | .pushLog now name line => { s with logs := pushLog s.logs now name line }
  | .p2pEvent event => { s with p2pEvents := s.p2pEvents ++ [event] }
  | .message text => if text = "ping" then { s with sent := s.sent ++ [.pong] } else s
  | .tick gauges =>
    { s with
      lastSent := (newLogs formatTimestamp s).1
      lastSentP2p := max s.lastSentP2p s.p2pEvents.length
      sent := s.sent ++ tickMessages formatTimestamp s gauges }

/-- A connection that opens after these lines and events; a status update is sent at once. -/
def connect (lines : List (UInt64 × String × String)) (p2pEvents : List P2PEvent)
    (gauges : Gauges) : Stream :=
  { logs := lines.foldl (fun logs (now, name, line) ↦ pushLog logs now name line) ∅
    p2pEvents
    sent := [.status gauges] }

/-! ### The promise -/

/-- The event is a tick. -/
def Event.isTick : Event → Bool
  | .tick _ => true
  | _ => false

/-- The lines that the events push for a component. -/
def pushed (component : String) (events : List Event) : List (UInt64 × String) :=
  events.filterMap fun
    | .pushLog now name line => if name = component then some (now, line) else none
    | _ => none

/-- The log lines of a component among some messages. -/
def logsOf (component : String) (messages : List Message) : List LogMessage :=
  messages.filterMap fun
    | .log message => if message.component = component then some message else none
    | _ => none

/-- A line as the client sees it. -/
def shown (component : String) (entry : UInt64 × String) : LogMessage :=
  { timestamp := formatTimestamp entry.1, component, message := Text.trim entry.2 }

/-- The events go on after the tick that ends `past` with `recent`, where no tick is, and then
with a tick. -/
structure NextTick (events past recent : List Event) (gauges : Gauges) : Prop where
  split : ∃ after, events = past ++ recent ++ .tick gauges :: after
  last : ∃ earlier before, past = earlier ++ [.tick before]
  quiet : ∀ event ∈ recent, event.isTick = false

/-- Each tick after the first one sends the lines pushed since the tick before it, once each and
in order. -/
def Streamed (s : Stream) (events : List Event) : Prop :=
  ∀ past recent gauges, NextTick events past recent gauges → ∀ component,
    logsOf component (tickMessages formatTimestamp
      ((past ++ recent).foldl (step formatTimestamp) s) gauges) =
        (pushed component recent).map (shown formatTimestamp component)

/-- Fewer lines than the buffer takes are pushed for a component between two ticks. -/
def FewLines (events : List Event) : Prop :=
  ∀ past recent gauges, NextTick events past recent gauges → ∀ component,
    (pushed component recent).length < logsCap

/-- The lines that a buffer holds at a tick, and those pushed until the next one, are no more
than it takes. -/
def Room (s : Stream) (events : List Event) : Prop :=
  ∀ past recent gauges, NextTick events past recent gauges → ∀ component,
    ((past.foldl (step formatTimestamp) s).logs.buffer component).length +
      (pushed component recent).length ≤ logsCap

end Steps

/-! ### The buffers -/

/-- The buffer of one component changes. -/
theorem buffer_pushLog (logs : Logs) (now : UInt64) (name line component : String) :
    (pushLog logs now name line).buffer component =
      if name = component then pushBack (logs.buffer name) (logLine now line)
      else logs.buffer component := by
  rw [pushLog, Logs.buffer, Table.getElem?_insert]
  split
  · rfl
  · rfl

/-- A buffer does not get shorter, and no longer than its bound. -/
theorem length_pushBack (buf : List String) (line : String) :
    (pushBack buf line).length = max buf.length (min (buf.length + 1) logsCap) := by
  unfold pushBack
  split
  · next hfull =>
    have hpos : 0 < logsCap := by decide
    rw [List.length_append, List.length_drop, List.length_singleton]
    omega
  · rw [List.length_append, List.length_singleton]
    omega

/-- Lines pushed in a row: the buffer holds the last ones. -/
theorem foldl_pushBack (lines : List String) {buf : List String} (hbuf : buf.length ≤ logsCap) :
    lines.foldl pushBack buf = (buf ++ lines).drop (buf.length + lines.length - logsCap) := by
  induction lines generalizing buf with
  | nil => simp [Nat.sub_eq_zero_of_le hbuf]
  | cons line lines ih =>
    have hlength := length_pushBack buf line
    rw [List.foldl_cons, ih (by omega), hlength, List.length_cons]
    unfold pushBack
    split
    · next hfull =>
      -- the line that falls out is the first one
      have hpos : 0 < buf.length := Nat.lt_of_lt_of_le (by decide) hfull
      have hone : buf.drop 1 ++ [line] ++ lines = (buf ++ line :: lines).drop 1 := by
        rw [List.drop_append_of_le_length hpos, List.append_assoc]
        rfl
      rw [hone, List.drop_drop]
      refine congrArg (fun cut ↦ (buf ++ line :: lines).drop cut) ?_
      omega
    · rw [List.append_assoc]
      refine congrArg (fun cut ↦ (buf ++ line :: lines).drop cut) ?_
      omega

/-! ### A tick -/

section Tick

variable (formatTimestamp : UInt64 → String)

/-- A line comes out of the buffer as it was pushed, less the white space around it. -/
theorem logMessage_logLine (component : String) (now : UInt64) (line : String) :
    logMessage formatTimestamp component (logLine now line) =
      some (shown formatTimestamp component (now, line)) := by
  have hdigits : ∀ c ∈ (Nat.repr now.toNat).toList, c.isDigit = true := by
    rw [Nat.toList_repr]
    exact fun c hc ↦ Nat.isDigit_of_mem_toDigits (by decide) (by decide) hc
  have hsplit : Text.splitOnce " | " (logLine now line) = some (Nat.repr now.toNat, line) := by
    apply Text.splitOnce_append (c := ' ') (by decide)
    intro hin
    exact absurd (hdigits ' ' hin) (by decide)
  have htrim : Text.trim (Nat.repr now.toNat) = Nat.repr now.toNat := by
    apply Text.trim_eq_self
    intro c hc
    exact Text.isWhitespace_of_isDigit (hdigits c hc)
  have hparse : Text.parseUnsigned 64 (Nat.repr now.toNat) = some now.toNat :=
    Text.parseUnsigned_repr now.toNat_lt
  simp only [logMessage, hsplit, Option.bind_eq_bind, Option.bind_some, htrim, hparse]
  simp [shown]

-- How many lines of a component are sent.
private def position (acc : Std.ExtTreeMap String Nat × List LogMessage) (component : String) :
    Nat :=
  acc.1[component]?.getD 0

-- The messages of a component.
private def linesOf (component : String) (messages : List LogMessage) : List LogMessage :=
  messages.filter fun message ↦ message.component = component

private theorem component_of_logMessage {component line : String} {message : LogMessage}
    (h : logMessage formatTimestamp component line = some message) :
    message.component = component := by
  simp only [logMessage, Option.bind_eq_bind, Option.bind_eq_some_iff, Option.pure_def,
    Option.some.injEq] at h
  obtain ⟨_, _, _, _, rfl⟩ := h
  rfl

private theorem linesOf_filterMap (component name : String) (lines : List String) :
    linesOf component (lines.filterMap (logMessage formatTimestamp name)) =
      if name = component then lines.filterMap (logMessage formatTimestamp component) else [] := by
  unfold linesOf
  split
  · next hname =>
    subst hname
    rw [List.filter_eq_self]
    intro message hmessage
    obtain ⟨line, _, hline⟩ := List.mem_filterMap.mp hmessage
    simpa using component_of_logMessage formatTimestamp hline
  · next hname =>
    rw [List.filter_eq_nil_iff]
    intro message hmessage
    obtain ⟨line, _, hline⟩ := List.mem_filterMap.mp hmessage
    rw [component_of_logMessage formatTimestamp hline]
    simpa using hname

-- One component of a tick: its position moves to the end of its buffer and its new lines are sent,
-- the others stay.
private theorem streamComponent_spec (acc : Std.ExtTreeMap String Nat × List LogMessage)
    (name component : String) (buf : List String) :
    position (streamComponent formatTimestamp acc (name, buf)) component =
        (if name = component then max (position acc component) buf.length
          else position acc component) ∧
      linesOf component (streamComponent formatTimestamp acc (name, buf)).2 =
        linesOf component acc.2 ++ (if name = component then
          (buf.drop (position acc component)).filterMap (logMessage formatTimestamp component)
          else []) := by
  by_cases hdone : buf.length ≤ position acc name
  · have hskip : streamComponent formatTimestamp acc (name, buf) = acc := if_pos hdone
    rw [hskip]
    split
    · next hname =>
      subst hname
      rw [List.drop_eq_nil_of_le hdone]
      exact ⟨(Nat.max_eq_left hdone).symm, by simp⟩
    · exact ⟨rfl, by simp⟩
  · have hsend : streamComponent formatTimestamp acc (name, buf) =
        (acc.1.insert name buf.length, acc.2 ++
          (buf.drop (position acc name)).filterMap (logMessage formatTimestamp name)) := by
      have hall : (buf.drop (position acc name)).take (buf.length - position acc name) =
          buf.drop (position acc name) := by
        apply List.take_of_length_le
        exact Nat.le_of_eq List.length_drop
      rw [← hall]
      exact if_neg hdone
    rw [hsend]
    constructor
    · rw [position, Table.getElem?_insert]
      split
      · next hname =>
        subst hname
        change buf.length = max (position acc name) buf.length
        omega
      · rfl
    · change linesOf component (acc.2 ++ _) = _
      rw [linesOf, List.filter_append, ← linesOf, ← linesOf, linesOf_filterMap]
      split
      · next hname => rw [hname]
      · rfl

private theorem foldl_streamComponent_of_notMem {entries : List (String × List String)}
    {component : String} (h : component ∉ entries.map Prod.fst)
    (acc : Std.ExtTreeMap String Nat × List LogMessage) :
    position (entries.foldl (streamComponent formatTimestamp) acc) component =
        position acc component ∧
      linesOf component (entries.foldl (streamComponent formatTimestamp) acc).2 =
        linesOf component acc.2 := by
  induction entries generalizing acc with
  | nil => exact ⟨rfl, rfl⟩
  | cons entry entries ih =>
    rw [List.map_cons, List.mem_cons, not_or] at h
    obtain ⟨hposition, hlines⟩ :=
      streamComponent_spec formatTimestamp acc entry.1 component entry.2
    rw [if_neg (Ne.symm h.1)] at hposition hlines
    rw [List.foldl_cons, (ih h.2 _).1, (ih h.2 _).2, hposition, hlines]
    exact ⟨rfl, List.append_nil _⟩

private theorem foldl_streamComponent_of_mem {entries : List (String × List String)}
    {component : String} {buf : List String} (hkeys : (entries.map Prod.fst).Nodup)
    (h : (component, buf) ∈ entries) (acc : Std.ExtTreeMap String Nat × List LogMessage) :
    position (entries.foldl (streamComponent formatTimestamp) acc) component =
        max (position acc component) buf.length ∧
      linesOf component (entries.foldl (streamComponent formatTimestamp) acc).2 =
        linesOf component acc.2 ++
          (buf.drop (position acc component)).filterMap
            (logMessage formatTimestamp component) := by
  induction entries generalizing acc with
  | nil => cases h
  | cons entry entries ih =>
    rw [List.map_cons, List.nodup_cons] at hkeys
    obtain ⟨hposition, hlines⟩ :=
      streamComponent_spec formatTimestamp acc entry.1 component entry.2
    rw [List.foldl_cons]
    rcases List.mem_cons.mp h with rfl | hrest
    · rw [if_pos rfl] at hposition hlines
      obtain ⟨hlast, hmore⟩ := foldl_streamComponent_of_notMem formatTimestamp hkeys.1
        (streamComponent formatTimestamp acc (component, buf))
      rw [hlast, hmore]
      exact ⟨hposition, hlines⟩
    · have hne : entry.1 ≠ component := by
        rintro rfl
        exact hkeys.1 (List.mem_map.mpr ⟨_, hrest, rfl⟩)
      rw [if_neg hne] at hposition hlines
      obtain ⟨hlast, hmore⟩ := ih hkeys.2 hrest (streamComponent formatTimestamp acc entry)
      rw [hlast, hmore, hposition, hlines, List.append_nil]
      exact ⟨rfl, rfl⟩

/-- A tick moves each position to the end of the buffer and sends the lines behind it. -/
theorem newLogs_spec (s : Stream) (component : String) :
    (newLogs formatTimestamp s).1[component]?.getD 0 =
        max (s.lastSent[component]?.getD 0) (s.logs.buffer component).length ∧
      linesOf component (newLogs formatTimestamp s).2 =
        ((s.logs.buffer component).drop (s.lastSent[component]?.getD 0)).filterMap
          (logMessage formatTimestamp component) := by
  cases hbuf : s.logs[component]? with
  | none =>
    have hout : component ∉ s.logs.toList.map Prod.fst := by
      intro hmem
      obtain ⟨⟨name, buf⟩, hentry, rfl⟩ := List.mem_map.mp hmem
      rw [Std.ExtTreeMap.mem_toList_iff_getElem?_eq_some, hbuf] at hentry
      cases hentry
    have hnil : s.logs.buffer component = [] := by rw [Logs.buffer, hbuf, Option.getD_none]
    rw [hnil, List.length_nil, Nat.max_zero, List.drop_nil]
    exact foldl_streamComponent_of_notMem formatTimestamp hout (s.lastSent, [])
  | some buf =>
    have hmem : (component, buf) ∈ s.logs.toList := by
      rw [Std.ExtTreeMap.mem_toList_iff_getElem?_eq_some, hbuf]
    have hsome : s.logs.buffer component = buf := by rw [Logs.buffer, hbuf, Option.getD_some]
    rw [hsome]
    exact foldl_streamComponent_of_mem formatTimestamp (Table.nodup_keys s.logs) hmem
      (s.lastSent, [])

private theorem logsOf_tickMessages (s : Stream) (gauges : Gauges) (component : String) :
    logsOf component (tickMessages formatTimestamp s gauges) =
      linesOf component (newLogs formatTimestamp s).2 := by
  simp only [logsOf, tickMessages, linesOf, List.filterMap_cons, List.filterMap_append,
    List.filterMap_map]
  have hevents : (s.p2pEvents.drop s.lastSentP2p).filterMap
      ((fun
        | .log message => if message.component = component then some message else none
        | _ => none : Message → Option LogMessage) ∘ fun event ↦
          Message.p2pEvent (formatTimestamp event.timestamp) event) = [] := by
    rw [List.filterMap_eq_nil_iff]
    exact fun _ _ ↦ rfl
  rw [hevents, List.append_nil, ← List.filterMap_eq_filter]
  congr 1
  ext message
  simp [Option.guard]

end Tick

/-! ### Runs -/

/-- The positions are in the buffers, and the buffers within their bound. -/
structure Behind (s : Stream) : Prop where
  position : ∀ component,
    s.lastSent[component]?.getD 0 ≤ (s.logs.buffer component).length
  bound : ∀ component, (s.logs.buffer component).length ≤ logsCap

section Runs

variable (formatTimestamp : UInt64 → String)

/-- Pushing a line keeps the positions in the buffers. -/
theorem behind_pushLog {s : Stream} (h : Behind s) (now : UInt64) (name line : String) :
    Behind { s with logs := pushLog s.logs now name line } := by
  constructor
  · intro component
    change s.lastSent[component]?.getD 0 ≤ _
    rw [buffer_pushLog]
    have hposition := h.position component
    split
    · next hname =>
      subst hname
      have hlength := length_pushBack (s.logs.buffer name) (logLine now line)
      omega
    · exact hposition
  · intro component
    rw [buffer_pushLog]
    have hbound := h.bound component
    split
    · next hname =>
      subst hname
      have hlength := length_pushBack (s.logs.buffer name) (logLine now line)
      omega
    · exact hbound

/-- Every event keeps the positions in the buffers. -/
theorem behind_step {s : Stream} (h : Behind s) (event : Event) :
    Behind (step formatTimestamp s event) := by
  cases event with
  | pushLog now name line => exact behind_pushLog h now name line
  | p2pEvent event => exact ⟨h.position, h.bound⟩
  | message text =>
    simp only [step]
    split
    · exact ⟨h.position, h.bound⟩
    · exact h
  | tick gauges =>
    refine ⟨fun component ↦ ?_, h.bound⟩
    change (newLogs formatTimestamp s).1[component]?.getD 0 ≤ _
    rw [(newLogs_spec formatTimestamp s component).1]
    exact Nat.max_le.mpr ⟨h.position component, Nat.le_refl _⟩

/-- All through a connection the positions are in the buffers. -/
theorem behind_run (events : List Event) {s : Stream} (h : Behind s) :
    Behind (events.foldl (step formatTimestamp) s) := by
  induction events generalizing s with
  | nil => exact h
  | cons event events ih => exact ih (behind_step formatTimestamp h event)

/-- A connection starts at the front of the buffers. -/
theorem behind_connect (lines : List (UInt64 × String × String)) (p2pEvents : List P2PEvent)
    (gauges : Gauges) : Behind (connect lines p2pEvents gauges) := by
  have hlines (lines : List (UInt64 × String × String)) (logs : Logs)
      (h : Behind { logs, p2pEvents, sent := [.status gauges] }) :
      Behind { logs := lines.foldl (fun logs (now, name, line) ↦ pushLog logs now name line) logs
               p2pEvents, sent := [.status gauges] } := by
    induction lines generalizing logs with
    | nil => exact h
    | cons entry lines ih => exact ih _ (behind_pushLog h entry.1 entry.2.1 entry.2.2)
  apply hlines lines ∅
  constructor
  · intro component
    simp
  · intro component
    simp [Logs.buffer]

/-- Between two ticks the positions stay and the buffers take the lines pushed. -/
theorem quiet_run {recent : List Event} (hquiet : ∀ event ∈ recent, event.isTick = false)
    (s : Stream) (component : String) :
    (recent.foldl (step formatTimestamp) s).lastSent = s.lastSent ∧
      (recent.foldl (step formatTimestamp) s).logs.buffer component =
        ((pushed component recent).map fun entry ↦ logLine entry.1 entry.2).foldl pushBack
          (s.logs.buffer component) := by
  induction recent generalizing s with
  | nil => exact ⟨rfl, rfl⟩
  | cons event recent ih =>
    obtain ⟨hposition, hbuffer⟩ := ih (fun e he ↦ hquiet e (List.mem_cons_of_mem event he))
      (step formatTimestamp s event)
    rw [List.foldl_cons, hposition, hbuffer]
    cases event with
    | pushLog now name line =>
      refine ⟨rfl, ?_⟩
      change List.foldl pushBack ((pushLog s.logs now name line).buffer component) _ = _
      rw [buffer_pushLog]
      by_cases hname : name = component
      · subst hname
        simp [pushed]
      · simp [pushed, hname]
    | p2pEvent event => exact ⟨rfl, rfl⟩
    | message text =>
      simp only [step]
      split
      · exact ⟨rfl, rfl⟩
      · exact ⟨rfl, rfl⟩
    | tick gauges => cases hquiet _ List.mem_cons_self

/-- What a tick sends of the lines pushed since the one before: those that do not exceed what
was left of the buffer, from the last one back. -/
theorem logsOf_nextTick {s : Stream} (hs : Behind s) {events past recent : List Event}
    {gauges : Gauges} (h : NextTick events past recent gauges) (component : String) :
    logsOf component (tickMessages formatTimestamp
      ((past ++ recent).foldl (step formatTimestamp) s) gauges) =
        ((pushed component recent).drop
          (((past.foldl (step formatTimestamp) s).logs.buffer component).length +
            (pushed component recent).length - logsCap)).map (shown formatTimestamp component) := by
  obtain ⟨earlier, before, rfl⟩ := h.last
  have hearlier := behind_run formatTimestamp earlier hs
  have hlast := behind_run formatTimestamp (earlier ++ [Event.tick before]) hs
  rw [List.foldl_append]
  -- the tick before has moved the position to the end of the buffer
  have hposition : ((earlier ++ [Event.tick before]).foldl (step formatTimestamp) s).lastSent[
      component]?.getD 0 =
        (((earlier ++ [Event.tick before]).foldl (step formatTimestamp) s).logs.buffer
          component).length := by
    rw [List.foldl_append]
    exact ((newLogs_spec formatTimestamp _ component).1).trans
      (Nat.max_eq_right (hearlier.position component))
  generalize (earlier ++ [Event.tick before]).foldl (step formatTimestamp) s = p at hposition hlast ⊢
  obtain ⟨hsame, hbuffer⟩ := quiet_run formatTimestamp h.quiet p component
  rw [logsOf_tickMessages, (newLogs_spec formatTimestamp _ component).2, hsame, hposition, hbuffer,
    foldl_pushBack _ (hlast.bound component), List.drop_drop, List.length_map]
  generalize pushed component recent = lines
  generalize (p.logs.buffer component).length + lines.length - logsCap = excess
  rw [Nat.add_comm excess, ← List.drop_drop, List.drop_left, ← List.map_drop, List.filterMap_map]
  have hshown : (logMessage formatTimestamp component ∘ fun entry : UInt64 × String ↦
      logLine entry.1 entry.2) = fun entry ↦ some (shown formatTimestamp component entry) := by
    funext entry
    exact logMessage_logLine formatTimestamp component entry.1 entry.2
  rw [hshown, List.filterMap_eq_map']

/-- A connection streams every line once, in order and at the next tick, if and only if no buffer
overflows between two ticks. -/
theorem logs_streamed_iff (lines : List (UInt64 × String × String)) (p2pEvents : List P2PEvent)
    (gauges : Gauges) (events : List Event) :
    Streamed formatTimestamp (connect lines p2pEvents gauges) events ↔
      Room formatTimestamp (connect lines p2pEvents gauges) events := by
  have hs := behind_connect lines p2pEvents gauges
  constructor
  · intro h past recent g hnext component
    have hsent := congrArg List.length (h past recent g hnext component)
    rw [logsOf_nextTick formatTimestamp hs hnext component, List.length_map, List.length_map,
      List.length_drop] at hsent
    have hbound := (behind_run formatTimestamp past hs).bound component
    omega
  · intro h past recent g hnext component
    have hroom := h past recent g hnext component
    rw [logsOf_nextTick formatTimestamp hs hnext component, Nat.sub_eq_zero_of_le hroom,
      List.drop_zero]

private theorem length_buffer_replicate (n : Nat) (now : UInt64) (name line : String) {logs : Logs}
    (h : (logs.buffer name).length ≤ logsCap) :
    (((List.replicate n (now, name, line)).foldl
      (fun logs (now, name, line) ↦ pushLog logs now name line) logs).buffer name).length =
        min ((logs.buffer name).length + n) logsCap := by
  induction n generalizing logs with
  | zero => exact (Nat.min_eq_left h).symm
  | succ n ih =>
    have hlength := length_pushBack (logs.buffer name) (logLine now line)
    have hbuffer := buffer_pushLog logs now name line name
    rw [if_pos rfl] at hbuffer
    have hnext : _ = min (((pushLog logs now name line).buffer name).length + n) logsCap :=
      ih (by rw [hbuffer]; omega)
    rw [hbuffer] at hnext
    rw [List.replicate_succ, List.foldl_cons, hnext]
    omega

private theorem length_buffer_firstTick (n : Nat) (now : UInt64) (name line : String) :
    (([Event.tick {}].foldl (step formatTimestamp)
      (connect (List.replicate n (now, name, line)) [] {})).logs.buffer name).length =
        min n logsCap := by
  have hempty : ((∅ : Logs).buffer name).length = 0 := by simp [Logs.buffer]
  have hlines := length_buffer_replicate n now name line (by rw [hempty]; exact Nat.zero_le _)
  rw [hempty, Nat.zero_add] at hlines
  exact hlines

-- A full buffer, a tick, one more line and another tick.
private def fullBuffer : List Event :=
  [.tick {}, .pushLog 1000 "web" "request failed", .tick {}]

/-- Once the buffer of a component is full its lines are not sent any more. -/
theorem full_buffer_not_streamed :
    ∃ lines p2pEvents gauges events, FewLines events ∧
      ¬ Streamed (fun _ ↦ "1970-01-01T00:16:40.000000000Z")
        (connect lines p2pEvents gauges) events := by
  refine ⟨List.replicate 1000 (0, "web", "request served"), [], {}, fullBuffer, ?_, ?_⟩
  · intro past recent gauges hnext component
    obtain ⟨after, hsplit⟩ := hnext.split
    have hlength := congrArg List.length hsplit
    have hpushed : (pushed component recent).length ≤ recent.length := List.length_filterMap_le _ _
    simp only [fullBuffer, List.length_append, List.length_cons, List.length_nil] at hlength
    simp only [logsCap]
    omega
  · intro h
    have hnext : NextTick fullBuffer [.tick {}]
        [.pushLog 1000 "web" "request failed"] {} :=
      ⟨⟨[], rfl⟩, ⟨[], {}, rfl⟩, by decide⟩
    have hsent := h _ _ _ hnext "web"
    rw [logsOf_nextTick _ (behind_connect _ _ _) hnext] at hsent
    have hlost := congrArg List.length hsent
    rw [length_buffer_firstTick, List.length_map, List.length_map, List.length_drop] at hlost
    have hone : (pushed "web" [.pushLog 1000 "web" "request failed"]).length = 1 := rfl
    rw [hone, logsCap] at hlost
    omega

end Runs

end PeerDeploy.Web.LogStream
