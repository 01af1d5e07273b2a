import PeerDeploy.Base.Sorting
import PeerDeploy.Web.LogStream

/-!
# Two views of the logs

The metrics server shows the log buffers as text (`crates/agent/src/p2p/metrics.rs:279–338`), the
web interface as objects (`crates/agent/src/web/handlers.rs:253–324`). Both can show the last lines
of all components together. The first cuts each buffer before it sorts, and splits a line at the
first bar; the second cuts after sorting and splits at a bar between two spaces.
-/

namespace PeerDeploy.Web.LogViews

open PeerDeploy.Base PeerDeploy.Web.LogStream

/-- The time of a line, its component and its message. -/
abbrev Entry := Nat × String × String

/-- A line of a buffer is split at a separator; one without a time is passed over.
`crates/agent/src/p2p/metrics.rs:304–308` and `crates/agent/src/web/handlers.rs:269–273`. -/
def entry (sep component line : String) : Option Entry := do
  let (ts, message) ← Text.splitOnce sep line
  let t ← Text.parseUnsigned 64 (Text.trim ts)
  return (t, component, Text.trim message)

/-- The entries by time, with a stable sort; `sort_by_key(|(t, _, _)| *t)`. -/
def sortByTime (entries : List Entry) : List Entry :=
  entries.insertionSort fun a b ↦ a.1 ≤ b.1

/-- The last `tail` items: `skip(len.saturating_sub(tail))`. -/
def lastItems {α : Type} (items : List α) (tail : Nat) : List α :=
  items.drop (items.length - tail)

/-! ### The metrics server -/

/-- The component and the message of the lines of all components;
`crates/agent/src/p2p/metrics.rs:300–316`. -/
def combinedLogs (logs : Logs) (tail : Nat) : List (String × String) :=
  let combined := logs.toList.flatMap fun (component, buf) ↦
    (lastItems buf tail).filterMap (entry "|" component)
  (lastItems (sortByTime combined) tail).map Prod.snd

/-- `crates/agent/src/p2p/metrics.rs:281–295`. -/
def logsQuery (path : String) : Option String × Nat :=
  match (Text.splitChar '?' path)[1]? with
  | none => (none, 100)
  | some q => (Text.splitChar '&' q).foldl (fun (component, tail) pair ↦
      match Text.splitChar '=' pair with
      | k :: v :: _ =>
        (if k = "component" ∧ v ≠ "" then some v else component,
          if k = "tail" then ((Text.parseUnsigned 64 v).map (min · 1000)).getD tail else tail)
      | _ => (component, tail)) (none, 100)

/-- The answer to `/logs`; `crates/agent/src/p2p/metrics.rs:279–338`. -/
def serveLogs (logs : Logs) (path : String) : String :=
  match logsQuery path with
  | (some "__all__", tail) =>
    String.join ((combinedLogs logs tail).map fun (component, message) ↦
      s!"[{component}] {message}\n")
  | (some name, tail) =>
    match logs[name]? with
    | some buf => String.join ((lastItems buf tail).map (· ++ "\n"))
    | none => "unknown component\n"
  | (none, _) => "components:\n" ++ String.join (logs.toList.map fun (name, _) ↦ name ++ "\n")

/-! ### The web interface -/

/-- The entries of all components; `crates/agent/src/web/handlers.rs:262–282`. -/
def allLogs (logs : Logs) (tail : Nat) : List Entry :=
  let combined := logs.toList.flatMap fun (component, buf) ↦
    buf.filterMap (entry " | " component)
  lastItems (sortByTime combined) tail

/-- `crates/agent/src/web/handlers.rs:253–324`. The clock is read for a message that nothing was
found. -/
def apiLogs (formatTimestamp : UInt64 → String) (now : UInt64) (logs : Logs)
    (component : Option String) (tail : Option Nat) : List LogMessage :=
  let tail := tail.getD 100
  let component := component.getD "__all__"
  let found :=
    if component = "__all__" then
      (allLogs logs tail).map fun (t, component, message) ↦
        { timestamp := formatTimestamp (UInt64.ofNat t), component, message }
    else match logs[component]? with
      | some buf => (lastItems buf tail).filterMap (logMessage formatTimestamp component)
      | none => []
  if found.isEmpty then
    [{ timestamp := formatTimestamp now
       component := "system"
       message := if component = "__all__" then "No logs available yet"
         else s!"No logs found for component '{component}'" }]
  else found

/-! ### What is in the buffers -/

/-- The logs after these lines. -/
def pushAll (lines : List (UInt64 × String × String)) (logs : Logs) : Logs :=
  lines.foldl (fun logs (now, name, line) ↦ pushLog logs now name line) logs

/-- Every buffer holds lines in the order of their times, none of them after `bound`. -/
def Stamped (bound : UInt64) (logs : Logs) : Prop :=
  ∀ component, ∃ lines : List (UInt64 × String),
    logs.buffer component = lines.map (fun (now, line) ↦ logLine now line) ∧
      lines.Pairwise (fun a b ↦ a.1 ≤ b.1) ∧ ∀ line ∈ lines, line.1 ≤ bound

/-- A line of a later time keeps the order. -/
theorem stamped_pushLog {bound now : UInt64} {logs : Logs} (h : Stamped bound logs)
    (hnow : bound ≤ now) (name line : String) : Stamped now (pushLog logs now name line) := by
  intro component
  rw [buffer_pushLog]
  split
  · obtain ⟨lines, hbuffer, hsorted, hbound⟩ := h name
    -- the first line may fall out
    have hpush (kept : List (UInt64 × String)) (hkept : kept.Sublist lines) :
        (kept ++ [(now, line)]).Pairwise (fun a b ↦ a.1 ≤ b.1) ∧
          ∀ entry ∈ kept ++ [(now, line)], entry.1 ≤ now := by
      have hbefore : ∀ entry ∈ kept, entry.1 ≤ now := fun entry hentry ↦
        UInt64.le_trans (hbound entry (hkept.subset hentry)) hnow
      constructor
      · rw [List.pairwise_append]
        refine ⟨hsorted.sublist hkept, List.pairwise_singleton _ _, ?_⟩
        intro entry hentry last hlast
        rw [List.mem_singleton.mp hlast]
        exact hbefore entry hentry
      · intro entry hentry
        rcases List.mem_append.mp hentry with hentry | hentry
        · exact hbefore entry hentry
        · rw [List.mem_singleton.mp hentry]
          exact UInt64.le_refl now
    rw [hbuffer]
    unfold pushBack
    split
    · refine ⟨lines.drop 1 ++ [(now, line)], ?_, hpush _ (List.drop_sublist 1 lines)⟩
      rw [List.map_append, List.map_drop]
      rfl
    · refine ⟨lines ++ [(now, line)], ?_, hpush _ (List.Sublist.refl lines)⟩
      rw [List.map_append]
      rfl
  · obtain ⟨lines, hbuffer, hsorted, hbound⟩ := h component
    exact ⟨lines, hbuffer, hsorted, fun entry hentry ↦ UInt64.le_trans (hbound entry hentry) hnow⟩

/-- The buffers are in order when the clock has not run back. -/
theorem exists_stamped_pushAll {lines : List (UInt64 × String × String)}
    (hclock : lines.Pairwise fun a b ↦ a.1 ≤ b.1) {bound : UInt64} {logs : Logs}
    (h : Stamped bound logs) (hbound : ∀ line ∈ lines, bound ≤ line.1) :
    ∃ last, Stamped last (pushAll lines logs) := by
  induction lines generalizing bound logs with
  | nil => exact ⟨bound, h⟩
  | cons line lines ih =>
    obtain ⟨hfirst, hrest⟩ := List.pairwise_cons.mp hclock
    exact ih hrest (stamped_pushLog h (hbound line List.mem_cons_self) line.2.1 line.2.2) hfirst

/-! ### The views -/

private theorem entry_logLine (component : String) (now : UInt64) (line : String) :
    entry "|" component (logLine now line) = some (now.toNat, component, Text.trim line) ∧
      entry " | " component (logLine now line) = some (now.toNat, component, Text.trim line) := by
  have hdigits : ∀ c ∈ (Nat.repr now.toNat).toList, c.isDigit = true := fun c hc ↦
    Text.isDigit_of_mem_repr hc
  have htrim : Text.trim (Nat.repr now.toNat) = Nat.repr now.toNat :=
    Text.trim_eq_self fun c hc ↦ Text.isWhitespace_of_isDigit (hdigits c hc)
  have hparse : Text.parseUnsigned 64 (Nat.repr now.toNat) = some now.toNat :=
    Text.parseUnsigned_repr now.toNat_lt
  have hspaces : Text.splitOnce " | " (logLine now line) = some (Nat.repr now.toNat, line) := by
    apply Text.splitOnce_append (c := ' ') (by decide)
    intro hin
    exact absurd (hdigits ' ' hin) (by decide)
  have hbar : Text.splitOnce "|" (logLine now line) =
      some (Nat.repr now.toNat ++ " ", " " ++ line) := by
    have hline : logLine now line = Nat.repr now.toNat ++ " " ++ "|" ++ (" " ++ line) := by
      apply String.toList_inj.mp
      simp [logLine]
    rw [hline]
    apply Text.splitOnce_append (c := '|') (by decide)
    rw [String.toList_append, List.mem_append, not_or]
    exact ⟨fun hin ↦ absurd (hdigits '|' hin) (by decide), by decide⟩
  constructor
  · simp only [entry, hbar, Option.bind_eq_bind, Option.bind_some, Text.trim_append_space, htrim,
      hparse, Text.trim_space_append, Option.pure_def]
  · simp only [entry, hspaces, Option.bind_eq_bind, Option.bind_some, htrim, hparse,
      Option.pure_def]

private theorem entries_of_stamped {bound : UInt64} {logs : Logs} (h : Stamped bound logs)
    (component : String) :
    ((logs.buffer component).filterMap (entry " | " component)).Pairwise (fun a b ↦ a.1 ≤ b.1) ∧
      ∀ tail, (lastItems (logs.buffer component) tail).filterMap (entry "|" component) =
        ((logs.buffer component).filterMap (entry " | " component)).rtake tail := by
  obtain ⟨lines, hbuffer, hsorted, -⟩ := h component
  have hread (sep : String) (hsep : ∀ now line, entry sep component (logLine now line) =
      some (now.toNat, component, Text.trim line)) (lines : List (UInt64 × String)) :
      (lines.map fun (now, line) ↦ logLine now line).filterMap (entry sep component) =
        lines.map fun (now, line) ↦ (now.toNat, component, Text.trim line) := by
    rw [List.filterMap_map, ← List.filterMap_eq_map]
    exact List.filterMap_congr fun line _ ↦ hsep line.1 line.2
  have hspaces := hread " | " fun now line ↦ (entry_logLine component now line).2
  rw [hbuffer, hspaces]
  constructor
  · exact List.pairwise_map.mpr hsorted
  · intro tail
    rw [lastItems, ← List.map_drop, hread "|" fun now line ↦ (entry_logLine component now line).1,
      List.rtake, List.length_map, List.length_map, List.map_drop]

private instance : Std.Total fun a b : Entry ↦ a.1 ≤ b.1 := ⟨fun _ _ ↦ Nat.le_total _ _⟩

private instance : IsTrans Entry fun a b ↦ a.1 ≤ b.1 := ⟨fun _ _ _ ↦ Nat.le_trans⟩

/-- The metrics server and the web interface show the same lines of all components, in the same
order, however many are asked for. -/
theorem combinedLogs_eq_allLogs {lines : List (UInt64 × String × String)}
    (hclock : lines.Pairwise fun a b ↦ a.1 ≤ b.1) (tail : Nat) :
    combinedLogs (pushAll lines ∅) tail = (allLogs (pushAll lines ∅) tail).map Prod.snd := by
  have hempty : Stamped 0 ∅ := fun component ↦ ⟨[], by simp [Logs.buffer], .nil, by simp⟩
  obtain ⟨last, hstamped⟩ := exists_stamped_pushAll hclock hempty fun line _ ↦ UInt64.zero_le
  generalize pushAll lines ∅ = logs at hstamped ⊢
  have hbuffer : ∀ item ∈ logs.toList, item.2 = logs.buffer item.1 := by
    intro item hitem
    rw [Logs.buffer, Std.ExtTreeMap.mem_toList_iff_getElem?_eq_some.mp hitem]
    rfl
  set parts := logs.toList.map fun item ↦ item.2.filterMap (entry " | " item.1) with hparts
  have hsorted : ∀ part ∈ parts, part.Pairwise fun a b ↦ a.1 ≤ b.1 := by
    intro part hpart
    obtain ⟨item, hitem, rfl⟩ := List.mem_map.mp hpart
    rw [hbuffer item hitem]
    exact (entries_of_stamped hstamped item.1).1
  have htrimmed : (logs.toList.map fun item ↦
      (lastItems item.2 tail).filterMap (entry "|" item.1)) = parts.map (·.rtake tail) := by
    rw [hparts, List.map_map]
    apply List.map_congr_left
    intro item hitem
    have hpart := (entries_of_stamped hstamped item.1).2 tail
    rw [← hbuffer item hitem] at hpart
    exact hpart
  refine congrArg (List.map Prod.snd) ?_
  change lastItems (sortByTime (logs.toList.map fun item ↦
    (lastItems item.2 tail).filterMap (entry "|" item.1)).flatten) tail =
      lastItems (sortByTime parts.flatten) tail
  rw [htrimmed]
  exact (Sorting.rtake_insertionSort_flatten tail hsorted).symm

/-- Two components that log in the same second are shown in the same order. -/
theorem combinedLogs_eq_allLogs_two :
    combinedLogs (pushAll [(5, "web", "up"), (5, "db", "a | b"), (7, "web", " ok ")] ∅) 2 =
      (allLogs (pushAll [(5, "web", "up"), (5, "db", "a | b"), (7, "web", " ok ")] ∅) 2).map
        Prod.snd :=
  combinedLogs_eq_allLogs (by decide) 2

end PeerDeploy.Web.LogViews
