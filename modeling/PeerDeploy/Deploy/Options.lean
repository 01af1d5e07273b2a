import PeerDeploy.Base.Readers
import PeerDeploy.Base.Text
import PeerDeploy.Common.Command

/-!
# Mount and port options

`realm push` (`crates/agent/src/cmd/push.rs:45–104`) and the web interface
(`crates/agent/src/web/handlers.rs:465–532`) read the same texts with parsers of their own.
`.cursor/rules/interface-parity.mdc` wants the interfaces to agree and unknown options to be
rejected early.
-/

namespace PeerDeploy.Deploy

open PeerDeploy.Common PeerDeploy.Base

/-! ### Mounts -/

/-- `part.splitn(2, '=')`, both halves trimmed; no value where there is no `=`. -/
def keyValue (part : String) : String × Option String :=
  match Text.splitOnce "=" part with
  | none => (Text.trim part, none)
  | some (key, value) => (Text.trim key, some (Text.trim value))

/-- The parts of a mount option. -/
def mountParts (entry : String) : List (String × Option String) :=
  (Text.splitChar ',' entry).map keyValue

/-- What the loop over the parts has found. -/
structure MountFields where
  host : Option String := none
  guest : Option String := none
  ro : Bool := false

/-- One part of a mount; `crates/agent/src/cmd/push.rs:53–63`. -/
def pushMountPart (fields : MountFields) : String × Option String → MountFields
  | (_, none) => fields
  | (key, some value) =>
    if key = "host" then { fields with host := some value }
    else if key = "guest" then { fields with guest := some value }
    else if key = "ro" then { fields with ro := Text.eqIgnoreAsciiCase value "true" }
    else fields

/-- One mount of `realm push`; `crates/agent/src/cmd/push.rs:50–70`. -/
def pushMount (entry : String) : Option MountSpec :=
  let fields := (mountParts entry).foldl pushMountPart {}
  match fields.host, fields.guest with
  | some host, some guest => some { host, guest, ro := fields.ro }
  | _, _ => none

/-- An empty list of options is no option. -/
def listed {α : Type} (list : List α) : Option (List α) := if list.isEmpty then none else some list

/-- `crates/agent/src/cmd/push.rs:46–75`. -/
def pushMounts (mountsCli : List String) : Option (List MountSpec) :=
  if mountsCli.isEmpty then none else listed (mountsCli.filterMap pushMount)

/-- The spellings of a set flag; `crates/agent/src/web/handlers.rs:482–485`. -/
def flagSpellings : List String := ["1", "true", "yes", "on"]

/-- One part of a mount; `crates/agent/src/web/handlers.rs:475–490`. -/
def mountPart (entry : String) (fields : MountFields) (part : String × Option String) :
    Except String MountFields :=
  let key := part.1
  let value := part.2.getD ""
  if key = "host" then .ok { fields with host := some value }
  else if key = "guest" then .ok { fields with guest := some value }
  else if key = "ro" then
    .ok { fields with ro := decide (Text.toAsciiLowercase value ∈ flagSpellings) }
  else if key = "" then .ok fields
  else .error s!"invalid mount key '{key}' in '{entry}'"

/-- One mount of the web interface; `crates/agent/src/web/handlers.rs:471–500`. -/
def parseMountEntry (entry : String) : Except String MountSpec := do
  let fields ← (mountParts entry).foldlM (mountPart entry) {}
  match fields.host, fields.guest with
  | some host, some guest => return { host, guest, ro := fields.ro }
  | _, _ => throw s!"mount entry '{entry}' must include host= and guest="

/-- `parse_mount_entries` (`crates/agent/src/web/handlers.rs:465–506`). -/
def parseMountEntries (entries : List String) : Except String (Option (List MountSpec)) :=
  if entries.isEmpty then return none
  else do
    let out ← entries.mapM parseMountEntry
    return listed out

/-- What the last part with the key gives. -/
def lastOf (key : String) (parts : List (String × Option String)) : Option (Option String) :=
  ((parts.filter (·.1 = key)).map Prod.snd).getLast?

/-- The last value that a part gives to the key. -/
def lastValue (key : String) (parts : List (String × Option String)) : Option String :=
  ((parts.filter (·.1 = key)).filterMap Prod.snd).getLast?

/-- The keys that the web interface reads. -/
def mountKeys : List String := ["host", "guest", "ro", ""]

private theorem lastOf_concat (key : String) (parts : List (String × Option String))
    (part : String × Option String) : lastOf key (parts ++ [part]) =
      if part.1 = key then some part.2 else lastOf key parts := by
  unfold lastOf
  split
  · next h => simp [h]
  · next h => simp [h]

private theorem lastValue_concat (key : String) (parts : List (String × Option String))
    (part : String × Option String) : lastValue key (parts ++ [part]) =
      if part.1 = key then part.2.or (lastValue key parts) else lastValue key parts := by
  unfold lastValue
  split
  · next h => cases hv : part.2 <;> simp [h, hv]
  · next h => simp [h]

private theorem foldl_pushMountPart (parts : List (String × Option String)) :
    parts.foldl pushMountPart {} =
      { host := lastValue "host" parts
        guest := lastValue "guest" parts
        ro := (lastValue "ro" parts).any (Text.eqIgnoreAsciiCase · "true") } := by
  induction parts using List.reverseRecOn with
  | nil => rfl
  | append_singleton parts part ih =>
    rw [List.foldl_append, ih, lastValue_concat, lastValue_concat, lastValue_concat]
    obtain ⟨key, _ | value⟩ := part
    · simp [pushMountPart]
    · simp only [List.foldl_cons, List.foldl_nil, pushMountPart]
      by_cases hhost : key = "host"
      · subst hhost
        simp
      · by_cases hguest : key = "guest"
        · subst hguest
          simp
        · by_cases hro : key = "ro"
          · subst hro
            simp
          · simp [hhost, hguest, hro]

private theorem mountPart_of_mem (entry : String) (fields : MountFields)
    {part : String × Option String} (h : part.1 ∈ mountKeys) : mountPart entry fields part =
      .ok { host := if part.1 = "host" then some (part.2.getD "") else fields.host
            guest := if part.1 = "guest" then some (part.2.getD "") else fields.guest
            ro := if part.1 = "ro" then
                decide (Text.toAsciiLowercase (part.2.getD "") ∈ flagSpellings)
              else fields.ro } := by
  obtain ⟨key, value⟩ := part
  simp only [mountKeys, List.mem_cons, List.not_mem_nil, or_false] at h
  rcases h with rfl | rfl | rfl | rfl <;> simp [mountPart]

private theorem mountPart_of_notMem (entry : String) (fields : MountFields)
    {part : String × Option String} (h : part.1 ∉ mountKeys) :
    ∃ e, mountPart entry fields part = .error e := by
  simp only [mountKeys, List.mem_cons, List.not_mem_nil, or_false, not_or] at h
  obtain ⟨hhost, hguest, hro, hblank⟩ := h
  simp [mountPart, hhost, hguest, hro, hblank]

-- What the last part of each key says to the web interface.
private def lastFields (parts : List (String × Option String)) : MountFields where
  host := (lastOf "host" parts).map (·.getD "")
  guest := (lastOf "guest" parts).map (·.getD "")
  ro := (lastOf "ro" parts).any fun value ↦
    decide (Text.toAsciiLowercase (value.getD "") ∈ flagSpellings)

private theorem mountPart_lastFields (entry : String) (parts : List (String × Option String))
    {part : String × Option String} (h : part.1 ∈ mountKeys) :
    mountPart entry (lastFields parts) part = .ok (lastFields (parts ++ [part])) := by
  rw [mountPart_of_mem entry _ h]
  unfold lastFields
  rw [lastOf_concat, lastOf_concat, lastOf_concat]
  congr 2
  · split <;> rfl
  · split <;> rfl
  · split <;> rfl

private theorem foldlM_mountPart (entry : String) (parts : List (String × Option String))
    (fields : MountFields) : parts.foldlM (mountPart entry) {} = .ok fields ↔
      (∀ part ∈ parts, part.1 ∈ mountKeys) ∧ fields = lastFields parts := by
  induction parts using List.reverseRecOn generalizing fields with
  | nil =>
    rw [List.foldlM_nil]
    constructor
    · intro h
      cases h
      exact ⟨by simp, rfl⟩
    · rintro ⟨-, rfl⟩
      rfl
  | append_singleton parts part ih =>
    rw [List.foldlM_append]
    simp only [List.forall_mem_append, List.forall_mem_singleton]
    cases hfirst : parts.foldlM (mountPart entry) {} with
    | error e =>
      apply iff_of_false
      · intro h
        cases h
      · rintro ⟨⟨hkeys, -⟩, -⟩
        rw [(ih _).mpr ⟨hkeys, rfl⟩] at hfirst
        cases hfirst
    | ok found =>
      obtain ⟨hkeys, rfl⟩ := (ih found).mp hfirst
      by_cases hkey : part.1 ∈ mountKeys
      · have hlast : [part].foldlM (mountPart entry) (lastFields parts) =
            .ok (lastFields (parts ++ [part])) := by
          rw [List.foldlM_cons, mountPart_lastFields entry parts hkey]
          rfl
        constructor
        · intro h
          rw [← Except.ok.inj (hlast.symm.trans h)]
          exact ⟨⟨hkeys, hkey⟩, rfl⟩
        · rintro ⟨-, rfl⟩
          exact hlast
      · obtain ⟨e, hrefused⟩ := mountPart_of_notMem entry (lastFields parts) hkey
        have hlast : [part].foldlM (mountPart entry) (lastFields parts) = .error e := by
          rw [List.foldlM_cons, hrefused]
          rfl
        apply iff_of_false
        · intro h
          cases hlast.symm.trans h
        · rintro ⟨⟨-, hin⟩, -⟩
          exact hkey hin

/-- What the web interface refuses: a key that it does not know, no host or no guest. -/
def MountRefused (entry : String) : Prop :=
  (∃ part ∈ mountParts entry, part.1 ∉ mountKeys) ∨
    (∀ part ∈ mountParts entry, part.1 ≠ "host") ∨ ∀ part ∈ mountParts entry, part.1 ≠ "guest"

/-- What `realm push` does not drop: a host and a guest are given with a value. -/
def MountKept (entry : String) : Prop :=
  (∃ host, ("host", some host) ∈ mountParts entry) ∧
    ∃ guest, ("guest", some guest) ∈ mountParts entry

/-- The last part with the key has an `=`, or the last one that has it gives the empty text. -/
def ValueCounts (key : String) (entry : String) : Prop :=
  lastOf key (mountParts entry) = some none → lastValue key (mountParts entry) = some ""

/-- The last flag is spelled `true` or is not set; without an `=` it does not clear one. -/
def FlagCounts (entry : String) : Prop :=
  (∀ value, lastOf "ro" (mountParts entry) = some (some value) →
    Text.toAsciiLowercase value ∉ ["1", "yes", "on"]) ∧
  (lastOf "ro" (mountParts entry) = some none →
    ∀ value, lastValue "ro" (mountParts entry) = some value → Text.toAsciiLowercase value ≠ "true")

private theorem lastOf_eq_none_iff {key : String} {parts : List (String × Option String)} :
    lastOf key parts = none ↔ ∀ part ∈ parts, part.1 ≠ key := by
  simp [lastOf]

private theorem lastValue_eq_none_iff {key : String} {parts : List (String × Option String)} :
    lastValue key parts = none ↔ ∀ value, (key, some value) ∉ parts := by
  rw [lastValue, List.getLast?_eq_none_iff, List.filterMap_eq_nil_iff]
  constructor
  · intro h value hin
    cases h (key, some value) (List.mem_filter.mpr ⟨hin, by simp⟩)
  · rintro h ⟨key', _ | value⟩ hin
    · rfl
    · obtain ⟨hpart, hkey⟩ := List.mem_filter.mp hin
      obtain rfl : key' = key := by simpa using hkey
      exact absurd hpart (h value)

private theorem lastValue_of_lastOf {key : String} {parts : List (String × Option String)}
    {value : String} (h : lastOf key parts = some (some value)) :
    lastValue key parts = some value := by
  induction parts using List.reverseRecOn with
  | nil => cases h
  | append_singleton parts part ih =>
    rw [lastOf_concat] at h
    rw [lastValue_concat]
    by_cases hkey : part.1 = key
    · rw [if_pos hkey, Option.some_inj] at h
      rw [if_pos hkey, h, Option.some_or]
    · rw [if_neg hkey] at h
      rw [if_neg hkey, ih h]

private theorem lastValue_of_lastOf_none {key : String} {parts : List (String × Option String)}
    (h : lastOf key parts = none) : lastValue key parts = none := by
  rw [lastOf_eq_none_iff] at h
  rw [lastValue_eq_none_iff]
  intro value hin
  exact h _ hin rfl

private theorem valueCounts_iff (key entry : String) : ValueCounts key entry ↔
    lastValue key (mountParts entry) = (lastOf key (mountParts entry)).map (·.getD "") := by
  unfold ValueCounts
  cases hlast : lastOf key (mountParts entry) with
  | none => simp [lastValue_of_lastOf_none hlast]
  | some given =>
    cases given with
    | none => simp
    | some value => simp [lastValue_of_lastOf hlast]

private theorem eqIgnoreAsciiCase_true (value : String) :
    Text.eqIgnoreAsciiCase value "true" = decide (Text.toAsciiLowercase value = "true") := by
  have hlower : Text.toAsciiLowercase "true" = "true" := by decide
  rw [Text.eqIgnoreAsciiCase, hlower]
  rfl

private theorem flagCounts_iff (entry : String) : FlagCounts entry ↔
    (lastValue "ro" (mountParts entry)).any (Text.eqIgnoreAsciiCase · "true") =
      (lastFields (mountParts entry)).ro := by
  have hempty : Text.toAsciiLowercase "" ∉ flagSpellings := by decide
  unfold FlagCounts lastFields
  cases hlast : lastOf "ro" (mountParts entry) with
  | none => simp [lastValue_of_lastOf_none hlast]
  | some given =>
    cases given with
    | none =>
      cases hvalue : lastValue "ro" (mountParts entry) <;> simp [eqIgnoreAsciiCase_true, hempty]
    | some value =>
      rw [lastValue_of_lastOf hlast]
      simp only [Option.any_some, Option.getD_some, eqIgnoreAsciiCase_true, flagSpellings,
        Option.some_inj, forall_eq', reduceCtorEq, false_imp_iff, and_true]
      grind

private theorem pushMount_eq_some_iff {entry : String} {mount : MountSpec} :
    pushMount entry = some mount ↔
      lastValue "host" (mountParts entry) = some mount.host ∧
      lastValue "guest" (mountParts entry) = some mount.guest ∧
      (lastValue "ro" (mountParts entry)).any (Text.eqIgnoreAsciiCase · "true") = mount.ro := by
  obtain ⟨host, guest, ro⟩ := mount
  simp only [pushMount, foldl_pushMountPart]
  cases lastValue "host" (mountParts entry) <;> cases lastValue "guest" (mountParts entry) <;>
    simp

private theorem pushMount_eq_none_iff {entry : String} :
    pushMount entry = none ↔ ¬ MountKept entry := by
  have hkept : MountKept entry ↔ lastValue "host" (mountParts entry) ≠ none ∧
      lastValue "guest" (mountParts entry) ≠ none := by
    simp [MountKept, lastValue_eq_none_iff]
  rw [hkept]
  simp only [pushMount, foldl_pushMountPart]
  cases lastValue "host" (mountParts entry) <;> cases lastValue "guest" (mountParts entry) <;>
    simp

private theorem parseMountEntry_ok_iff {entry : String} {mount : MountSpec} :
    parseMountEntry entry = .ok mount ↔ (∀ part ∈ mountParts entry, part.1 ∈ mountKeys) ∧
      (lastOf "host" (mountParts entry)).map (·.getD "") = some mount.host ∧
      (lastOf "guest" (mountParts entry)).map (·.getD "") = some mount.guest ∧
      (lastFields (mountParts entry)).ro = mount.ro := by
  unfold parseMountEntry
  cases hfold : (mountParts entry).foldlM (mountPart entry) {} with
  | error e =>
    apply iff_of_false
    · intro h
      cases h
    · rintro ⟨hkeys, -⟩
      rw [(foldlM_mountPart entry _ _).mpr ⟨hkeys, rfl⟩] at hfold
      cases hfold
  | ok fields =>
    obtain ⟨hkeys, rfl⟩ := (foldlM_mountPart entry _ fields).mp hfold
    obtain ⟨host, guest, ro⟩ := mount
    rw [and_iff_right hkeys]
    simp only [bind, Except.bind, pure, Except.pure, lastFields]
    cases lastOf "host" (mountParts entry) <;> cases lastOf "guest" (mountParts entry) <;>
      simp [throw, throwThe, MonadExceptOf.throw]

private theorem parseMountEntry_refused_iff {entry : String} :
    (∃ e, parseMountEntry entry = .error e) ↔ MountRefused entry := by
  have hok : (∃ mount, parseMountEntry entry = .ok mount) ↔ ¬ MountRefused entry := by
    unfold MountRefused
    rw [← lastOf_eq_none_iff, ← lastOf_eq_none_iff]
    push Not
    constructor
    · rintro ⟨mount, h⟩
      obtain ⟨hkeys, hhost, hguest, -⟩ := parseMountEntry_ok_iff.mp h
      refine ⟨hkeys, ?_, ?_⟩
      · intro hnone
        rw [hnone] at hhost
        cases hhost
      · intro hnone
        rw [hnone] at hguest
        cases hguest
    · rintro ⟨hkeys, hhost, hguest⟩
      obtain ⟨host, hhost⟩ := Option.ne_none_iff_exists'.mp hhost
      obtain ⟨guest, hguest⟩ := Option.ne_none_iff_exists'.mp hguest
      obtain ⟨ro, hro⟩ : ∃ ro, (lastFields (mountParts entry)).ro = ro := ⟨_, rfl⟩
      refine ⟨⟨host.getD "", guest.getD "", ro⟩, ?_⟩
      rw [parseMountEntry_ok_iff, hhost, hguest, hro]
      exact ⟨hkeys, rfl, rfl, rfl⟩
  rw [← not_iff_not, ← hok]
  cases parseMountEntry entry <;> simp

-- On an entry that the web interface accepts both build the same mount exactly if each value
-- counts.
private theorem mount_same_iff {entry : String} (h : ¬ MountRefused entry) :
    (∀ mount, parseMountEntry entry = .ok mount → pushMount entry = some mount) ↔
      ValueCounts "host" entry ∧ ValueCounts "guest" entry ∧ FlagCounts entry := by
  obtain ⟨mount, hmount⟩ : ∃ mount, parseMountEntry entry = .ok mount := by
    cases hparse : parseMountEntry entry with
    | error e => exact absurd (parseMountEntry_refused_iff.mp ⟨e, hparse⟩) h
    | ok mount => exact ⟨mount, rfl⟩
  obtain ⟨-, hhost, hguest, hro⟩ := parseMountEntry_ok_iff.mp hmount
  have honly : (∀ mount, parseMountEntry entry = .ok mount → pushMount entry = some mount) ↔
      pushMount entry = some mount := by
    rw [hmount]
    simp
  rw [honly, pushMount_eq_some_iff, valueCounts_iff, valueCounts_iff, flagCounts_iff, hhost,
    hguest, hro]

/-! ### Ports -/

/-- `eq_ignore_ascii_case("udp")`, else `tcp`. -/
def protocolOf (proto : String) : Protocol :=
  if Text.eqIgnoreAsciiCase proto "udp" then .udp else .tcp

/-- One port of `realm push`; `crates/agent/src/cmd/push.rs:82–97`. -/
def pushPort (entry : String) : Option ServicePort :=
  match Text.splitChar '/' entry with
  | number :: proto :: _ =>
    (Text.parseUnsigned 16 number).map fun port ↦
      { name := none, port, protocol := protocolOf proto }
  | _ => none

/-- `crates/agent/src/cmd/push.rs:78–104`. -/
def pushPorts (portsCli : List String) : Option (List ServicePort) :=
  if portsCli.isEmpty then none else listed (portsCli.filterMap pushPort)

/-- One port of the web interface, nothing for a blank entry;
`crates/agent/src/web/handlers.rs:514–537`. -/
def parsePortEntry (entry : String) : Except String (Option ServicePort) :=
  let trimmed := Text.trim entry
  if trimmed.isEmpty then .ok none
  else
    let parts := (Text.splitChar '/' trimmed).map Text.trim
    let portStr := parts[0]?.getD ""
    if portStr.isEmpty then .error s!"invalid port '{entry}'"
    else
      let protoStr := parts[1]?.getD "tcp"
      match Text.parseUnsigned 16 portStr with
      | none => .error s!"invalid port number '{portStr}'"
      | some port => .ok (some { name := none, port, protocol := protocolOf protoStr })

/-- `parse_port_entries` (`crates/agent/src/web/handlers.rs:508–543`). -/
def parsePortEntries (entries : List String) : Except String (Option (List ServicePort)) :=
  if entries.isEmpty then return none
  else do
    let ports ← entries.mapM parsePortEntry
    return listed (ports.filterMap id)

/-- The entry is blank, or a number stands before the first `/` and white space does not hide
the protocol behind it. -/
def PortPlain (entry : String) : Prop :=
  Text.trim entry = "" ∨ ∃ number proto rest, Text.splitChar '/' entry = number :: proto :: rest ∧
    (Text.parseUnsigned 16 number).isSome ∧
    (Text.eqIgnoreAsciiCase (Text.trim proto) "udp" = true → Text.trim proto = proto)

private theorem eqIgnoreAsciiCase_udp (proto : String) :
    Text.eqIgnoreAsciiCase proto "udp" = true ↔ Text.toAsciiLowercase proto = "udp" := by
  have hlower : Text.toAsciiLowercase "udp" = "udp" := by decide
  rw [Text.eqIgnoreAsciiCase, hlower, beq_iff_eq]

private theorem isWhitespace_toLower {c : Char} (h : Text.isWhitespace c = true) :
    c.toLower = c := by
  refine (dif_neg ?_ : Char.toLower c = _)
  rintro ⟨hlo, hhi⟩
  have hlo : 65 ≤ c.toNat := UInt32.le_iff_toNat_le.mp hlo
  have hhi : c.toNat ≤ 90 := UInt32.le_iff_toNat_le.mp hhi
  simp only [Text.isWhitespace, Bool.or_eq_true, Bool.and_eq_true, decide_eq_true_eq,
    beq_iff_eq] at h
  omega

private theorem trim_of_udp {proto : String} (h : Text.eqIgnoreAsciiCase proto "udp" = true) :
    Text.trim proto = proto := by
  rw [eqIgnoreAsciiCase_udp] at h
  apply Text.trim_eq_self
  intro c hc
  have hchars : "udp".toList = ['u', 'd', 'p'] := rfl
  have hin : c.toLower ∈ ['u', 'd', 'p'] := by
    rw [← hchars, ← h, Text.toAsciiLowercase, String.toList_ofList]
    exact List.mem_map_of_mem hc
  by_contra hspace
  rw [isWhitespace_toLower (by simpa using hspace)] at hin
  simp only [List.mem_cons, List.not_mem_nil, or_false] at hin
  rcases hin with rfl | rfl | rfl <;> exact hspace (by decide)

private theorem protocolOf_trim_iff (proto : String) :
    protocolOf proto = protocolOf (Text.trim proto) ↔
      (Text.eqIgnoreAsciiCase (Text.trim proto) "udp" = true → Text.trim proto = proto) := by
  unfold protocolOf
  by_cases hudp : Text.eqIgnoreAsciiCase proto "udp" = true
  · rw [trim_of_udp hudp]
    simp
  · by_cases htrim : Text.eqIgnoreAsciiCase (Text.trim proto) "udp" = true
    · have hne : Text.trim proto ≠ proto := by
        intro heq
        rw [heq] at htrim
        exact hudp htrim
      simp [hudp, htrim, hne]
    · simp [hudp, htrim]

private theorem portParts_trim (entry : String) : (Text.splitChar '/' (Text.trim entry)).map
    Text.trim = (Text.splitChar '/' entry).map Text.trim :=
  Text.map_trim_splitChar_trim (by decide) entry

private theorem splitChar_of_blank {entry : String} (h : Text.trim entry = "") :
    ∃ number, Text.splitChar '/' entry = [number] := by
  have hparts := portParts_trim entry
  have hblank : (Text.splitChar '/' "").map Text.trim = [""] := by decide
  rw [h, hblank] at hparts
  obtain ⟨number, rest, hsplit, -, hrest⟩ := List.map_eq_cons_iff.mp hparts.symm
  rw [List.map_eq_nil_iff] at hrest
  rw [hsplit, hrest]
  exact ⟨number, rfl⟩

private theorem pushPort_of_blank {entry : String} (h : Text.trim entry = "") :
    pushPort entry = none := by
  obtain ⟨number, hsplit⟩ := splitChar_of_blank h
  rw [pushPort, hsplit]

private theorem parsePortEntry_of_blank {entry : String} (h : Text.trim entry = "") :
    parsePortEntry entry = .ok none := by
  rw [parsePortEntry, h]
  rfl

private theorem parsePortEntry_ok_some_iff {entry number : String} {rest : List String}
    (h : Text.trim entry ≠ "") (hsplit : Text.splitChar '/' entry = number :: rest)
    {port : ServicePort} : parsePortEntry entry = .ok (some port) ↔
      ∃ n, Text.parseUnsigned 16 (Text.trim number) = some n ∧
        port = ⟨none, n, protocolOf (((rest.map Text.trim)[0]?).getD "tcp")⟩ := by
  have hempty : Text.parseUnsigned 16 "" = none := by decide
  simp only [parsePortEntry, portParts_trim, hsplit, List.map_cons, List.getElem?_cons_zero,
    Option.getD_some, List.getElem?_cons_succ, String.isEmpty_iff, if_neg h]
  by_cases hnumber : Text.trim number = ""
  · simp [hnumber, hempty]
  · rw [if_neg hnumber]
    cases Text.parseUnsigned 16 (Text.trim number) with
    | none => simp
    | some n => simp [eq_comm]

private theorem parsePortEntry_ne_none {entry : String} (h : Text.trim entry ≠ "") :
    parsePortEntry entry ≠ .ok none := by
  simp only [parsePortEntry, String.isEmpty_iff, if_neg h]
  split
  · simp
  · split <;> simp

private theorem pushPort_eq_none {entry : String}
    (h : ∀ port, parsePortEntry entry ≠ .ok (some port)) : pushPort entry = none := by
  by_cases hblank : Text.trim entry = ""
  · exact pushPort_of_blank hblank
  · unfold pushPort
    split
    · next number proto rest hsplit =>
      cases hn : Text.parseUnsigned 16 number with
      | none => rfl
      | some n =>
        have hread := (parsePortEntry_ok_some_iff hblank hsplit).mpr
          ⟨n, by rw [Text.trim_of_parseUnsigned hn, hn], rfl⟩
        exact absurd hread (h _)
    · rfl

private theorem portPlain_iff (entry : String) :
    parsePortEntry entry = .ok (pushPort entry) ↔ PortPlain entry := by
  unfold PortPlain
  by_cases hblank : Text.trim entry = ""
  · rw [parsePortEntry_of_blank hblank, pushPort_of_blank hblank]
    simp [hblank]
  · rw [or_iff_right hblank]
    constructor
    · intro hread
      cases hpush : pushPort entry with
      | none =>
        rw [hpush] at hread
        exact absurd hread (parsePortEntry_ne_none hblank)
      | some port =>
        rw [hpush] at hread
        unfold pushPort at hpush
        split at hpush
        · next number proto rest hsplit =>
          obtain ⟨n, hn, rfl⟩ := Option.map_eq_some_iff.mp hpush
          obtain ⟨n', -, hport⟩ := (parsePortEntry_ok_some_iff hblank hsplit).mp hread
          have hproto : protocolOf proto = protocolOf (Text.trim proto) := by
            simpa using congrArg ServicePort.protocol hport
          exact ⟨number, proto, rest, hsplit, by rw [hn]; rfl, (protocolOf_trim_iff proto).mp hproto⟩
        · cases hpush
    · rintro ⟨number, proto, rest, hsplit, hnumber, hproto⟩
      obtain ⟨n, hn⟩ := Option.isSome_iff_exists.mp hnumber
      have hpush : pushPort entry = some ⟨none, n, protocolOf proto⟩ := by
        simp [pushPort, hsplit, hn]
      rw [hpush, parsePortEntry_ok_some_iff hblank hsplit]
      refine ⟨n, ?_, ?_⟩
      · rw [Text.trim_of_parseUnsigned hn, hn]
      · simp [(protocolOf_trim_iff proto).mpr hproto]

/-! ### The two interfaces agree -/

/-- What the interfaces owe each other on a list of mounts: a list that the web interface accepts
is the one that `realm push` builds, and none that it refuses is left out in silence. -/
def MountsParity (mounts : List String) : Prop :=
  (∀ out, parseMountEntries mounts = .ok out → pushMounts mounts = out) ∧
    ∀ entry ∈ mounts, (∃ e, parseMountEntry entry = .error e) → pushMount entry ≠ none

/-- The same for a list of ports. -/
def PortsParity (ports : List String) : Prop :=
  (∀ out, parsePortEntries ports = .ok out → pushPorts ports = out) ∧
    ∀ entry ∈ ports, (∃ e, parsePortEntry entry = .error e) → pushPort entry ≠ none

/-- The condition for mounts. -/
def MountsPlain (mounts : List String) : Prop :=
  (∀ entry ∈ mounts, MountRefused entry → MountKept entry) ∧
    ((∃ entry ∈ mounts, MountRefused entry) ∨
      ∀ entry ∈ mounts, ValueCounts "host" entry ∧ ValueCounts "guest" entry ∧ FlagCounts entry)

private theorem listed_inj_iff {α : Type} {list list' : List α} :
    listed list = listed list' ↔ list = list' := by
  cases list <;> cases list' <;> simp [listed]

private theorem parseMountEntries_eq (entries : List String) :
    parseMountEntries entries = (entries.mapM parseMountEntry).map listed := by
  unfold parseMountEntries
  cases entries with
  | nil => rfl
  | cons entry rest =>
    rw [List.isEmpty_cons, if_neg Bool.false_ne_true]
    cases (entry :: rest).mapM parseMountEntry <;> rfl

private theorem pushMounts_eq (entries : List String) :
    pushMounts entries = listed (entries.filterMap pushMount) := by
  cases entries <;> rfl

private theorem parsePortEntries_eq (entries : List String) : parsePortEntries entries =
    (entries.mapM parsePortEntry).map fun ports ↦ listed (ports.filterMap id) := by
  unfold parsePortEntries
  cases entries with
  | nil => rfl
  | cons entry rest =>
    rw [List.isEmpty_cons, if_neg Bool.false_ne_true]
    cases (entry :: rest).mapM parsePortEntry <;> rfl

private theorem pushPorts_eq (entries : List String) :
    pushPorts entries = listed (entries.filterMap pushPort) := by
  cases entries <;> rfl

private theorem forall_map_ok {ε γ δ : Type} {read : Except ε γ} {f : γ → δ} {P : δ → Prop} :
    (∀ out, read.map f = .ok out → P out) ↔ ∀ c, read = .ok c → P (f c) := by
  cases read <;> simp [Except.map]

private theorem mountsParity_iff (mounts : List String) :
    MountsParity mounts ↔ MountsPlain mounts := by
  have hlists : (∀ out, parseMountEntries mounts = .ok out → pushMounts mounts = out) ↔
      (∃ entry ∈ mounts, MountRefused entry) ∨
        ∀ entry ∈ mounts, ValueCounts "host" entry ∧ ValueCounts "guest" entry ∧
          FlagCounts entry := by
    have hagree : (∀ out, mounts.mapM parseMountEntry = .ok out →
        mounts.filterMap pushMount = out.filterMap some) ↔
          (∃ entry ∈ mounts, ∃ e, parseMountEntry entry = .error e) ∨
            ∀ entry ∈ mounts, ∀ c, parseMountEntry entry = .ok c → pushMount entry = some c := by
      apply Readers.agree_iff
      intro entry c _ hnone
      cases hnone
    have hsame : (∀ out, parseMountEntries mounts = .ok out → pushMounts mounts = out) ↔
        ∀ out, mounts.mapM parseMountEntry = .ok out →
          mounts.filterMap pushMount = out.filterMap some := by
      rw [parseMountEntries_eq, forall_map_ok, pushMounts_eq]
      simp only [List.filterMap_some, listed_inj_iff]
    rw [hsame, hagree]
    simp only [parseMountEntry_refused_iff]
    by_cases hrefused : ∃ entry ∈ mounts, MountRefused entry
    · simp [hrefused]
    · rw [or_iff_right hrefused, or_iff_right hrefused]
      push Not at hrefused
      constructor
      · intro h entry hin
        exact (mount_same_iff (hrefused entry hin)).mp (h entry hin)
      · intro h entry hin
        exact (mount_same_iff (hrefused entry hin)).mpr (h entry hin)
  have hsilent (entry : String) : ((∃ e, parseMountEntry entry = .error e) → pushMount entry ≠ none)
      ↔ (MountRefused entry → MountKept entry) := by
    rw [parseMountEntry_refused_iff, Ne, pushMount_eq_none_iff, not_not]
  unfold MountsParity MountsPlain
  rw [hlists, and_comm]
  simp only [hsilent]

private theorem portsParity_iff (ports : List String) :
    PortsParity ports ↔ ∀ entry ∈ ports, PortPlain entry := by
  have hkept (entry : String) (c : Option ServicePort) (hread : parsePortEntry entry = .ok c)
      (hc : id c = none) : pushPort entry = none := by
    apply pushPort_eq_none
    intro port hport
    rw [hread, show c = none from hc] at hport
    cases hport
  have hsame : (∀ out, parsePortEntries ports = .ok out → pushPorts ports = out) ↔
      (∃ entry ∈ ports, ∃ e, parsePortEntry entry = .error e) ∨
        ∀ entry ∈ ports, ∀ c, parsePortEntry entry = .ok c → pushPort entry = c := by
    rw [parsePortEntries_eq, forall_map_ok, pushPorts_eq]
    simp only [listed_inj_iff]
    exact Readers.agree_iff hkept ports
  -- `realm push` drops whatever the web interface refuses
  have hdropped (entry : String) (e : String) (hread : parsePortEntry entry = .error e) :
      pushPort entry = none := by
    apply pushPort_eq_none
    intro port hport
    rw [hread] at hport
    cases hport
  unfold PortsParity
  rw [hsame]
  constructor
  · rintro ⟨hlists, hsilent⟩ entry hin
    rw [← portPlain_iff]
    cases hread : parsePortEntry entry with
    | error e => exact absurd (hdropped entry e hread) (hsilent entry hin ⟨e, hread⟩)
    | ok c =>
      rcases hlists with ⟨refused, hin', e, hrefused⟩ | hlists
      · exact absurd (hdropped refused e hrefused) (hsilent refused hin' ⟨e, hrefused⟩)
      · rw [hlists entry hin c hread]
  · intro hplain
    constructor
    · right
      intro entry hin c hread
      rw [(portPlain_iff entry).mpr (hplain entry hin)] at hread
      exact Except.ok.inj hread
    · rintro entry hin ⟨e, hread⟩
      rw [(portPlain_iff entry).mpr (hplain entry hin)] at hread
      cases hread

/-- Both interfaces parse the options alike exactly if they are plain. -/
theorem options_parity_iff (mounts ports : List String) :
    (MountsParity mounts ∧ PortsParity ports) ↔
      MountsPlain mounts ∧ ∀ entry ∈ ports, PortPlain entry := by
  rw [mountsParity_iff, portsParity_iff]

/-- A directory that the web interface mounts read-only is writable for `realm push`. -/
theorem read_only_spelling_lost :
    ¬ ∀ mounts ports : List String, MountsParity mounts ∧ PortsParity ports := by
  intro h
  have hmount := (h ["host=/srv,guest=/data,ro=yes"] []).1.1 (some [⟨"/srv", "/data", true⟩])
    (by rfl)
  revert hmount
  decide

end PeerDeploy.Deploy
