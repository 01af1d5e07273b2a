import PeerDeploy.Base.Transition
import PeerDeploy.Common.Decoding
import PeerDeploy.Common.JsonFile
import Mathlib.Logic.Function.Basic

/-!
# Known peers

The addresses that agents know of one another: the bootstrap list, which `configure` and `enroll`
write (`crates/agent/src/cmd/util.rs:42–48`), the list of the addresses that an agent has met
(`crates/agent/src/p2p/state.rs:177–214`), and the announcements of both
(`crates/agent/src/p2p/mod.rs:742–757,1364–1381`). A message can reach every other agent at any
later time, more than once or never.
-/

namespace PeerDeploy.Cluster.Peers

open PeerDeploy.Common PeerDeploy.Base

/-! ### The files -/

/-- The files of an agent that list addresses. -/
structure PeerFiles where
  /-- `bootstrap.json`. -/
  bootstrap : Option Bytes := none
  /-- `peers.json`. -/
  peers : Option Bytes := none

/-- The list in a file, if the file can be read; `crates/agent/src/p2p/state.rs:178–183,192–197`. -/
def readAddrs (readable : Bool) (file : Option Bytes) : List String :=
  if readable then ((file.bind deserializeMessage).bind (Json.asList Json.asText)).getD [] else []

/-- `crates/agent/src/p2p/state.rs:177–184`. -/
def loadBootstrapAddrs (readable : Bool) (files : PeerFiles) : List String :=
  readAddrs readable files.bootstrap

/-- `crates/agent/src/p2p/state.rs:191–198`. -/
def loadKnownPeers (readable : Bool) (files : PeerFiles) : List String :=
  readAddrs readable files.peers

/-- `crates/agent/src/p2p/state.rs:200–205`. -/
def saveKnownPeers (peers : List String) (write : FileWrite) (files : PeerFiles) : PeerFiles :=
  { files with peers := write.leave (serializeMessage (Json.list .str peers)) files.peers }

/-- `crates/agent/src/p2p/state.rs:207–213`. -/
def addKnownPeer (addr : String) (readable : Bool) (write : FileWrite) (files : PeerFiles) :
    PeerFiles :=
  if addr ∈ loadKnownPeers readable files then files
  else saveKnownPeers (loadKnownPeers readable files ++ [addr]) write files

/-- `crates/agent/src/cmd/util.rs:42–48`. -/
def writeBootstrap (addrs : List String) (write : FileWrite) (files : PeerFiles) : PeerFiles :=
  { files with bootstrap := write.leave (prettyFile (Json.list .str addrs)) files.bootstrap }

/-- The addresses that are announced; `crates/agent/src/p2p/mod.rs:745–751`. -/
def announcedPeers (bootstrap known : List String) : List String :=
  known.foldl (fun peers peer ↦ if peer ∈ peers then peers else peers ++ [peer]) bootstrap

private theorem mem_readAddrs {readable : Bool} {file : Option Bytes} {addr : String}
    (h : addr ∈ readAddrs readable file) : addr ∈ readAddrs true file := by
  cases readable with
  | true => exact h
  | false => cases h

private theorem mem_leave {bytes : Bytes} {addrs : List String}
    (hread : ∀ written, deserializeMessage (bytes.take written) =
      if bytes.length ≤ written then some (Json.list .str addrs) else none)
    {file : Option Bytes} {write : FileWrite} {addr : String}
    (h : addr ∈ readAddrs true (write.leave bytes file)) :
    addr ∈ addrs ∨ addr ∈ readAddrs true file := by
  unfold readAddrs at h ⊢
  rcases read_leave hread file write with hleave | hleave | hleave
  · rw [hleave, if_pos rfl, Option.bind_some, Json.asList_texts] at h
    exact .inl h
  · rw [hleave] at h
    cases h
  · rw [hleave] at h
    exact .inr h

private theorem mem_addKnownPeer {met addr : String} {readable : Bool} {write : FileWrite}
    {files : PeerFiles} (h : addr ∈ loadKnownPeers true (addKnownPeer met readable write files)) :
    addr = met ∨ addr ∈ loadKnownPeers true files := by
  unfold addKnownPeer at h
  split at h
  · exact .inr h
  · rcases mem_leave (deserializeMessage_serializeMessage_take _) h with hnew | hold
    · rcases List.mem_append.mp hnew with hknown | hmet
      · exact .inr (mem_readAddrs hknown)
      · exact .inl (List.mem_singleton.mp hmet)
    · exact .inr hold

private theorem loadKnownPeers_saveKnownPeers (peers : List String) (files : PeerFiles) :
    loadKnownPeers true (saveKnownPeers peers .done files) = peers := by
  have hread := read_leave_done (deserializeMessage_serializeMessage_take (peers.map .str))
    files.peers
  rw [loadKnownPeers, readAddrs, if_pos rfl, saveKnownPeers, Json.list, hread, Option.bind_some,
    ← Json.list, Json.asList_texts, Option.getD_some]

private theorem mem_addKnownPeer_done (addr : String) (readable : Bool) (files : PeerFiles) :
    addr ∈ loadKnownPeers true (addKnownPeer addr readable .done files) := by
  unfold addKnownPeer
  split
  · next hknown => exact mem_readAddrs hknown
  · rw [loadKnownPeers_saveKnownPeers]
    exact List.mem_append_right _ List.mem_cons_self

-- What is known stays known when another address is met, if the file can be read and written, or
-- not opened for writing.
private theorem mem_addKnownPeer_of_mem {met addr : String} {readable : Bool} {write : FileWrite}
    (hwrite : write = .refused ∨ readable = true ∧ write = .done) {files : PeerFiles}
    (h : addr ∈ loadKnownPeers true files) :
    addr ∈ loadKnownPeers true (addKnownPeer met readable write files) := by
  unfold addKnownPeer
  split
  · exact h
  · rcases hwrite with rfl | ⟨rfl, rfl⟩
    · exact h
    · rw [loadKnownPeers_saveKnownPeers]
      exact List.mem_append_left _ h

private theorem mem_announcedPeers {bootstrap known : List String} {addr : String} :
    addr ∈ announcedPeers bootstrap known ↔ addr ∈ bootstrap ∨ addr ∈ known := by
  unfold announcedPeers
  induction known generalizing bootstrap with
  | nil => simp
  | cons peer known ih =>
    rw [List.foldl_cons, ih]
    split
    · next hpeer => grind
    · grind

/-! ### Agents that announce what they know -/

/-- The agents by their peer id, what each has published, and the addresses each has dialled. -/
structure Net where
  node : String → PeerFiles := fun _ ↦ {}
  sent : List (String × Bytes) := []
  dialed : List (String × String) := []

/-- What can happen. The two flags tell whether the bootstrap list and the known peers can be read
just then. -/
inductive Event where
  /-- `configure` or `enroll` on the machine of an agent. -/
  | writeBootstrap (n : String) (addrs : List String) (write : FileWrite)
  /-- An agent starts. -/
  | runAgent (n : String) (bootstrap known : Bool)
  /-- An agent meets another one, by multicast or by its `Identify` message. -/
  | addKnownPeer (n addr : String) (readable : Bool) (write : FileWrite)
  | announce (n : String) (bootstrap known : Bool)
  /-- An agent receives the `i`-th published message. -/
  | deliver (n : String) (i : Nat)

namespace Net

/-- Dial the texts that are addresses; `crates/agent/src/p2p/mod.rs:307–344`. -/
def dial (isMultiaddr : String → Bool) (net : Net) (n : String) (addrs : List String) : Net :=
  { net with dialed := net.dialed ++ (addrs.filter isMultiaddr).map (n, ·) }

/-- Change the files of an agent. -/
def update (net : Net) (n : String) (files : PeerFiles) : Net :=
  { net with node := Function.update net.node n files }

/-- `crates/agent/src/p2p/mod.rs:743–757`. -/
def announce (net : Net) (n : String) (bootstrap known : Bool) : Net :=
  let peers := announcedPeers (loadBootstrapAddrs bootstrap (net.node n))
    (loadKnownPeers known (net.node n))
  if peers.isEmpty then net
  else { net with sent := net.sent ++ [(n, serializeMessage (Command.announcePeers peers).toJson)] }

/-- `crates/agent/src/p2p/mod.rs:1364–1381`; other messages have no part in this. -/
def receive (isMultiaddr : String → Bool) (net : Net) (n : String) (data : Bytes) : Net :=
  match Common.receive data with
  | .command (.announcePeers peers) => net.dial isMultiaddr n peers
  | _ => net

/-- The files of the agent that were put. -/
theorem update_node_self (net : Net) (n : String) (files : PeerFiles) :
    (net.update n files).node n = files := Function.update_self ..

/-- The files of another agent. -/
theorem update_node_of_ne (net : Net) {n k : String} (h : k ≠ n) (files : PeerFiles) :
    (net.update n files).node k = net.node k := Function.update_of_ne h ..

/-- An announcement changes no file. -/
@[simp] theorem announce_node (net : Net) (n : String) (bootstrap known : Bool) :
    (net.announce n bootstrap known).node = net.node := by
  rw [announce]
  split <;> rfl

/-- A delivery changes no file. -/
@[simp] theorem receive_node (isMultiaddr : String → Bool) (net : Net) (n : String)
    (data : Bytes) : (net.receive isMultiaddr n data).node = net.node := by
  rw [receive]
  split <;> rfl

end Net

/-- One event. -/
def step (isMultiaddr : String → Bool) (net : Net) : Event → Option Net
  | .writeBootstrap n addrs write => some (net.update n (writeBootstrap addrs write (net.node n)))
  | .runAgent n bootstrap known =>
    some (net.dial isMultiaddr n
      (loadBootstrapAddrs bootstrap (net.node n) ++ loadKnownPeers known (net.node n)))
  | .addKnownPeer n addr readable write =>
    some (net.update n (Peers.addKnownPeer addr readable write (net.node n)))
  | .announce n bootstrap known => some (net.announce n bootstrap known)
  | .deliver n i =>
    match net.sent[i]? with
    | some (src, data) => if src = n then none else some (net.receive isMultiaddr n data)
    | none => none

/-- The addresses that an event brings from outside. -/
def Event.names : Event → List String
  | .writeBootstrap _ addrs _ => addrs
  | .addKnownPeer _ addr _ _ => [addr]
  | _ => []

/-- The address came from outside with one of the events. -/
def Named (events : List Event) (addr : String) : Prop := ∃ event ∈ events, addr ∈ event.names

/-- Whatever is kept, published or dialled was named by the events so far. -/
structure Sound (net : Net) (events : List Event) : Prop where
  bootstrap : ∀ n, ∀ addr ∈ loadBootstrapAddrs true (net.node n), Named events addr
  known : ∀ n, ∀ addr ∈ loadKnownPeers true (net.node n), Named events addr
  sent : ∀ entry ∈ net.sent, ∃ peers,
    entry.2 = serializeMessage (Command.announcePeers peers).toJson ∧
      ∀ addr ∈ peers, Named events addr
  dialed : ∀ entry ∈ net.dialed, Named events entry.2

section Steps

variable {isMultiaddr : String → Bool} {net : Net} {events : List Event}

private theorem Named.snoc {addr : String} (h : Named events addr) (event : Event) :
    Named (events ++ [event]) addr := by
  obtain ⟨past, hpast, haddr⟩ := h
  exact ⟨past, List.mem_append_left _ hpast, haddr⟩

private theorem named_last {event : Event} {addr : String} (h : addr ∈ event.names) :
    Named (events ++ [event]) addr :=
  ⟨event, List.mem_append_right _ List.mem_cons_self, h⟩

private theorem Sound.snoc (h : Sound net events) (event : Event) :
    Sound net (events ++ [event]) where
  bootstrap n addr haddr := (h.bootstrap n addr haddr).snoc event
  known n addr haddr := (h.known n addr haddr).snoc event
  sent entry hentry := by
    obtain ⟨peers, hdata, hpeers⟩ := h.sent entry hentry
    exact ⟨peers, hdata, fun addr haddr ↦ (hpeers addr haddr).snoc event⟩
  dialed entry hentry := (h.dialed entry hentry).snoc event

private theorem Sound.dial (h : Sound net events) (n : String) {addrs : List String}
    (haddrs : ∀ addr ∈ addrs, Named events addr) :
    Sound (net.dial isMultiaddr n addrs) events where
  bootstrap := h.bootstrap
  known := h.known
  sent := h.sent
  dialed entry hentry := by
    rcases List.mem_append.mp hentry with hold | hnew
    · exact h.dialed entry hold
    · obtain ⟨addr, haddr, rfl⟩ := List.mem_map.mp hnew
      exact haddrs addr (List.mem_filter.mp haddr).1

private theorem Sound.update (h : Sound net events) {n : String} {files : PeerFiles}
    (hbootstrap : ∀ addr ∈ loadBootstrapAddrs true files, Named events addr)
    (hknown : ∀ addr ∈ loadKnownPeers true files, Named events addr) :
    Sound (net.update n files) events where
  bootstrap k := by
    rcases eq_or_ne k n with rfl | hk
    · rw [Net.update_node_self]
      exact hbootstrap
    · rw [Net.update_node_of_ne net hk]
      exact h.bootstrap k
  known k := by
    rcases eq_or_ne k n with rfl | hk
    · rw [Net.update_node_self]
      exact hknown
    · rw [Net.update_node_of_ne net hk]
      exact h.known k
  sent := h.sent
  dialed := h.dialed

private theorem Sound.listed (h : Sound net events) {n : String} {bootstrap known : Bool}
    {addr : String} (haddr : addr ∈ loadBootstrapAddrs bootstrap (net.node n) ∨
      addr ∈ loadKnownPeers known (net.node n)) : Named events addr := by
  rcases haddr with haddr | haddr
  · exact h.bootstrap n addr (mem_readAddrs haddr)
  · exact h.known n addr (mem_readAddrs haddr)

private theorem mem_dial {addr : String} (haddr : isMultiaddr addr = true) (net : Net)
    (n : String) {addrs : List String} (h : addr ∈ addrs) :
    (n, addr) ∈ (net.dial isMultiaddr n addrs).dialed :=
  List.mem_append_right _ (List.mem_map_of_mem (List.mem_filter.mpr ⟨h, haddr⟩))

private theorem receive_announcePeers (net : Net) (n : String) (peers : List String) :
    net.receive isMultiaddr n (serializeMessage (Command.announcePeers peers).toJson) =
      net.dial isMultiaddr n peers := by
  have hread : Common.receive (serializeMessage (Command.announcePeers peers).toJson) =
      .command (.announcePeers peers) :=
    @receive_serializeMessage (.command (.announcePeers peers)) trivial
  rw [Net.receive, hread]

private theorem sound_step (net : Net) (seen : List Event) (event : Event) (next : Net)
    (h : Sound net seen) (_ : True) (hnext : step isMultiaddr net event = some next) :
    Sound next (seen ++ [event]) := by
  have hsnoc := h.snoc event
  cases event with
  | writeBootstrap n addrs write =>
    cases hnext
    refine hsnoc.update (fun addr haddr ↦ ?_) (hsnoc.known n)
    have hlist : (Json.list .str addrs).Enclosed := .inr ⟨_, rfl⟩
    rcases mem_leave (deserializeMessage_prettyFile hlist) haddr with hnew | hold
    · exact named_last hnew
    · exact hsnoc.bootstrap n addr hold
  | runAgent n bootstrap known =>
    cases hnext
    exact hsnoc.dial n fun addr haddr ↦ hsnoc.listed (List.mem_append.mp haddr)
  | addKnownPeer n met readable write =>
    cases hnext
    refine hsnoc.update (fun addr haddr ↦ ?_) (fun addr haddr ↦ ?_)
    · apply hsnoc.bootstrap n addr
      unfold Peers.addKnownPeer at haddr
      split at haddr
      · exact haddr
      · exact haddr
    · rcases mem_addKnownPeer haddr with rfl | hold
      · exact named_last List.mem_cons_self
      · exact hsnoc.known n addr hold
  | announce n bootstrap known =>
    cases hnext
    simp only [Net.announce]
    split
    · exact hsnoc
    · refine { bootstrap := hsnoc.bootstrap, known := hsnoc.known, sent := ?_,
               dialed := hsnoc.dialed }
      intro entry hentry
      rcases List.mem_append.mp hentry with hold | hnew
      · exact hsnoc.sent entry hold
      · rw [List.mem_singleton.mp hnew]
        exact ⟨_, rfl, fun addr haddr ↦ hsnoc.listed (mem_announcedPeers.mp haddr)⟩
  | deliver n i =>
    simp only [step] at hnext
    split at hnext
    · next src data hsent =>
      split at hnext
      · cases hnext
      · cases hnext
        obtain ⟨peers, hdata, hpeers⟩ := hsnoc.sent _ (List.mem_of_getElem? hsent)
        obtain rfl : data = _ := hdata
        rw [receive_announcePeers]
        exact hsnoc.dial n hpeers
    · cases hnext

end Steps

/-- Nobody invents an address: in every run of any number of agents, whatever files cannot be read
or are cut off and however the announcements arrive, each address that an agent dials was
configured for some agent or met by one. -/
theorem dialed_named {isMultiaddr : String → Bool} {events : List Event} {net : Net}
    (hrun : run (step isMultiaddr) {} events = some net) {n addr : String}
    (hdialed : (n, addr) ∈ net.dialed) : Named events addr := by
  have hstart : Sound {} [] :=
    { bootstrap := fun _ _ h ↦ nomatch h
      known := fun _ _ h ↦ nomatch h
      sent := fun _ h ↦ nomatch h
      dialed := fun _ h ↦ nomatch h }
  have hsound := run_history (q := fun _ ↦ True) sound_step (fun _ _ ↦ trivial) hstart hrun
  rw [List.nil_append] at hsound
  exact hsound.dialed (n, addr) hdialed

/-- An agent that starts again dials the one that it has met. -/
theorem dialed_named_restart :
    Named [.addKnownPeer "a" "/ip4/10.0.0.7/tcp/9000" true .done, .runAgent "a" true true]
      "/ip4/10.0.0.7/tcp/9000" := by
  have hknown := mem_addKnownPeer_done "/ip4/10.0.0.7/tcp/9000" true {}
  exact @dialed_named (fun _ ↦ true) _ _ rfl "a" _
    (mem_dial rfl _ _ (List.mem_append_right _ hknown))

/-- The event does not lose what the agent knows: its list is read and written without a failure,
or not opened for writing. -/
def Event.spares (n : String) : Event → Prop
  | .addKnownPeer k _ readable write => k = n → write = .refused ∨ readable = true ∧ write = .done
  | _ => True

private theorem known_step {isMultiaddr : String → Bool} {n addr : String} (net : Net)
    (event : Event) (next : Net) (h : addr ∈ loadKnownPeers true (net.node n))
    (hevent : event.spares n) (hnext : step isMultiaddr net event = some next) :
    addr ∈ loadKnownPeers true (next.node n) := by
  cases event with
  | writeBootstrap k addrs write =>
    cases hnext
    rcases eq_or_ne n k with rfl | hk
    · rw [Net.update_node_self]
      exact h
    · rw [Net.update_node_of_ne net hk]
      exact h
  | runAgent k bootstrap known =>
    cases hnext
    exact h
  | addKnownPeer k met readable write =>
    cases hnext
    rcases eq_or_ne n k with rfl | hk
    · rw [Net.update_node_self]
      exact mem_addKnownPeer_of_mem (hevent rfl) h
    · rw [Net.update_node_of_ne net hk]
      exact h
  | announce k bootstrap known =>
    cases hnext
    rw [Net.announce_node]
    exact h
  | deliver k i =>
    simp only [step] at hnext
    split at hnext
    · split at hnext
      · cases hnext
      · cases hnext
        rw [Net.receive_node]
        exact h
    · cases hnext

private theorem sent_step {isMultiaddr : String → Bool} {i : Nat} {entry : String × Bytes}
    (net : Net) (event : Event) (next : Net) (h : net.sent[i]? = some entry)
    (hnext : step isMultiaddr net event = some next) : next.sent[i]? = some entry := by
  cases event with
  | writeBootstrap | runAgent | addKnownPeer =>
    cases hnext
    exact h
  | announce n bootstrap known =>
    cases hnext
    simp only [Net.announce]
    split
    · exact h
    · exact List.getElem?_append_left (List.getElem?_eq_some_iff.mp h).1 ▸ h
  | deliver n k =>
    simp only [step] at hnext
    split at hnext
    · split at hnext
      · cases hnext
      · cases hnext
        rw [Net.receive]
        split <;> exact h
    · cases hnext

/-- An address that an agent met and wrote down is passed on: whatever happens then, as long as
no read or write of its list fails, the agent knows the address, its next announcement lists it,
and every other agent that ever receives this announcement dials it; and so does the agent itself
when it starts. -/
theorem met_dialed {isMultiaddr : String → Bool} {addr : String} (haddr : isMultiaddr addr = true)
    {s t u : Net} {n : String} {readable : Bool} {after : List Event}
    (hafter : ∀ event ∈ after, event.spares n)
    (hmet : run (step isMultiaddr) s (.addKnownPeer n addr readable .done :: after) = some t)
    {bootstrap : Bool} {later : List Event}
    (hlater : run (step isMultiaddr) t (.announce n bootstrap true :: later) = some u) :
    (∀ m ≠ n, ∃ v, step isMultiaddr u (.deliver m t.sent.length) = some v ∧
      (m, addr) ∈ v.dialed) ∧
    ∃ v, step isMultiaddr t (.runAgent n bootstrap true) = some v ∧ (n, addr) ∈ v.dialed := by
  have hknown : addr ∈ loadKnownPeers true (t.node n) := by
    obtain ⟨found, hfound, hrest⟩ := run_cons_eq_some.mp hmet
    cases hfound
    refine run_invariant (p := fun _ (event : Event) ↦ event.spares n) known_step ?_
      (stepsMeet_of_forall hafter _) hrest
    rw [Net.update_node_self]
    exact mem_addKnownPeer_done addr readable (s.node n)
  constructor
  · intro m hm
    obtain ⟨told, htold, hrest⟩ := run_cons_eq_some.mp hlater
    cases htold
    have hlisted : addr ∈ announcedPeers (loadBootstrapAddrs bootstrap (t.node n))
        (loadKnownPeers true (t.node n)) := mem_announcedPeers.mpr (.inr hknown)
    have hsent : (t.announce n bootstrap true).sent[t.sent.length]? =
        some (n, serializeMessage (Command.announcePeers (announcedPeers
          (loadBootstrapAddrs bootstrap (t.node n)) (loadKnownPeers true (t.node n)))).toJson) := by
      rw [Net.announce, if_neg (by simpa using List.ne_nil_of_mem hlisted)]
      exact List.getElem?_concat_length
    have hkept := run_invariant_all sent_step hsent hrest
    refine ⟨_, ?_, mem_dial haddr u m hlisted⟩
    rw [← receive_announcePeers]
    simp only [step, hkept, if_neg hm.symm]
  · exact ⟨_, rfl, mem_dial haddr t n (List.mem_append_right _ hknown)⟩

private theorem exists_run (isMultiaddr : String → Bool) {events : List Event}
    (hevents : ∀ event ∈ events, ∀ m i, event ≠ .deliver m i) (s : Net) :
    ∃ t, run (step isMultiaddr) s events = some t := by
  induction events generalizing s with
  | nil => exact ⟨s, rfl⟩
  | cons event events ih =>
    obtain ⟨hevent, hrest⟩ := List.forall_mem_cons.mp hevents
    cases event with
    | deliver m i => exact absurd rfl (hevent m i)
    | _ => exact ih hrest _

/-- Two agents that meet others in between and later, and announce what they know. -/
theorem met_dialed_pair :
    let met := Event.addKnownPeer "a" "/ip4/10.0.0.7/tcp/9000" true .done
    let after := [.addKnownPeer "b" "/ip4/10.0.0.8/tcp/9000" true (.cut 5), .announce "b" true true,
      .addKnownPeer "a" "/ip4/10.0.0.9/tcp/9000" false .refused,
      .addKnownPeer "a" "/ip4/10.0.0.8/tcp/9000" true .done]
    let later := [Event.runAgent "a" true true, .announce "b" true true,
      .addKnownPeer "a" "/ip4/10.0.0.9/tcp/9000" true (.cut 0)]
    ∃ t u, run (step fun _ ↦ true) {} (met :: after) = some t ∧
      run (step fun _ ↦ true) t (.announce "a" true true :: later) = some u ∧
      ∃ v, step (fun _ ↦ true) u (.deliver "b" t.sent.length) = some v ∧
        ("b", "/ip4/10.0.0.7/tcp/9000") ∈ v.dialed := by
  intro met after later
  have hmet : ∀ event ∈ met :: after, ∀ m i, event ≠ .deliver m i := by
    simp [met, after]
  have hlater : ∀ event ∈ .announce "a" true true :: later, ∀ m i, event ≠ .deliver m i := by
    simp [later]
  have hafter : ∀ event ∈ after, event.spares "a" := by
    simp [after, Event.spares]
  obtain ⟨t, ht⟩ := exists_run (fun _ ↦ true) hmet {}
  obtain ⟨u, hu⟩ := exists_run (fun _ ↦ true) hlater t
  obtain ⟨htold, -⟩ := met_dialed rfl hafter ht hu
  exact ⟨t, u, ht, hu, htold "b" (by decide)⟩

end PeerDeploy.Cluster.Peers
