import PeerDeploy.Deploy.Node
import PeerDeploy.Supervisor.State

/-!
# The gateway

`crates/agent/src/p2p/gateway.rs` and the tasks that start it,
`crates/agent/src/p2p/mod.rs:403–446`. The loopback listener is always there; the manager looks
every two seconds whether to start the public one. Both hand their requests to the same
`handle_request`. The manager has a copy of the roles from the start of the agent.
-/

namespace PeerDeploy.Gateway

open PeerDeploy.Common PeerDeploy.Base PeerDeploy.Deploy PeerDeploy.Supervisor

/-- Where a request arrives. -/
inductive Listener where
  | loopback
  | everywhere
  deriving DecidableEq

/-- An HTTP request. -/
structure Request where
  method : String
  path : String
  headers : List (String × String) := []
  /-- The body, if it can be read. -/
  body : Option Bytes := some []

/-- The call of `invoke_http_component_once`. -/
structure Invocation where
  wasmPath : String
  componentName : String
  method : String
  restPath : String
  headers : List (String × String)
  body : Bytes

/-- A response; its headers are always the same. -/
structure Response where
  status : Nat
  body : Bytes

/-- The component name of a path and what follows it; `crates/agent/src/p2p/gateway.rs:84–87`. -/
def splitPath (path : String) : String × String :=
  let rest := path.toList.dropWhile (· == '/')
  (String.ofList (rest.takeWhile (· != '/')),
    String.ofList ((rest.dropWhile (· != '/')).drop 1))

/-- `StatusCode::from_u16(code).unwrap_or(StatusCode::OK)`. -/
def statusOf (code : Nat) : Nat := if 100 ≤ code ∧ code ≤ 999 then code else 200

/-- What becomes of a request: the response, the component that it invokes with the call, and
whether the metrics count it. -/
structure Handled where
  response : Response
  invoked : Option (DesiredComponent × Invocation) := none
  counted : Bool := true

/-- `crates/agent/src/p2p/gateway.rs:66–143`; `invoke` is the run of a component, with no value
where it fails. -/
def handleRequest (invoke : Invocation → Option (Nat × Bytes))
    (desired : Std.ExtTreeMap String DesiredComponent) (req : Request) : Handled :=
  let (name, rest) := splitPath req.path
  if name.isEmpty then { response := ⟨404, asBytes "Component name required"⟩ }
  else match desired[name]? with
    | none => { response := ⟨404, asBytes ("Component '" ++ name ++ "' not found")⟩ }
    | some component =>
      match req.body with
      | none =>
        { response := ⟨400, asBytes "Failed to read request body"⟩, counted := false }
      | some body =>
        let call : Invocation :=
          { wasmPath := component.path, componentName := name, method := req.method
            restPath := rest, headers := req.headers, body }
        { response := match invoke call with
            | some (code, out) => ⟨statusOf code, out⟩
            | none => ⟨500, asBytes "Component error"⟩
          invoked := some (component, call) }

/-- The public listener. -/
inductive PublicListener where
  | absent
  /-- The task is spawned and has yet to bind. -/
  | starting
  | bound
  /-- The address could not be bound. -/
  | failed
  deriving DecidableEq

/-- An agent that runs a gateway. No step reads `starts` or `invoked`. -/
structure Agent where
  supervisor : SupervisorState
  peerId : String
  /-- The copy that the manager of the public listener has. -/
  rolesForPublic : List String
  roles : List String
  listener : PublicListener := .absent
  requestsTotal : Nat := 0
  errorsTotal : Nat := 0
  lastLatencyMs : Nat := 0
  /-- The roles and the desired components when the public listener was started. -/
  starts : List (List String × Std.ExtTreeMap String DesiredComponent) := []
  /-- The components invoked, each with the listener of its request. -/
  invoked : List (Listener × DesiredComponent) := []

/-- What happens to an agent. -/
inductive Event where
  | supervisor (event : Supervisor.Event)
  | updateRoles (targetPeerIds newRoles : List String)
  /-- The manager of the public listener looks at the desired components. -/
  | tick
  /-- The public listener binds its address, or fails to. -/
  | bind (succeeds : Bool)
  | request (listener : Listener) (req : Request) (latencyMs : Nat)

/-- `crates/agent/src/p2p/mod.rs:421–431`. -/
def anyPublic (desired : Std.ExtTreeMap String DesiredComponent) : Bool :=
  desired.toList.any fun (_, component) ↦ component.spec.visibility == some .publicBind

namespace Agent

/-- The manager starts the public listener now; `crates/agent/src/p2p/mod.rs:418–434`. -/
def startsPublic (s : Agent) : Bool :=
  s.listener == .absent && anyPublic s.supervisor.desired && s.rolesForPublic.contains "edge"

/-- A listener hands a request on; `crates/agent/src/p2p/gateway.rs:130–140`. -/
def handle (invoke : Invocation → Option (Nat × Bytes)) (s : Agent) (listener : Listener)
    (req : Request) (latencyMs : Nat) : Agent :=
  let out := handleRequest invoke s.supervisor.desired req
  let s := { s with invoked := s.invoked ++ (out.invoked.map fun call ↦ (listener, call.1)).toList }
  if out.counted then
    { s with
      requestsTotal := s.requestsTotal + 1
      lastLatencyMs := latencyMs
      errorsTotal :=
        if 200 ≤ out.response.status ∧ out.response.status < 300 then s.errorsTotal
        else s.errorsTotal + 1 }
  else s

end Agent

section Steps

variable (invoke : Invocation → Option (Nat × Bytes)) (dataDir : String)

/-- One event. -/
def step (s : Agent) : Event → Option Agent
  | .supervisor event =>
    (Supervisor.step dataDir s.supervisor event).map fun supervisor ↦ { s with supervisor }
  | .updateRoles targetPeerIds newRoles =>
    if targetPeerIds.isEmpty || targetPeerIds.contains s.peerId then
      some { s with roles := normalizeRoles newRoles }
    else some s
  | .tick =>
    if s.startsPublic then
      some { s with listener := .starting, starts := s.starts ++ [(s.roles, s.supervisor.desired)] }
    else some s
  | .bind succeeds =>
    if s.listener = .starting then
      some { s with listener := if succeeds then .bound else .failed }
    else none
  | .request .loopback req latencyMs => some (s.handle invoke .loopback req latencyMs)
  | .request .everywhere req latencyMs =>
    if s.listener = .bound then some (s.handle invoke .everywhere req latencyMs) else none

/-- An agent at its start. -/
def launched (peerId : String) (roles : List String) (supervisor : SupervisorState) : Agent :=
  { supervisor, peerId, rolesForPublic := roles, roles }

/-- The public listener was started only on an edge node with a public component, and only public
components were invoked through it. -/
structure Gated (s : Agent) : Prop where
  started : ∀ start ∈ s.starts, "edge" ∈ start.1 ∧
    ∃ (name : String) (component : DesiredComponent), start.2[name]? = some component ∧
      component.spec.visibility = some .publicBind
  served : ∀ component, (Listener.everywhere, component) ∈ s.invoked →
    component.spec.visibility = some .publicBind

/-- A tick that finds a public component on a node that began as an edge node, and no listener
yet, finds an edge node still; and no request with a readable body on the public listener names a
component that is desired but not public. -/
def Guarded (s : Agent) : Event → Prop
  | .tick => s.startsPublic = true → "edge" ∈ s.roles
  | .request .everywhere req _ =>
    s.listener = .bound → req.body.isSome = true → (splitPath req.path).1 ≠ "" →
      ∀ component, s.supervisor.desired[(splitPath req.path).1]? = some component →
        component.spec.visibility = some .publicBind
  | _ => True

end Steps

/-- The test finds a public component. -/
theorem exists_of_anyPublic {desired : Std.ExtTreeMap String DesiredComponent}
    (h : anyPublic desired = true) :
    ∃ (name : String) (component : DesiredComponent), desired[name]? = some component ∧
      component.spec.visibility = some .publicBind := by
  obtain ⟨⟨name, component⟩, hmem, hpublic⟩ := List.any_eq_true.mp h
  refine ⟨name, component, ?_, by simpa using hpublic⟩
  rwa [Std.ExtTreeMap.mem_toList_iff_getElem?_eq_some] at hmem

/-- What a request invokes: the desired component that its path names, whatever its visibility. -/
theorem invoked_iff (invoke : Invocation → Option (Nat × Bytes))
    (desired : Std.ExtTreeMap String DesiredComponent) (req : Request)
    (component : DesiredComponent) :
    (∃ call, (handleRequest invoke desired req).invoked = some (component, call)) ↔
      req.body.isSome = true ∧ (splitPath req.path).1 ≠ "" ∧
        desired[(splitPath req.path).1]? = some component := by
  unfold handleRequest
  generalize splitPath req.path = parts
  obtain ⟨name, rest⟩ := parts
  by_cases hname : name = ""
  · simp [hname]
  · have hname' : ¬ name.isEmpty = true := by simpa using hname
    simp only [hname', Bool.false_eq_true, if_false]
    cases hdesired : desired[name]? with
    | none => simp
    | some found =>
      cases hbody : req.body with
      | none => simp
      | some body =>
        simp [hname]

section Runs

variable (invoke : Invocation → Option (Nat × Bytes)) (dataDir : String)

private theorem invoked_handle (s : Agent) (listener : Listener) (req : Request) (latencyMs : Nat) :
    (s.handle invoke listener req latencyMs).starts = s.starts ∧
      ∀ l component, (l, component) ∈ (s.handle invoke listener req latencyMs).invoked ↔
        (l, component) ∈ s.invoked ∨ l = listener ∧
          ∃ call, (handleRequest invoke s.supervisor.desired req).invoked =
            some (component, call) := by
  have hinvoked : (s.handle invoke listener req latencyMs).invoked = s.invoked ++
      ((handleRequest invoke s.supervisor.desired req).invoked.map fun call ↦
        (listener, call.1)).toList := by
    simp only [Agent.handle]
    split
    · rfl
    · rfl
  refine ⟨?_, ?_⟩
  · simp only [Agent.handle]
    split
    · rfl
    · rfl
  · intro l component
    rw [hinvoked, List.mem_append, Option.mem_toList, Option.map_eq_some_iff]
    apply or_congr_right
    constructor
    · rintro ⟨⟨found, call⟩, hfound, heq⟩
      cases heq
      exact ⟨rfl, call, hfound⟩
    · rintro ⟨rfl, call, hfound⟩
      exact ⟨(component, call), hfound, rfl⟩

/-- A step keeps the gate if and only if it is guarded. -/
theorem gated_step_iff {s : Agent} (h : Gated s) (event : Event) :
    Guarded s event ↔ ∀ t, step invoke dataDir s event = some t → Gated t := by
  cases event with
  | supervisor event =>
    refine iff_of_true trivial ?_
    intro t ht
    obtain ⟨supervisor, -, rfl⟩ := Option.map_eq_some_iff.mp ht
    exact ⟨h.started, h.served⟩
  | updateRoles targetPeerIds newRoles =>
    refine iff_of_true trivial ?_
    intro t ht
    simp only [step] at ht
    split at ht
    · cases ht
      exact ⟨h.started, h.served⟩
    · cases ht
      exact h
  | tick =>
    by_cases hstarts : s.startsPublic = true
    · have hpublic : anyPublic s.supervisor.desired = true := by
        simp only [Agent.startsPublic, Bool.and_eq_true] at hstarts
        exact hstarts.1.2
      simp only [Guarded, step, if_pos hstarts, Option.some.injEq, forall_eq']
      constructor
      · intro hguard
        have hedge : "edge" ∈ s.roles := hguard hstarts
        refine ⟨?_, h.served⟩
        intro start hstart
        rcases List.mem_append.mp hstart with hold | hnew
        · exact h.started start hold
        · rw [List.mem_singleton.mp hnew]
          exact ⟨hedge, exists_of_anyPublic hpublic⟩
      · intro hgated _
        exact (hgated.started _ (List.mem_append_right _ (List.mem_singleton.mpr rfl))).1
    · apply iff_of_true
      · exact fun hs ↦ absurd hs hstarts
      · intro t ht
        rw [step, if_neg hstarts] at ht
        cases ht
        exact h
  | bind succeeds =>
    refine iff_of_true trivial ?_
    intro t ht
    simp only [step] at ht
    split at ht
    · cases ht
      exact ⟨h.started, h.served⟩
    · cases ht
  | request listener req latencyMs =>
    obtain ⟨hstarts, hinvoked⟩ := invoked_handle invoke s listener req latencyMs
    cases listener with
    | loopback =>
      refine iff_of_true trivial ?_
      intro t ht
      cases ht
      constructor
      · rw [hstarts]
        exact h.started
      · intro component hmem
        rcases (hinvoked _ component).mp hmem with hold | ⟨hother, -⟩
        · exact h.served component hold
        · cases hother
    | everywhere =>
      by_cases hbound : s.listener = .bound
      · simp only [Guarded, step, if_pos hbound, Option.some.injEq, forall_eq']
        constructor
        · intro hguard
          constructor
          · rw [hstarts]
            exact h.started
          · intro component hmem
            rcases (hinvoked _ component).mp hmem with hold | ⟨-, hnew⟩
            · exact h.served component hold
            · obtain ⟨hbody, hname, hdesired⟩ := (invoked_iff invoke _ req component).mp hnew
              exact hguard hbound hbody hname component hdesired
        · intro hgated _ hbody hname component hdesired
          apply hgated.served component
          apply (hinvoked _ component).mpr
          exact .inr ⟨rfl, (invoked_iff invoke _ req component).mpr ⟨hbody, hname, hdesired⟩⟩
      · apply iff_of_true
        · exact fun hb ↦ absurd hb hbound
        · intro t ht
          rw [step, if_neg hbound] at ht
          cases ht

/-- Public exposure is gated all through a run if and only if each of its steps is guarded. -/
theorem public_gated_iff (peerId : String) (roles : List String) (supervisor : SupervisorState)
    (events : List Event) :
    Throughout (step invoke dataDir) Gated (launched peerId roles supervisor) events ↔
      StepsMeet (step invoke dataDir) Guarded (launched peerId roles supervisor) events := by
  have hstart : Gated (launched peerId roles supervisor) := by
    constructor
    · intro start hin
      cases hin
    · intro component hin
      cases hin
  exact throughout_iff_stepsMeet (fun _ ↦ True) (fun _ _ _ _ _ ↦ trivial)
    (fun s event _ hs ↦ gated_step_iff invoke dataDir hs event) trivial hstart events

end Runs

-- A component of a visibility.
private def component (name : String) (visibility : Visibility) : DesiredComponent where
  name
  path := "/c.wasm"
  spec := { source := "cached:1", sha256Hex := "1", visibility := some visibility }

-- The node is an edge node no more when the manager looks.
private def roleTaken : List Event :=
  [.supervisor (.upsertComponent (component "site" .publicBind)), .updateRoles [] ["dev"], .tick]

-- A local component is asked for where the public one is served.
private def localAsked : List Event :=
  [.supervisor (.upsertComponent (component "site" .publicBind)),
    .supervisor (.upsertComponent (component "admin" .localBind)), .tick, .bind true,
    .request .everywhere { method := "GET", path := "/admin/users" } 3]

-- Every component answers.
private def answering : Invocation → Option (Nat × Bytes) := fun _ ↦ some (200, [])

/-- The listener starts on a node that has lost the edge role, and serves a local component. -/
theorem public_not_gated :
    (∃ s, run (step answering "/data") (launched "12D3KooW" ["edge"] {}) roleTaken = some s ∧
      s.starts.map Prod.fst = [["dev"]] ∧ ¬ Gated s) ∧
    ∃ s, run (step answering "/data") (launched "12D3KooW" ["edge"] {}) localAsked = some s ∧
      s.invoked = [(.everywhere, component "admin" .localBind)] ∧ ¬ Gated s := by
  constructor
  · have hseen : (run (step answering "/data") (launched "12D3KooW" ["edge"] {}) roleTaken).map
        (fun s ↦ s.starts.map Prod.fst) = some [["dev"]] := by
      decide
    obtain ⟨s, hrun, hs⟩ := Option.map_eq_some_iff.mp hseen
    refine ⟨s, hrun, hs, ?_⟩
    intro hgated
    obtain ⟨start, hstart, hroles⟩ : ∃ start ∈ s.starts, start.1 = ["dev"] := by
      have hmem : ["dev"] ∈ s.starts.map Prod.fst := by simp [hs]
      exact List.mem_map.mp hmem
    have hedge := (hgated.started start hstart).1
    rw [hroles] at hedge
    revert hedge
    decide
  · have hseen : (run (step answering "/data") (launched "12D3KooW" ["edge"] {}) localAsked).map
        (fun s ↦ s.invoked) = some [(.everywhere, component "admin" .localBind)] := by
      decide
    obtain ⟨s, hrun, hs⟩ := Option.map_eq_some_iff.mp hseen
    refine ⟨s, hrun, hs, ?_⟩
    intro hgated
    have hpublic := hgated.served (component "admin" .localBind) (by simp [hs])
    revert hpublic
    decide

end PeerDeploy.Gateway
