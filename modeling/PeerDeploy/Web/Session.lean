import PeerDeploy.Base.Table
import PeerDeploy.Base.Text
import PeerDeploy.Base.Transition
import PeerDeploy.Common.Command

/-!
# Sessions of the management interface

`crates/agent/src/web/types.rs:13–109` and `crates/agent/src/web/mod.rs:154–226`. The sessions
are behind a mutex, so each call on them is one step; a WebSocket request may make two. Every
call reads the clock afresh, once for each session it looks at, and the clock may go back. A
session id is a new uuid: one that was given out before is not given out again.
-/

namespace PeerDeploy.Web

open PeerDeploy.Base PeerDeploy.Common

/-- A session, under its id; `crates/agent/src/web/types.rs:14–19`. -/
structure Session where
  lastActive : Int
  authenticated : Bool := false
  deriving DecidableEq

/-- Thirty minutes in nanoseconds. -/
def sessionTimeout : Int := 30 * 60 * 1000000000

/-- `crates/agent/src/web/types.rs:31–37`. -/
def Session.isExpired (session : Session) (now : Int) : Bool :=
  if session.lastActive ≤ now then decide (now - session.lastActive > sessionTimeout) else true

/-- The clock during one call. -/
structure Readings where
  /-- What `is_expired` reads for a session. -/
  now : String → Int
  /-- What a new session or `touch` reads. -/
  touch : Int

/-- The parts of a request that decide on it. -/
structure Request where
  method : String := "GET"
  path : String
  /-- The first `Authorization` header. -/
  authorization : Option Bytes := none
  query : Option String := none
  deriving DecidableEq

/-- A login or a successful use of a session. -/
structure Use where
  id : String
  time : Int
  login : Bool
  deriving DecidableEq

/-- The server: its sessions, and the WebSocket requests that have yet to try the token of their
query. The ids given out are those of the past, and no step reads the uses. -/
structure Server where
  sessions : Std.ExtTreeMap String Session := ∅
  waiting : List (Request × String) := []
  issued : List String := []
  uses : List Use := []

/-- `HeaderValue::to_str`: visible ASCII and tabs only. -/
def headerText (value : Bytes) : Option String :=
  if value.all fun b ↦ b == 9 || (32 ≤ b && b < 127) then
    some (String.ofList (value.map fun b ↦ Char.ofNat b.toNat))
  else none

/-- The token of an `Authorization` header; `crates/agent/src/web/mod.rs:183–197`. -/
def bearerToken (value : Option Bytes) : Option String := do
  let text ← headerText (← value)
  let token := Text.trim
    (((Text.stripPrefix "Bearer " text).or (Text.stripPrefix "bearer " text)).getD "")
  if token.isEmpty then none else some token

/-- `str::split` at a character. -/
def splitAt (separator : Char) : List Char → List (List Char)
  | [] => [[]]
  | c :: rest =>
    if c = separator then [] :: splitAt separator rest
    else match splitAt separator rest with
      | [] => [[c]]
      | word :: words => (c :: word) :: words

/-- `pair.splitn(2, '=')`, the key trimmed. -/
def keyValue (pair : String) : String × String :=
  match Text.splitOnce "=" pair with
  | some (key, value) => (Text.trim key, value)
  | none => (Text.trim pair, "")

/-- `crates/agent/src/web/mod.rs:215–226`. -/
def extractTokenFromQuery (query : Option String) : Option String := do
  let pairs := (splitAt '&' (← query).toList).map fun pair ↦ keyValue (String.ofList pair)
  (pairs.find? fun pair ↦ pair.1 == "token").map Prod.snd

namespace Server

/-- `sessions.retain(|_, session| !session.is_expired())`. -/
def retain (s : Server) (readings : Readings) : Server :=
  { s with sessions := s.sessions.filter fun id session ↦ !session.isExpired (readings.now id) }

/-- `crates/agent/src/web/types.rs:74–85`. -/
def createSession (s : Server) (id : String) (readings : Readings) : Server :=
  retain { s with sessions := s.sessions.insert id { lastActive := readings.touch }
                  issued := id :: s.issued } readings

/-- `crates/agent/src/web/types.rs:87–97`. -/
def authenticateSession (s : Server) (id : String) (readings : Readings) : Server :=
  match s.sessions[id]? with
  | none => s
  | some session =>
    if session.isExpired (readings.now id) then s
    else { s with
      sessions := s.sessions.insert id { lastActive := readings.touch, authenticated := true }
      uses := ⟨id, readings.touch, true⟩ :: s.uses }

/-- `crates/agent/src/web/types.rs:99–109`. -/
def validateBearer (s : Server) (token : String) (readings : Readings) : Server × Bool :=
  let s := s.retain readings
  match s.sessions[token]? with
  | none => (s, false)
  | some session =>
    if session.authenticated then
      ({ s with sessions := s.sessions.insert token { session with lastActive := readings.touch }
                uses := ⟨token, readings.touch, false⟩ :: s.uses }, true)
    else (s, false)

/-- A WebSocket request goes on to the token of its query, if there is one. -/
def tryQuery (s : Server) (req : Request) : Server :=
  match extractTokenFromQuery req.query with
  | none => s
  | some token => { s with waiting := s.waiting ++ [(req, token)] }

end Server

/-- What happens at the server. -/
inductive Call where
  | createSession (id : String)
  | authenticateSession (id : String)
  | request (req : Request)
  /-- A waiting WebSocket request tries the token of its query. -/
  | queryToken (k : Nat)

/-- What a call does: the server after it, the request that reaches its handler, whether sessions
were validated, and the session accepted. -/
structure Outcome where
  next : Server
  reaches : Option Request := none
  validated : Bool := false
  accepted : Option String := none

/-- The outcome of one validation for a request. -/
def Outcome.ofValidation (req : Request) (token : String) (out : Server × Bool) : Outcome where
  next := out.1
  reaches := if out.2 then some req else none
  validated := true
  accepted := if out.2 then some token else none

/-- One call; the middleware is `crates/agent/src/web/mod.rs:154–213`. -/
def respond (s : Server) (readings : Readings) : Call → Option Outcome
  | .createSession id =>
    if id ∈ s.issued then none else some { next := s.createSession id readings }
  | .authenticateSession id => some { next := s.authenticateSession id readings }
  | .request req =>
    if req.method = "OPTIONS" then some { next := s, reaches := some req }
    else if Text.startsWith "/api/" req.path then
      match bearerToken req.authorization with
      | none => some { next := s }
      | some token => some (.ofValidation req token (s.validateBearer token readings))
    else if req.path = "/ws" then
      match bearerToken req.authorization with
      | none => some { next := s.tryQuery req }
      | some token =>
        let out := s.validateBearer token readings
        if out.2 then some (.ofValidation req token out)
        else some { next := out.1.tryQuery req, validated := true }
    else some { next := s, reaches := some req }
  | .queryToken k =>
    match s.waiting[k]? with
    | none => none
    | some (req, token) =>
      let s := { s with waiting := s.waiting.eraseIdx k }
      some (.ofValidation req token (s.validateBearer token readings))

/-- The server after one call. -/
def serve (s : Server) (call : Call × Readings) : Option Server :=
  (respond s call.2 call.1).map Outcome.next

/-! ### What may pass -/

/-- The request needs a session. -/
def Protected (req : Request) : Prop :=
  req.method ≠ "OPTIONS" ∧ (Text.startsWith "/api/" req.path = true ∨ req.path = "/ws")

/-- The request has the id as its bearer token or, for the WebSocket, as the first token of its
query. -/
def Presents (req : Request) (id : String) : Prop :=
  bearerToken req.authorization = some id ∨
    req.path = "/ws" ∧ extractTokenFromQuery req.query = some id

/-- The last login or use of a session. -/
def lastUse (uses : List Use) (id : String) : Option Int :=
  (uses.find? fun use ↦ use.id == id).map Use.time

/-- The session was created and authenticated, and its last login or use is not in the future and
at most thirty minutes ago. -/
structure Live (s : Server) (id : String) (now : Int) : Prop where
  created : id ∈ s.issued
  authenticated : ∃ use ∈ s.uses, use.id = id ∧ use.login = true
  recent : ∃ time, lastUse s.uses id = some time ∧ time ≤ now ∧ now ≤ time + sessionTimeout

/-- The requests for the management interface pass with live sessions only, and a session that a
validation finds expired is not accepted any more. -/
structure Controlled (s : Server) : Prop where
  passes : ∀ call readings out req, respond s readings call = some out → out.reaches = some req →
    Protected req → ∃ id, out.accepted = some id ∧ Presents req id ∧ Live s id (readings.now id)
  lost : ∀ call readings out id, respond s readings call = some out → out.validated = true →
    id ∈ s.issued →
    (∀ session, s.sessions[id]? = some session → session.isExpired (readings.now id) = true) →
      ∀ later t, run serve out.next later = some t →
        ∀ call' readings' out', respond t readings' call' = some out' → out'.accepted ≠ some id

/-! ### What a call can do -/

/-- The outcomes of a call, one case for each kind. -/
inductive Responds (s : Server) (readings : Readings) : Outcome → Prop where
  | created {id : String} (hfresh : id ∉ s.issued) :
    Responds s readings { next := s.createSession id readings }
  | authenticated {id : String} :
    Responds s readings { next := s.authenticateSession id readings }
  | unguarded {req : Request} (hopen : ¬ Protected req) :
    Responds s readings { next := s, reaches := some req }
  | refused : Responds s readings { next := s }
  | queried {req : Request} (hpath : req.path = "/ws") :
    Responds s readings { next := s.tryQuery req }
  | checked {req : Request} {token : String} {waiting : List (Request × String)}
    (hwaiting : waiting.Sublist s.waiting) (hpresents : Presents req token ∨
      (req, token) ∈ s.waiting) :
    Responds s readings
      (.ofValidation req token ({ s with waiting }.validateBearer token readings))
  | deferred {req : Request} {token : String} (hpath : req.path = "/ws") :
    Responds s readings
      { next := (s.validateBearer token readings).1.tryQuery req, validated := true }

/-- Every call has one of these outcomes. -/
theorem responds_of_respond {s : Server} {readings : Readings} {call : Call} {out : Outcome}
    (h : respond s readings call = some out) : Responds s readings out := by
  cases call with
  | createSession id =>
    simp only [respond] at h
    split at h
    · cases h
    · next hfresh =>
      cases h
      exact .created hfresh
  | authenticateSession id =>
    cases h
    exact .authenticated
  | request req =>
    simp only [respond] at h
    split at h
    · next hoptions =>
      cases h
      exact .unguarded fun hprotected ↦ hprotected.1 hoptions
    · split at h
      · split at h
        · cases h
          exact .refused
        · next token htoken =>
          cases h
          exact .checked (List.Sublist.refl _) (.inl (.inl htoken))
      · next hapi =>
        split at h
        · next hpath =>
          split at h
          · cases h
            exact .queried hpath
          · next token htoken =>
            split at h
            · cases h
              exact .checked (List.Sublist.refl _) (.inl (.inl htoken))
            · cases h
              exact .deferred hpath
        · next hpath =>
          cases h
          apply Responds.unguarded
          rintro ⟨-, hapi' | hpath'⟩
          · exact hapi hapi'
          · exact hpath hpath'
  | queryToken k =>
    simp only [respond] at h
    split at h
    · cases h
    · next req token hfound =>
      cases h
      exact .checked (List.eraseIdx_sublist _ _) (.inr (List.mem_of_getElem? hfound))

/-- What is left of the sessions after the expired ones are dropped. -/
theorem getElem?_retain (s : Server) (readings : Readings) (id : String) :
    (s.retain readings).sessions[id]? =
      s.sessions[id]?.filter fun session ↦ !session.isExpired (readings.now id) := by
  rw [Server.retain, Std.ExtTreeMap.getElem?_filter']

/-- A session that is left was there, and is not expired. -/
theorem retain_eq_some {s : Server} {readings : Readings} {id : String} {session : Session} :
    (s.retain readings).sessions[id]? = some session ↔
      s.sessions[id]? = some session ∧ session.isExpired (readings.now id) = false := by
  rw [getElem?_retain, Option.filter_eq_some_iff, Bool.not_eq_true']

/-- The sessions, less those that are expired, with one that is used now. -/
def Server.touched (s : Server) (id : String) (time : Int) (login : Bool) : Server :=
  { s with
    sessions := s.sessions.insert id { lastActive := time, authenticated := true }
    uses := ⟨id, time, login⟩ :: s.uses }

/-- A validation drops the expired sessions; it succeeds for an authenticated one that is left. -/
theorem validateBearer_cases (s : Server) (token : String) (readings : Readings) :
    s.validateBearer token readings = (s.retain readings, false) ∨
      ∃ session, s.sessions[token]? = some session ∧
        session.isExpired (readings.now token) = false ∧ session.authenticated = true ∧
        s.validateBearer token readings =
          ((s.retain readings).touched token readings.touch false, true) := by
  cases hfound : (s.retain readings).sessions[token]? with
  | none =>
    left
    simp only [Server.validateBearer, hfound]
  | some session =>
    obtain ⟨hsession, hfresh⟩ := retain_eq_some.mp hfound
    cases hauth : session.authenticated with
    | false =>
      left
      simp [Server.validateBearer, hfound, hauth]
    | true =>
      right
      refine ⟨session, hsession, hfresh, hauth, ?_⟩
      simp [Server.validateBearer, hfound, hauth, Server.touched]

/-! ### Runs -/

/-- What holds in every run: a session has an id that was given out, an authenticated one was last
used when it says, and a waiting request is a WebSocket request with its token. -/
structure SessionsInv (s : Server) : Prop where
  issued : ∀ id session, s.sessions[id]? = some session → id ∈ s.issued
  used : ∀ id session, s.sessions[id]? = some session → session.authenticated = true →
    lastUse s.uses id = some session.lastActive ∧ ∃ use ∈ s.uses, use.id = id ∧ use.login = true
  waiting : ∀ entry ∈ s.waiting,
    entry.1.path = "/ws" ∧ extractTokenFromQuery entry.1.query = some entry.2

namespace SessionsInv

variable {s : Server}

/-- The removal of expired sessions keeps the invariant. -/
theorem retain (h : SessionsInv s) (readings : Readings) : SessionsInv (s.retain readings) where
  issued id session hfound := h.issued id session (retain_eq_some.mp hfound).1
  used id session hfound := h.used id session (retain_eq_some.mp hfound).1
  waiting := h.waiting

/-- A use of an issued session keeps it. -/
theorem touched (h : SessionsInv s) {id : String} (hid : id ∈ s.issued) (time : Int) {login : Bool}
    (hlogin : login = true ∨ ∃ use ∈ s.uses, use.id = id ∧ use.login = true) :
    SessionsInv (s.touched id time login) where
  issued other session hfound := by
    rw [Server.touched, Table.getElem?_insert] at hfound
    split at hfound
    · next heq =>
      subst heq
      exact hid
    · exact h.issued other session hfound
  used other session hfound hauth := by
    rw [Server.touched, Table.getElem?_insert] at hfound
    split at hfound
    · next heq =>
      subst heq
      cases hfound
      refine ⟨by simp [Server.touched, lastUse], ?_⟩
      rcases hlogin with rfl | ⟨use, huse, hmatch⟩
      · exact ⟨_, List.mem_cons_self, rfl, rfl⟩
      · exact ⟨use, List.mem_cons_of_mem _ huse, hmatch⟩
    · next hne =>
      obtain ⟨hlast, use, huse, hmatch⟩ := h.used other session hfound hauth
      refine ⟨?_, use, List.mem_cons_of_mem _ huse, hmatch⟩
      simpa [Server.touched, lastUse, hne] using hlast
  waiting := h.waiting

/-- A new session keeps it. -/
theorem createSession (h : SessionsInv s) (id : String) (readings : Readings) :
    SessionsInv (s.createSession id readings) := by
  apply retain
  constructor
  · intro other session hfound
    rw [Table.getElem?_insert] at hfound
    split at hfound
    · next heq =>
      subst heq
      exact List.mem_cons_self
    · exact List.mem_cons_of_mem _ (h.issued other session hfound)
  · intro other session hfound hauth
    rw [Table.getElem?_insert] at hfound
    split at hfound
    · cases hfound
      cases hauth
    · exact h.used other session hfound hauth
  · exact h.waiting

/-- So does a login. -/
theorem authenticateSession (h : SessionsInv s) (id : String) (readings : Readings) :
    SessionsInv (s.authenticateSession id readings) := by
  unfold Server.authenticateSession
  split
  · exact h
  · next session hfound =>
    split
    · exact h
    · exact h.touched (h.issued id session hfound) readings.touch (.inl rfl)

/-- So does the check of a bearer token. -/
theorem validateBearer (h : SessionsInv s) (token : String) (readings : Readings) :
    SessionsInv (s.validateBearer token readings).1 := by
  rcases validateBearer_cases s token readings with hout | ⟨session, hfound, hfresh, hauth, hout⟩
  · rw [hout]
    exact h.retain readings
  · rw [hout]
    exact (h.retain readings).touched (h.issued token session hfound) readings.touch
      (.inr (h.used token session hfound hauth).2)

/-- So does a request that waits with a token in its query. -/
theorem tryQuery (h : SessionsInv s) {req : Request} (hpath : req.path = "/ws") :
    SessionsInv (s.tryQuery req) := by
  unfold Server.tryQuery
  split
  · exact h
  · next token htoken =>
    refine ⟨h.issued, h.used, ?_⟩
    intro entry hentry
    rcases List.mem_append.mp hentry with hold | hnew
    · exact h.waiting entry hold
    · rw [List.mem_singleton.mp hnew]
      exact ⟨hpath, htoken⟩

/-- Fewer waiting requests keep it. -/
theorem shorten (h : SessionsInv s) {waiting : List (Request × String)}
    (hsub : waiting.Sublist s.waiting) : SessionsInv { s with waiting } :=
  ⟨h.issued, h.used, fun entry hentry ↦ h.waiting entry (hsub.subset hentry)⟩

/-- Every call keeps the invariant. -/
theorem next (h : SessionsInv s) {readings : Readings} {out : Outcome}
    (hout : Responds s readings out) : SessionsInv out.next := by
  cases hout with
  | created hfresh => exact h.createSession _ readings
  | authenticated => exact h.authenticateSession _ readings
  | unguarded hopen => exact h
  | refused => exact h
  | queried hpath => exact h.tryQuery hpath
  | checked hwaiting hpresents => exact (h.shorten hwaiting).validateBearer _ readings
  | deferred hpath => exact (h.validateBearer _ readings).tryQuery hpath

end SessionsInv

/-- A session that is accepted is there, is authenticated and is not expired. -/
theorem session_of_accepted {s : Server} {readings : Readings} {out : Outcome}
    (hout : Responds s readings out) {id : String} (h : out.accepted = some id) :
    ∃ session, s.sessions[id]? = some session ∧ session.isExpired (readings.now id) = false ∧
      session.authenticated = true := by
  cases hout with
  | @checked req token waiting hwaiting hpresents =>
    rcases validateBearer_cases { s with waiting } token readings with
      hfail | ⟨session, hfound, hfresh, hauth, hsucceed⟩
    · simp [Outcome.ofValidation, hfail] at h
    · have htoken : token = id := by simpa [Outcome.ofValidation, hsucceed] using h
      subst htoken
      exact ⟨session, hfound, hfresh, hauth⟩
  | created | authenticated | unguarded | refused | queried | deferred => cases h

/-- A protected request that reaches its handler has presented the session that is accepted. -/
theorem presents_of_reaches {s : Server} (hs : SessionsInv s) {readings : Readings} {out : Outcome}
    (hout : Responds s readings out) {req : Request} (h : out.reaches = some req)
    (hprotected : Protected req) : ∃ id, out.accepted = some id ∧ Presents req id := by
  cases hout with
  | @unguarded other hopen =>
    cases h
    exact absurd hprotected hopen
  | @checked other token waiting hwaiting hpresents =>
    simp only [Outcome.ofValidation] at h ⊢
    split at h
    · next hok =>
      cases h
      rw [if_pos hok]
      refine ⟨token, rfl, ?_⟩
      rcases hpresents with hnow | hearlier
      · exact hnow
      · exact .inr (hs.waiting _ hearlier)
    · cases h
  | created | authenticated | refused | queried | deferred => cases h

/-- An authenticated session that is not expired is live. -/
theorem live_of_session {s : Server} (hs : SessionsInv s) {id : String} {session : Session}
    {now : Int} (hfound : s.sessions[id]? = some session)
    (hfresh : session.isExpired now = false) (hauth : session.authenticated = true) :
    Live s id now := by
  obtain ⟨hlast, hlogin⟩ := hs.used id session hfound hauth
  refine ⟨hs.issued id session hfound, hlogin, session.lastActive, hlast, ?_⟩
  unfold Session.isExpired at hfresh
  split at hfresh
  · next hle =>
    have hrecent := of_decide_eq_false hfresh
    omega
  · cases hfresh

/-! ### Lost sessions -/

/-- The id was given out and its session is gone. -/
structure Gone (id : String) (s : Server) : Prop where
  issued : id ∈ s.issued
  absent : s.sessions[id]? = none

namespace Gone

variable {id : String} {s : Server}

/-- A removal does not bring a session back. -/
theorem retain (h : Gone id s) (readings : Readings) : Gone id (s.retain readings) where
  issued := h.issued
  absent := by
    rw [getElem?_retain, h.absent]
    rfl

/-- Neither does the use of another one. -/
theorem touched (h : Gone id s) {other : String} {session : Session}
    (hother : s.sessions[other]? = some session) (time : Int) (login : Bool) :
    Gone id (s.touched other time login) where
  issued := h.issued
  absent := by
    have hne : other ≠ id := by
      rintro rfl
      rw [h.absent] at hother
      cases hother
    rw [Server.touched, Table.getElem?_insert, if_neg hne, h.absent]

/-- Neither does the check of a bearer token. -/
theorem validateBearer (h : Gone id s) (token : String) (readings : Readings) :
    Gone id (s.validateBearer token readings).1 := by
  rcases validateBearer_cases s token readings with hout | ⟨session, hfound, hfresh, -, hout⟩
  · rw [hout]
    exact h.retain readings
  · rw [hout]
    exact (h.retain readings).touched (retain_eq_some.mpr ⟨hfound, hfresh⟩) readings.touch false

/-- Neither does a token in a query. -/
theorem tryQuery (h : Gone id s) (req : Request) : Gone id (s.tryQuery req) := by
  unfold Server.tryQuery
  split
  · exact h
  · exact ⟨h.issued, h.absent⟩

/-- No call brings a session back. -/
theorem next (h : Gone id s) {readings : Readings} {out : Outcome}
    (hout : Responds s readings out) : Gone id out.next := by
  cases hout with
  | @created other hfresh =>
    apply retain
    have hne : other ≠ id := by
      rintro rfl
      exact hfresh h.issued
    refine ⟨List.mem_cons_of_mem _ h.issued, ?_⟩
    rw [Table.getElem?_insert, if_neg hne, h.absent]
  | authenticated =>
    simp only [Server.authenticateSession]
    split
    · exact h
    · next session hfound =>
      split
      · exact h
      · exact h.touched hfound readings.touch true
  | unguarded hopen => exact h
  | refused => exact h
  | queried hpath => exact h.tryQuery _
  | @checked req token waiting hwaiting hpresents =>
    have hshort : Gone id { s with waiting } := ⟨h.issued, h.absent⟩
    exact hshort.validateBearer token readings
  | deferred hpath => exact (h.validateBearer _ readings).tryQuery _

end Gone

/-- A validation drops the sessions that it finds expired. -/
theorem gone_of_validated {s : Server} {readings : Readings} {out : Outcome}
    (hout : Responds s readings out) (hvalidated : out.validated = true) {id : String}
    (hissued : id ∈ s.issued)
    (hexpired : ∀ session, s.sessions[id]? = some session →
      session.isExpired (readings.now id) = true) : Gone id out.next := by
  have hretain : Gone id (s.retain readings) := by
    refine ⟨hissued, ?_⟩
    rw [getElem?_retain, Option.filter_eq_none_iff]
    intro session hfound
    simp [hexpired session hfound]
  have hvalidate (waiting : List (Request × String)) (token : String) :
      Gone id ({ s with waiting }.validateBearer token readings).1 := by
    have hshort : Gone id (Server.retain { s with waiting } readings) :=
      ⟨hretain.issued, hretain.absent⟩
    rcases validateBearer_cases { s with waiting } token readings with
      hfail | ⟨session, hfound, hfresh, -, hsucceed⟩
    · rw [hfail]
      exact hshort
    · rw [hsucceed]
      exact hshort.touched (retain_eq_some.mpr ⟨hfound, hfresh⟩) readings.touch false
  cases hout with
  | checked hwaiting hpresents => exact hvalidate _ _
  | deferred hpath => exact (hvalidate s.waiting _).tryQuery _
  | created | authenticated | unguarded | refused | queried => cases hvalidated

/-- In every run of the server its requests are controlled. -/
theorem access_controlled {calls : List (Call × Readings)} {s : Server}
    (hrun : run serve {} calls = some s) : Controlled s := by
  have hstep (s : Server) (call : Call × Readings) (t : Server) (hserve : serve s call = some t) :
      ∃ out, Responds s call.2 out ∧ out.next = t := by
    obtain ⟨out, hout, hnext⟩ := Option.map_eq_some_iff.mp hserve
    exact ⟨out, responds_of_respond hout, hnext⟩
  have hinv : SessionsInv s := by
    refine run_invariant_all ?_ ?_ hrun
    · intro s call t hs hserve
      obtain ⟨out, hout, rfl⟩ := hstep s call t hserve
      exact hs.next hout
    · constructor
      · intro id session hfound
        simp at hfound
      · intro id session hfound
        simp at hfound
      · intro entry hentry
        cases hentry
  constructor
  · intro call readings out req hrespond hreaches hprotected
    have hout := responds_of_respond hrespond
    obtain ⟨id, haccepted, hpresents⟩ := presents_of_reaches hinv hout hreaches hprotected
    obtain ⟨session, hfound, hfresh, hauth⟩ := session_of_accepted hout haccepted
    exact ⟨id, haccepted, hpresents, live_of_session hinv hfound hfresh hauth⟩
  · intro call readings out id hrespond hvalidated hissued hexpired later t hlater call' readings'
      out' hrespond' haccepted
    have hgone := gone_of_validated (responds_of_respond hrespond) hvalidated hissued hexpired
    have hstill : Gone id t := by
      refine run_invariant_all ?_ hgone hlater
      intro s call t hs hserve
      obtain ⟨out, hout, rfl⟩ := hstep s call t hserve
      exact hs.next hout
    obtain ⟨session, hfound, -, -⟩ :=
      session_of_accepted (responds_of_respond hrespond') haccepted
    rw [hstill.absent] at hfound
    cases hfound

-- A clock that always reads the same.
private def stopped (time : Int) : Readings := { now := fun _ ↦ time, touch := time }

/-- The session is made and authenticated at the start, and used after a minute. -/
theorem access_controlled_start :
    ∃ s, run serve {} [(.createSession "8f1d", stopped 0), (.authenticateSession "8f1d", stopped 5),
        (.request { path := "/api/status", authorization := some (asBytes "Bearer 8f1d") },
          stopped 60000000000)] = some s ∧
      lastUse s.uses "8f1d" = some 60000000000 ∧ Controlled s := by
  have hseen : (run serve {} [(.createSession "8f1d", stopped 0),
      (.authenticateSession "8f1d", stopped 5),
        (.request { path := "/api/status", authorization := some (asBytes "Bearer 8f1d") },
          stopped 60000000000)]).map (fun s ↦ lastUse s.uses "8f1d") =
            some (some 60000000000) := by
    decide +kernel
  obtain ⟨s, hs, hlast⟩ := Option.map_eq_some_iff.mp hseen
  exact ⟨s, hs, hlast, access_controlled hs⟩

end PeerDeploy.Web
