import CppMeet.Ice.Agent
import CppMeet.Lib.Run

/-!
# Authenticated checks

A `Session` is an agent that holds both sides' credentials, with what it has seen so far: the
transaction ids of its requests and the packets it was given.

A packet is `Authenticated` when it is a request with the agent's user name and a digest that the
local password verifies, or the response to an earlier request. `Guarded` says that no other packet
connects the agent or is answered. The agent verifies no digest and compares no transaction id, and
it compares the user name only when there is one: `Screened` is the exact condition on a packet
(`guarded_along_iff`).
-/

set_option autoImplicit false

namespace CppMeet.Ice.Connectivity

open CppMeet.Lib.BigEndian CppMeet.Lib.Buffer CppMeet.Lib.Run CppMeet.Ice.Stun CppMeet.Ice.Agent
open CppMeet.Ice.Agent.IceAgent

variable (hmacSha1 : List UInt8 → List UInt8 → Vector UInt8 20)

/-- The offset of attribute `i` in the bytes of a message. -/
def attrOffset (msg : StunMessage) (i : ℕ) : ℕ := 20 + (serializeAttrs (msg.attrs.take i)).length

/-- The bytes before offset `p` with the length field that counts a digest at `p`. -/
def integrityInput (data : List UInt8) (p : ℕ) : List UInt8 :=
  data.take 2 ++ put16 (UInt16.ofNat (p - 20 + 24)) ++ (data.take p).drop 4

/-- The message holds a digest of the packet that the password verifies. -/
def IntegrityVerifies (pwd data : List UInt8) (msg : StunMessage) : Prop :=
  ∃ i, msg.attrs[i]? =
    some (.messageIntegrity, (hmacSha1 pwd (integrityInput data (attrOffset msg i))).toList)

/-- The packet passes a check that only the remote party can pass; `requests` are the transaction
ids sent so far. -/
def Authenticated (agent : IceAgent) (requests : List TransactionId) (data : List UInt8) : Prop :=
  ∃ msg, Decodes data msg ∧
    (msg.type = .bindingRequest ∧ (.username, agent.expectedUsername) ∈ msg.attrs ∧
        IntegrityVerifies hmacSha1 agent.localPwd data msg ∨
      msg.type = .bindingResponse ∧ msg.transactionId ∈ requests)

/-- What an agent goes through: a packet arrives, or a check is sent. -/
inductive Event where
  | packet (data : List UInt8) (sender : SockAddrIn) (rand : Fin 12 → UInt32)
  | sendBindingRequest (dst : SockAddrIn) (draws : Draws)

/-- `delivered` holds every packet with the transaction ids sent before it. -/
structure Session where
  agent : IceAgent
  requests : List TransactionId := []
  delivered : List (List UInt8 × List TransactionId) := []

namespace Session

/-- An agent that has the credentials of both sides and has sent nothing. -/
def start (role : IceRole) (localUfrag localPwd remoteUfrag remotePwd : List UInt8) : Session where
  agent := (IceAgent.new role localUfrag localPwd).setRemoteCredentials remoteUfrag remotePwd

/-- One event of an agent, written down with the requests sent before it. -/
def step (s : Session) : Event → Session
  | .packet data sender rand =>
      { s with
        agent := (s.agent.onPacket hmacSha1 data sender rand).1
        delivered := s.delivered ++ [(data, s.requests)] }
  | .sendBindingRequest _ draws =>
      { s with requests := s.requests ++ [(s.agent.bindingRequest hmacSha1 draws).transactionId] }

end Session

/-- Some packet delivered so far was authenticated. -/
def Verified (s : Session) : Prop :=
  ∃ d ∈ s.delivered, Authenticated hmacSha1 s.agent d.2 d.1

/-- A packet that is not authenticated neither changes the flag nor is answered. -/
def Unmoved (s : Session) : Event → Prop
  | .packet data sender rand =>
      ¬ Authenticated hmacSha1 s.agent s.requests data →
        (s.agent.onPacket hmacSha1 data sender rand).1.connected = s.agent.connected ∧
        (s.agent.onPacket hmacSha1 data sender rand).2 = none
  | .sendBindingRequest _ _ => True

/-- An event leaves a session connected only if it has been verified, and packets that are not
authenticated do nothing. -/
def Guarded (s : Session) (ev : Event) : Prop :=
  ((s.step hmacSha1 ev).agent.connected = true → Verified hmacSha1 (s.step hmacSha1 ev)) ∧
    Unmoved hmacSha1 s ev

/-- A packet that is not authenticated is no request other than one with a wrong user name, and no
response that comes before the agent is connected. -/
def Screened (s : Session) : Event → Prop
  | .packet data _ _ =>
      Authenticated hmacSha1 s.agent s.requests data ∨
        ∀ msg, Decodes data msg →
          (msg.type = .bindingRequest → ¬ s.agent.AcceptsUsername msg) ∧
          (msg.type = .bindingResponse → s.agent.connected = true)
  | .sendBindingRequest _ _ => True

/-! ## One event -/

variable {hmacSha1} {s : Session}

/-- What an agent authenticates does not depend on whether it is connected. -/
theorem authenticated_connected (connected : Bool) (requests : List TransactionId)
    (data : List UInt8) :
    Authenticated hmacSha1 { s.agent with connected := connected } requests data ↔
      Authenticated hmacSha1 s.agent requests data := Iff.rfl

theorem authenticated_step (ev : Event) (requests : List TransactionId) (data : List UInt8) :
    Authenticated hmacSha1 (s.step hmacSha1 ev).agent requests data ↔
      Authenticated hmacSha1 s.agent requests data := by
  cases ev with
  | packet data' sender rand =>
      rw [Session.step, onPacket_agent]
      exact authenticated_connected _ requests data
  | sendBindingRequest dst draws => exact Iff.rfl

theorem Verified.step (h : Verified hmacSha1 s) (ev : Event) :
    Verified hmacSha1 (s.step hmacSha1 ev) := by
  obtain ⟨d, hd, hauth⟩ := h
  refine ⟨d, ?_, (authenticated_step ev d.2 d.1).2 hauth⟩
  cases ev with
  | packet data sender rand => exact List.mem_append_left _ hd
  | sendBindingRequest dst draws => exact hd

/-- An authenticated packet verifies the session. -/
theorem verified_packet {data : List UInt8}
    (hauth : Authenticated hmacSha1 s.agent s.requests data) (sender : SockAddrIn)
    (rand : Fin 12 → UInt32) :
    Verified hmacSha1 (s.step hmacSha1 (.packet data sender rand)) := by
  refine ⟨(data, s.requests), List.mem_append_right _ (List.mem_singleton_self _), ?_⟩
  exact (authenticated_step _ _ _).2 hauth

variable (sender : SockAddrIn) (rand : Fin 12 → UInt32)

/-- A message does nothing exactly when it is rejected or has nothing left to change. -/
theorem idle_iff_of_decodes {data : List UInt8} {msg : StunMessage} (hmsg : Decodes data msg) :
    ((s.agent.onPacket hmacSha1 data sender rand).1.connected = s.agent.connected ∧
        (s.agent.onPacket hmacSha1 data sender rand).2 = none) ↔
      (msg.type = .bindingRequest → ¬ s.agent.AcceptsUsername msg) ∧
        (msg.type = .bindingResponse → s.agent.connected = true) := by
  by_cases hreq : msg.type = .bindingRequest
  · have hresp : msg.type ≠ .bindingResponse := by
      rw [hreq]
      decide
    by_cases haccepts : s.agent.AcceptsUsername msg
    · -- the request is answered
      rw [onPacket_request hmacSha1 s.agent sender rand hmsg hreq haccepts]
      constructor
      · rintro ⟨-, hreply⟩
        cases hreply
      · rintro ⟨hrejects, -⟩
        exact absurd haccepts (hrejects hreq)
    · rw [onPacket_wrong_username hmacSha1 s.agent sender rand hmsg hreq haccepts]
      exact iff_of_true ⟨rfl, rfl⟩ ⟨fun _ => haccepts, fun h => absurd h hresp⟩
  · by_cases hresp : msg.type = .bindingResponse
    · -- a response is never answered and sets the flag
      rw [onPacket_response hmacSha1 s.agent sender rand hmsg hresp]
      constructor
      · rintro ⟨hconnected, -⟩
        exact ⟨fun h => absurd h hreq, fun _ => hconnected.symm⟩
      · rintro ⟨-, hconnected⟩
        exact ⟨(hconnected hresp).symm, rfl⟩
    · rw [onPacket_other hmacSha1 s.agent sender rand hmsg hreq hresp]
      exact iff_of_true ⟨rfl, rfl⟩ ⟨fun h => absurd h hreq, fun h => absurd h hresp⟩

/-- Nothing happens exactly on what is not accepted, except that a connected agent may hear more
responses. -/
theorem idle_iff (data : List UInt8) :
    ((s.agent.onPacket hmacSha1 data sender rand).1.connected = s.agent.connected ∧
        (s.agent.onPacket hmacSha1 data sender rand).2 = none) ↔
      ∀ msg, Decodes data msg →
        (msg.type = .bindingRequest → ¬ s.agent.AcceptsUsername msg) ∧
        (msg.type = .bindingResponse → s.agent.connected = true) := by
  by_cases hdecodes : ∃ msg, Decodes data msg
  · obtain ⟨msg, hmsg⟩ := hdecodes
    rw [idle_iff_of_decodes sender rand hmsg]
    constructor
    · intro h msg' hmsg'
      rwa [← hmsg.unique hmsg']
    · intro h
      exact h msg hmsg
  · rw [not_exists] at hdecodes
    rw [onPacket_of_not_decodes hmacSha1 s.agent sender rand hdecodes]
    exact iff_of_true ⟨rfl, rfl⟩ fun msg hmsg => absurd hmsg (hdecodes msg)

/-- An event moves nothing exactly when it is screened. -/
theorem unmoved_iff (ev : Event) : Unmoved hmacSha1 s ev ↔ Screened hmacSha1 s ev := by
  cases ev with
  | packet data sender rand =>
      rw [Unmoved, Screened, idle_iff, or_iff_not_imp_left]
  | sendBindingRequest dst draws => exact Iff.rfl

/-- A step that moves only on authenticated packets keeps connected sessions verified. -/
theorem verified_of_unmoved (h : s.agent.connected = true → Verified hmacSha1 s) {ev : Event}
    (hev : Unmoved hmacSha1 s ev) (hconnected : (s.step hmacSha1 ev).agent.connected = true) :
    Verified hmacSha1 (s.step hmacSha1 ev) := by
  cases ev with
  | packet data sender rand =>
      by_cases hauth : Authenticated hmacSha1 s.agent s.requests data
      · exact verified_packet hauth sender rand
      · -- the flag was set before, by a packet that was authenticated
        have hsame := (hev hauth).1
        exact (h (hsame.symm.trans hconnected)).step _
  | sendBindingRequest dst draws => exact (h hconnected).step _

/-! ## Whole runs -/

/-- In a run of a session, connecting takes an authenticated packet and other packets do nothing,
at every event, exactly when every packet is screened. -/
theorem guarded_along_iff (role : IceRole) (localUfrag localPwd remoteUfrag remotePwd : List UInt8)
    (events : List Event) :
    Along (Session.step hmacSha1) (Guarded hmacSha1)
        (.start role localUfrag localPwd remoteUfrag remotePwd) events ↔
      Along (Session.step hmacSha1) (Screened hmacSha1)
        (.start role localUfrag localPwd remoteUfrag remotePwd) events := by
  refine along_congr (I := fun s => s.agent.connected = true → Verified hmacSha1 s) ?_ ?_ ?_ events
  · intro s ev _ hguarded
    exact hguarded.1
  · intro s ev h
    rw [Guarded, ← unmoved_iff]
    exact and_iff_right_of_imp fun hev => verified_of_unmoved h hev
  · intro hconnected
    cases hconnected

/-- A request without attributes, which anyone can send. -/
def bareRequest : List UInt8 := [0, 1, 0, 0, 0x21, 0x12, 0xA4, 0x42] ++ List.replicate 12 0

theorem decodes_bareRequest : Decodes bareRequest {} := by
  refine ⟨by decide, ?_⟩
  have hattrs : StunMessage.parseAttrs bareRequest 20 20 [] = some (true, []) := by
    rw [StunMessage.parseAttrs, if_neg (by omega)]
    rfl
  have hcookie : readU32 bareRequest 4 = some stunMagicCookie := by decide
  have htype : readU16 bareRequest 0 = some 1 := by decide
  have hlength : readU16 bareRequest 2 = some 0 := by decide
  have htid : readVector bareRequest 8 12 = some (Vector.replicate 12 0) := by decide
  rw [StunMessage.parse, if_neg (by decide), hcookie, htype, hlength, htid]
  exact congrArg (fun r => r.bind fun r => some (r.1, ({ attrs := r.2 } : StunMessage))) hattrs

/-- The empty request connects an agent that knows nobody. -/
theorem unguarded_along_bareRequest :
    ¬ ∀ (hmacSha1 : List UInt8 → List UInt8 → Vector UInt8 20) (role : IceRole)
      (localUfrag localPwd remoteUfrag remotePwd : List UInt8) (events : List Event),
      Along (Session.step hmacSha1) (Guarded hmacSha1)
        (.start role localUfrag localPwd remoteUfrag remotePwd) events := by
  intro hclaim
  have hguarded := hclaim (fun _ _ => Vector.replicate 20 0) .controlled [1] [2] [3] [4]
    [.packet bareRequest ⟨0, 0⟩ fun _ => 0]
  have hunauthenticated : ¬ Authenticated (fun _ _ => Vector.replicate 20 0)
      (Session.start .controlled [1] [2] [3] [4]).agent [] bareRequest := by
    rintro ⟨msg, hmsg, hchecked⟩
    obtain rfl := decodes_bareRequest.unique hmsg
    rcases hchecked with ⟨-, husername, -⟩ | ⟨-, hrequested⟩
    · cases husername
    · cases hrequested
  have hunmoved := hguarded.1.2 hunauthenticated
  have haccepts := acceptsUsername_of_eq_none (Session.start .controlled [1] [2] [3] [4]).agent
    (show ({} : StunMessage).getStringAttr .username = none from rfl)
  rw [onPacket_request _ _ _ _ decodes_bareRequest rfl haccepts] at hunmoved
  cases hunmoved.2

end CppMeet.Ice.Connectivity
