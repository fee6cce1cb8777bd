import CppMeet.Ice.Stun

/-!
# ICE agents

`IceAgent` answers connectivity checks and issues them. `onPacket` returns the agent after a UDP
packet and what it sends, `sendBindingRequest` what it sends for a check of its own. The agent is
for host candidates only, and the candidates take part in neither function.

`onPacket_of_decodes` and `onPacket_of_not_decodes` say what a packet does.
-/

set_option autoImplicit false

namespace CppMeet.Ice.Agent

open CppMeet.Ice.Stun

/-- Which side nominates. -/
inductive IceRole where
  | controlling
  | controlled
  deriving DecidableEq, Repr

/-- A socket address; both fields are in network byte order. -/
structure SockAddrIn where
  sAddr : UInt32
  sinPort : UInt16
  deriving DecidableEq, Repr

/-- What `rand()` returns while a request is built. -/
structure Draws where
  transactionId : Fin 12 → UInt32
  tiebreakerHigh : UInt32
  tiebreakerLow : UInt32

/-- The role and the credentials of one side, and whether it is connected. -/
structure IceAgent where
  role : IceRole
  localUfrag : List UInt8
  localPwd : List UInt8
  remoteUfrag : List UInt8 := []
  remotePwd : List UInt8 := []
  connected : Bool := false
  deriving DecidableEq, Repr

namespace IceAgent

/-- An agent that does not know the credentials of the other side yet. -/
def new (role : IceRole) (localUfrag localPwd : List UInt8) : IceAgent :=
  { role := role, localUfrag := localUfrag, localPwd := localPwd }

variable (hmacSha1 : List UInt8 → List UInt8 → Vector UInt8 20) (agent : IceAgent)

/-- The credentials that signaling brought from the other side. -/
def setRemoteCredentials (ufrag pwd : List UInt8) : IceAgent :=
  { agent with remoteUfrag := ufrag, remotePwd := pwd }

/-- The user name of a request to this agent, `local_ufrag:remote_ufrag`. -/
def expectedUsername : List UInt8 := agent.localUfrag ++ [58] ++ agent.remoteUfrag

/-- The response to a request. -/
def bindingResponse (req : StunMessage) (sender : SockAddrIn) (rand : Fin 12 → UInt32) :
    StunMessage :=
  (((StunMessage.ofType .bindingResponse rand).setTransactionId req.transactionId
    |>.addXorMappedAddress sender.sAddr (ntohs sender.sinPort)
    |>.addMessageIntegrity hmacSha1 agent.localPwd)
    |>.addFingerprint)

/-- What arrives is answered if it is a request for this agent, and taken for a connection if it is
any response. -/
def onPacket (data : List UInt8) (sender : SockAddrIn) (rand : Fin 12 → UInt32) :
    IceAgent × Option (List UInt8 × SockAddrIn) :=
  let answer (req : StunMessage) : IceAgent × Option (List UInt8 × SockAddrIn) :=
    ({ agent with connected := true },
      some ((agent.bindingResponse hmacSha1 req sender rand).serialize, sender))
  if StunMessage.isStun data then
    match ({} : StunMessage).parse data with
    | some (true, req) =>
        if req.type = .bindingRequest then
          -- the user name is compared when there is one
          match req.getStringAttr .username with
          | some username =>
              if username ≠ agent.expectedUsername then (agent, none) else answer req
          | none => answer req
        else if req.type = .bindingResponse then ({ agent with connected := true }, none)
        else (agent, none)
    | _ => (agent, none)
  else (agent, none)

/-- The request of a connectivity check. -/
def bindingRequest (draws : Draws) : StunMessage :=
  let tiebreaker : UInt64 :=
    (draws.tiebreakerHigh.toUInt64 <<< 32) ||| draws.tiebreakerLow.toUInt64
  -- the eight bytes, highest first
  let tbBytes := (List.range 8).map fun i =>
    ((tiebreaker >>> UInt64.ofNat (56 - i * 8)) &&& 0xFF).toUInt8
  let roleAttr : StunAttr := match agent.role with
    | .controlling => .iceControlling
    | .controlled => .iceControlled
  let priority : UInt32 := ((110 : UInt32) <<< 24) ||| ((65535 : UInt32) <<< 8) ||| 255
  (StunMessage.ofType .bindingRequest draws.transactionId
    |>.addStringAttr .username (agent.remoteUfrag ++ [58] ++ agent.localUfrag)
    |>.addUint32Attr .priority priority
    |>.addStringAttr roleAttr tbBytes
    |>.addMessageIntegrity hmacSha1 agent.remotePwd)
    |>.addFingerprint

/-- The packet of a check, and where it goes. -/
def sendBindingRequest (dst : SockAddrIn) (draws : Draws) : List UInt8 × SockAddrIn :=
  ((agent.bindingRequest hmacSha1 draws).serialize, dst)

/-! ## What a packet does -/

/-- The packet is taken for a STUN message and parsed. -/
def Decodes (data : List UInt8) (msg : StunMessage) : Prop :=
  StunMessage.isStun data = true ∧ ({} : StunMessage).parse data = some (true, msg)

instance (data : List UInt8) (msg : StunMessage) : Decidable (Decodes data msg) :=
  inferInstanceAs (Decidable (_ ∧ _))

/-- The code finds nothing wrong with the user name: there is none, or it is the expected one. -/
def AcceptsUsername (req : StunMessage) : Prop :=
  ∀ username ∈ req.getStringAttr .username, username = agent.expectedUsername

/-- A request without a user name is not checked. -/
theorem acceptsUsername_of_eq_none {req : StunMessage} (h : req.getStringAttr .username = none) :
    agent.AcceptsUsername req := by
  intro username hsome
  rw [h] at hsome
  cases hsome

theorem acceptsUsername_iff {req : StunMessage} {username : List UInt8}
    (h : req.getStringAttr .username = some username) :
    agent.AcceptsUsername req ↔ username = agent.expectedUsername := by
  constructor
  · intro haccepts
    exact haccepts username h
  · rintro rfl username' hsome
    exact (Option.some.inj (h.symm.trans hsome)).symm

theorem Decodes.unique {data : List UInt8} {msg msg' : StunMessage} (h : Decodes data msg)
    (h' : Decodes data msg') : msg = msg' :=
  congrArg Prod.snd (Option.some.inj (h.2.symm.trans h'.2))

variable {data : List UInt8} {msg : StunMessage} (sender : SockAddrIn) (rand : Fin 12 → UInt32)

theorem onPacket_of_not_decodes (h : ∀ msg, ¬ Decodes data msg) :
    agent.onPacket hmacSha1 data sender rand = (agent, none) := by
  by_cases hstun : StunMessage.isStun data = true
  · obtain ⟨ok, msg, hparse⟩ := StunMessage.exists_parse {} data
    cases ok with
    | false => simp only [onPacket, if_pos hstun, hparse]
    | true => exact absurd ⟨hstun, hparse⟩ (h msg)
  · simp only [onPacket, if_neg hstun]

/-- A request is answered unless its user name is wrong. -/
theorem onPacket_request (h : Decodes data msg) (hreq : msg.type = .bindingRequest)
    (haccepts : agent.AcceptsUsername msg) :
    agent.onPacket hmacSha1 data sender rand = ({ agent with connected := true },
      some ((agent.bindingResponse hmacSha1 msg sender rand).serialize, sender)) := by
  simp only [onPacket, if_pos h.1, h.2, if_pos hreq]
  cases husername : msg.getStringAttr .username with
  | none => rfl
  | some username => exact if_neg (not_not.2 (haccepts username husername))

/-- A request with another user name is ignored. -/
theorem onPacket_wrong_username (h : Decodes data msg) (hreq : msg.type = .bindingRequest)
    (hrejects : ¬ agent.AcceptsUsername msg) :
    agent.onPacket hmacSha1 data sender rand = (agent, none) := by
  simp only [onPacket, if_pos h.1, h.2, if_pos hreq]
  cases husername : msg.getStringAttr .username with
  | none => exact absurd (agent.acceptsUsername_of_eq_none husername) hrejects
  | some username => exact if_pos fun heq => hrejects ((agent.acceptsUsername_iff husername).2 heq)

theorem onPacket_response (h : Decodes data msg) (hresp : msg.type = .bindingResponse) :
    agent.onPacket hmacSha1 data sender rand = ({ agent with connected := true }, none) := by
  have hreq : msg.type ≠ .bindingRequest := by
    rw [hresp]
    decide
  simp only [onPacket, if_pos h.1, h.2, if_neg hreq, if_pos hresp]

/-- Indications and unknown types are ignored. -/
theorem onPacket_other (h : Decodes data msg) (hreq : msg.type ≠ .bindingRequest)
    (hresp : msg.type ≠ .bindingResponse) :
    agent.onPacket hmacSha1 data sender rand = (agent, none) := by
  simp only [onPacket, if_pos h.1, h.2, if_neg hreq, if_neg hresp]

/-- A packet changes nothing in an agent but the flag. -/
theorem onPacket_agent (data : List UInt8) :
    (agent.onPacket hmacSha1 data sender rand).1 =
      { agent with connected := (agent.onPacket hmacSha1 data sender rand).1.connected } := by
  simp only [onPacket]
  split_ifs with hstun
  · split
    · next req hparse =>
      split_ifs with hreq hresp
      · split
        · split_ifs with husername
          · rfl
          · rfl
        · rfl
      · rfl
      · rfl
    · rfl
  · rfl

end IceAgent

end CppMeet.Ice.Agent
