import CppMeet.Ice.Handshake
import CppMeet.Lib.Run

/-!
# Two agents and a network

Two agents with fixed credentials check their connectivity over one path. The network keeps every
packet that was sent: it may deliver it late, out of order, more than once or never, and it chooses
the source address that the receiver sees. Packets that are not STUN share the sockets. No packet
is forged.

`Origin` is the invariant of what is in flight: a packet is a request of the peer, or the answer of
the peer to a request that reached it. `checks_sound` reads off what the two ends know of each
other. Compare `Connectivity.guarded_along_iff`, where packets come from anywhere.
-/

set_option autoImplicit false

namespace CppMeet.Ice.Network

open CppMeet.Lib.Buffer CppMeet.Lib.Run CppMeet.Ice.Stun CppMeet.Ice.StunRoundTrip
open CppMeet.Ice.Agent CppMeet.Ice.Agent.IceAgent CppMeet.Ice.Handshake

/-- The two ends of the path. -/
inductive Side where
  | caller
  | callee
  deriving DecidableEq, Repr

/-- The other side. -/
def Side.peer : Side → Side
  | .caller => .callee
  | .callee => .caller

@[simp] theorem Side.peer_peer (p : Side) : p.peer.peer = p := by
  cases p with
  | caller => rfl
  | callee => rfl

/-- One step of the network: a check, a delivery in any order and any number of times, or other
traffic. -/
inductive Event where
  | sendBindingRequest (p : Side) (dst : SockAddrIn) (draws : Draws)
  /-- Packet number `i` of those sent to `p` arrives. -/
  | deliver (p : Side) (i : ℕ) (src : SockAddrIn) (rand : Fin 12 → UInt32)
  /-- Something else arrives. -/
  | media (p : Side) (data : {data : List UInt8 // StunMessage.isStun data = false})
      (src : SockAddrIn) (rand : Fin 12 → UInt32)

/-- `sent p` holds the packets sent to `p`, `checks p` the draws of the requests of `p`, and
`delivered p` the packets of the peer that reached `p`, with the source address. -/
structure Net where
  agent : Side → IceAgent
  sent : Side → List (List UInt8)
  checks : Side → List Draws
  delivered : Side → List (List UInt8 × SockAddrIn)

namespace Net

/-- The agents as they are constructed. -/
def start (agents : Side → IceAgent) : Net where
  agent p := { agents p with connected := false }
  sent _ := []
  checks _ := []
  delivered _ := []

variable (hmacSha1 : List UInt8 → List UInt8 → Vector UInt8 20) (n : Net)

/-- A packet for the agent at `p`. What the agent sends goes to its peer. -/
def onPacket (p : Side) (data : List UInt8) (src : SockAddrIn) (rand : Fin 12 → UInt32) : Net :=
  let result := (n.agent p).onPacket hmacSha1 data src rand
  { n with
    agent := Function.update n.agent p result.1
    sent := Function.update n.sent p.peer (n.sent p.peer ++ (result.2.map Prod.fst).toList) }

/-- A packet of the peer. -/
def receive (p : Side) (data : List UInt8) (src : SockAddrIn) (rand : Fin 12 → UInt32) : Net :=
  { n.onPacket hmacSha1 p data src rand with
    delivered := Function.update n.delivered p (n.delivered p ++ [(data, src)]) }

/-- A check goes to the other side; what arrives is handled by its receiver, whose answer goes
back. -/
def step (n : Net) : Event → Net
  | .sendBindingRequest p dst draws =>
      { n with
        sent := Function.update n.sent p.peer
          (n.sent p.peer ++ [((n.agent p).sendBindingRequest hmacSha1 dst draws).1])
        checks := Function.update n.checks p (n.checks p ++ [draws]) }
  | .deliver p i src rand =>
      match (n.sent p)[i]? with
      | some data => n.receive hmacSha1 p data src rand
      | none => n
  | .media p data src rand => n.onPacket hmacSha1 p data.1 src rand

end Net

/-! ## What the two ends know -/

variable (hmacSha1 : List UInt8 → List UInt8 → Vector UInt8 20) (agents : Side → IceAgent)

/-- The user name in the requests of the peer is the one that `p` expects. -/
def Expects (p : Side) : Prop :=
  (agents p.peer).remoteUfrag ++ [58] ++ (agents p.peer).localUfrag = (agents p).expectedUsername

instance (p : Side) : Decidable (Expects agents p) := inferInstanceAs (Decidable (_ = _))

/-- A message of the type has reached `p`. -/
def Heard (n : Net) (p : Side) (type : StunType) : Prop :=
  ∃ d ∈ n.delivered p, ∃ msg, Decodes d.1 msg ∧ msg.type = type

/-- The message answers a check of `p`: the request reached the peer from the address that the
message reports. -/
def Answers (n : Net) (p : Side) (msg : StunMessage) : Prop :=
  ∃ draws ∈ n.checks p, ∃ src,
    (((agents p).bindingRequest hmacSha1 draws).serialize, src) ∈ n.delivered p.peer ∧
    msg.transactionId = ((agents p).bindingRequest hmacSha1 draws).transactionId ∧
    msg.getXorMappedAddress = some (src.sAddr, ntohs src.sinPort)

/-- The length that the credentials may have for the requests to fit. -/
def Fits : Prop := ∀ p, (agents p).remoteUfrag.length + (agents p).localUfrag.length ≤ 65475

instance : Decidable (Fits agents) :=
  decidable_of_iff (∀ p ∈ [Side.caller, Side.callee],
      (agents p).remoteUfrag.length + (agents p).localUfrag.length ≤ 65475) <| by
    constructor
    · intro h p
      cases p with
      | caller => exact h .caller (by decide)
      | callee => exact h .callee (by decide)
    · exact fun h p _ => h p

/-- Where a packet that was sent to `p` comes from. -/
inductive Origin (n : Net) (p : Side) : List UInt8 → Prop where
  | request {draws : Draws} : draws ∈ n.checks p.peer →
      Origin n p ((agents p.peer).bindingRequest hmacSha1 draws).serialize
  | response {draws : Draws} {src : SockAddrIn} {rand : Fin 12 → UInt32} : draws ∈ n.checks p →
      (((agents p).bindingRequest hmacSha1 draws).serialize, src) ∈ n.delivered p.peer →
      Expects agents p.peer →
      Origin n p ((agents p.peer).bindingResponse hmacSha1
        ((agents p).bindingRequest hmacSha1 draws) src rand).serialize

/-- Every request that `p` expects and that has reached it is answered. -/
def Replied (n : Net) (p : Side) : Prop :=
  Expects agents p → ∀ d ∈ n.delivered p, ∀ msg, Decodes d.1 msg → msg.type = .bindingRequest →
    ∃ data ∈ n.sent p.peer, ∃ reply, Decodes data reply ∧ reply.type = .bindingResponse ∧
      reply.transactionId = msg.transactionId

/-- The invariant of the runs. -/
structure Inv (n : Net) : Prop where
  agent : ∀ p, n.agent p = { agents p with connected := (n.agent p).connected }
  origin : ∀ p, ∀ data ∈ n.sent p, Origin hmacSha1 agents n p data
  delivered : ∀ p, ∀ d ∈ n.delivered p, d.1 ∈ n.sent p
  connected : ∀ p, (n.agent p).connected = true ↔
    Expects agents p ∧ Heard n p .bindingRequest ∨ Heard n p .bindingResponse
  replied : ∀ p, Replied agents n p

variable {hmacSha1 agents} {n : Net}

/-! ## Packets of the two agents -/

/-- The user name with its padding, and 56 bytes of the other attributes. -/
theorem length_attrs_bindingRequest (agent : IceAgent) (draws : Draws) :
    (serializeAttrs (agent.bindingRequest hmacSha1 draws).attrs).length =
      agent.remoteUfrag.length + agent.localUfrag.length + 1 +
        pad (agent.remoteUfrag.length + agent.localUfrag.length + 1) + 56 := by
  have husername : (agent.remoteUfrag ++ [58] ++ agent.localUfrag).length =
      agent.remoteUfrag.length + agent.localUfrag.length + 1 := by
    rw [List.length_append, List.length_append, List.length_singleton]
    omega
  have hrole (tiebreaker : UInt64) : ((List.range 8).map fun i =>
      ((tiebreaker >>> UInt64.ofNat (56 - i * 8)) &&& 0xFF).toUInt8).length = 8 := by
    rw [List.length_map, List.length_range]
  rw [bindingRequest, length_addFingerprint, length_addMessageIntegrity, StunMessage.addStringAttr,
    length_serializeAttrs_concat _ _ 8 (hrole _), StunMessage.addUint32Attr,
    length_serializeAttrs_concat _ _ 4 rfl, StunMessage.addStringAttr,
    length_serializeAttrs_concat _ _ _ husername]
  generalize agent.remoteUfrag.length + agent.localUfrag.length + 1 = len
  have hpad4 : pad 4 = 0 := rfl
  have hpad8 : pad 8 = 0 := rfl
  have hnil : (serializeAttrs (StunMessage.ofType .bindingRequest draws.transactionId).attrs).length
      = 0 := rfl
  rw [hpad4, hpad8, hnil]
  omega

/-- A request that fits its length field is read back as it was made. -/
theorem decodes_bindingRequest (hfits : Fits agents) (p : Side) (draws : Draws) :
    Decodes ((agents p).bindingRequest hmacSha1 draws).serialize
      ((agents p).bindingRequest hmacSha1 draws) := by
  apply decodes_serialize
  · rw [bindingRequest_type]
    decide
  · have hlength := hfits p
    rw [length_attrs_bindingRequest, pad]
    omega

/-- What is sent to `p` is a request, or the response of a peer that expects the user name. -/
theorem Origin.decodes (hfits : Fits agents) {p : Side} {data : List UInt8}
    (h : Origin hmacSha1 agents n p data) :
    (∃ msg, Decodes data msg ∧ msg.type = .bindingRequest ∧
      ((agents p).AcceptsUsername msg ↔ Expects agents p)) ∨
    ∃ msg, Decodes data msg ∧ msg.type = .bindingResponse ∧ Expects agents p.peer ∧
      Answers hmacSha1 agents n p msg := by
  cases h with
  | @request draws hcheck =>
      refine Or.inl ⟨_, decodes_bindingRequest hfits p.peer draws, rfl, ?_⟩
      exact acceptsUsername_bindingRequest hmacSha1 (agents p.peer) (agents p) draws
  | @response draws src rand hcheck hdelivered hexpects =>
      refine Or.inr ⟨_, decodes_bindingResponse hmacSha1 (agents p.peer) _ src rand, rfl, hexpects,
        draws, hcheck, src, hdelivered, ?_, ?_⟩
      · exact bindingResponse_transactionId hmacSha1 (agents p.peer) _ src rand
      · exact getXorMappedAddress_bindingResponse hmacSha1 (agents p.peer) _ src rand

/-- Nothing is taken back. -/
structure Grows (n n' : Net) : Prop where
  sent : ∀ p, n.sent p ⊆ n'.sent p
  checks : ∀ p, n.checks p ⊆ n'.checks p
  delivered : ∀ p, n.delivered p ⊆ n'.delivered p

/-- What has an origin keeps it while the network grows. -/
theorem Origin.mono {n' : Net} (h : Grows n n') {p : Side} {data : List UInt8}
    (horigin : Origin hmacSha1 agents n p data) : Origin hmacSha1 agents n' p data := by
  cases horigin with
  | request hcheck => exact .request (h.checks _ hcheck)
  | response hcheck hdelivered hexpects =>
      exact .response (h.checks _ hcheck) (h.delivered _ hdelivered) hexpects

theorem mem_update {β : Type*} (f : Side → List β) (p : Side) (more : List β) (q : Side) (x : β) :
    x ∈ Function.update f p (f p ++ more) q ↔ x ∈ f q ∨ q = p ∧ x ∈ more := by
  rcases eq_or_ne q p with rfl | hne
  · rw [Function.update_self, List.mem_append, and_iff_right rfl]
  · rw [Function.update_of_ne hne, or_iff_left fun h => hne h.1]

theorem subset_update {β : Type*} (f : Side → List β) (p : Side) (more : List β) (q : Side) :
    f q ⊆ Function.update f p (f p ++ more) q :=
  fun x hx => (mem_update f p more q x).2 (Or.inl hx)

/-- The reception of a packet takes nothing back. -/
theorem grows_receive (n : Net) (p : Side) (data : List UInt8) (src : SockAddrIn)
    (rand : Fin 12 → UInt32) : Grows n (n.receive hmacSha1 p data src rand) where
  sent := subset_update _ _ _
  checks _ := List.Subset.refl _
  delivered := subset_update _ _ _

/-- A reception sends at most the answer, to the other side. -/
theorem mem_sent_receive {p q : Side} {data data' : List UInt8} {src : SockAddrIn}
    {rand : Fin 12 → UInt32} :
    data' ∈ (n.receive hmacSha1 p data src rand).sent q ↔ data' ∈ n.sent q ∨
      q = p.peer ∧ ∃ reply ∈ ((n.agent p).onPacket hmacSha1 data src rand).2, data' = reply.1 := by
  refine (mem_update _ _ _ _ _).trans (or_congr_right (and_congr_right fun _ => ?_))
  rw [Option.mem_toList]
  refine Option.map_eq_some_iff.trans ?_
  exact exists_congr fun reply => and_congr_right fun _ => eq_comm

theorem mem_delivered_receive {p q : Side} {data : List UInt8} {d : List UInt8 × SockAddrIn}
    {src : SockAddrIn} {rand : Fin 12 → UInt32} :
    d ∈ (n.receive hmacSha1 p data src rand).delivered q ↔
      d ∈ n.delivered q ∨ q = p ∧ d = (data, src) := by
  refine (mem_update _ _ _ _ _).trans (or_congr_right (and_congr_right fun _ => ?_))
  exact List.mem_singleton

/-- The other side does not notice a reception. -/
theorem agent_receive_of_ne {p q : Side} (hq : q ≠ p) (data : List UInt8) (src : SockAddrIn)
    (rand : Fin 12 → UInt32) : (n.receive hmacSha1 p data src rand).agent q = n.agent q :=
  Function.update_of_ne hq ..

theorem agent_receive (p : Side) (data : List UInt8) (src : SockAddrIn) (rand : Fin 12 → UInt32) :
    (n.receive hmacSha1 p data src rand).agent p =
      ((n.agent p).onPacket hmacSha1 data src rand).1 := Function.update_self ..

/-! ## One packet -/

section Receive

variable {p : Side} {data : List UInt8} (src : SockAddrIn) (rand : Fin 12 → UInt32)

/-- The answer to a request of the peer. -/
theorem Origin.reply {draws : Draws} (hcheck : draws ∈ n.checks p.peer)
    (hdelivered : (((agents p.peer).bindingRequest hmacSha1 draws).serialize, src) ∈ n.delivered p)
    (hexpects : Expects agents p) :
    Origin hmacSha1 agents n p.peer ((agents p).bindingResponse hmacSha1
      ((agents p.peer).bindingRequest hmacSha1 draws) src rand).serialize := by
  have hp := p.peer_peer
  have h := @Origin.response hmacSha1 agents n p.peer draws src rand
  rw [hp] at h
  exact h hcheck hdelivered hexpects

/-- A packet of the peer is an expected request, which is answered, an unexpected one, which is
dropped, or a response. -/
theorem onPacket_cases (hfits : Fits agents) (h : Inv hmacSha1 agents n) (hmem : data ∈ n.sent p) :
    ∃ msg, Decodes data msg ∧
      (msg.type = .bindingRequest ∧ Expects agents p ∧
        (∃ reply, (n.agent p).onPacket hmacSha1 data src rand =
            ({ n.agent p with connected := true }, some (StunMessage.serialize reply, src)) ∧
          Decodes reply.serialize reply ∧ reply.type = .bindingResponse ∧
          reply.transactionId = msg.transactionId ∧
          Origin hmacSha1 agents (n.receive hmacSha1 p data src rand) p.peer reply.serialize) ∨
      msg.type = .bindingRequest ∧ ¬Expects agents p ∧
        (n.agent p).onPacket hmacSha1 data src rand = (n.agent p, none) ∨
      msg.type = .bindingResponse ∧
        (n.agent p).onPacket hmacSha1 data src rand =
          ({ n.agent p with connected := true }, none)) := by
  have hagent := h.agent p
  cases h.origin p data hmem with
  | @request draws hcheck =>
      have hdecodes : Decodes ((agents p.peer).bindingRequest hmacSha1 draws).serialize _ :=
        decodes_bindingRequest hfits p.peer draws
      -- the flag takes no part in the comparison of the user names
      have haccepts : (n.agent p).AcceptsUsername
          ((agents p.peer).bindingRequest hmacSha1 draws) ↔ Expects agents p := by
        rw [hagent]
        exact acceptsUsername_bindingRequest hmacSha1 (agents p.peer) (agents p) draws
      refine ⟨_, hdecodes, ?_⟩
      by_cases hexpects : Expects agents p
      · refine Or.inl ⟨rfl, hexpects, _,
          onPacket_request hmacSha1 (n.agent p) src rand hdecodes rfl (haccepts.2 hexpects),
          decodes_bindingResponse hmacSha1 (n.agent p) _ src rand, rfl, rfl, ?_⟩
        rw [hagent]
        exact Origin.reply src rand hcheck (mem_delivered_receive.2 (Or.inr ⟨rfl, rfl⟩)) hexpects
      · refine Or.inr (Or.inl ⟨rfl, hexpects, ?_⟩)
        exact onPacket_wrong_username hmacSha1 (n.agent p) src rand hdecodes rfl
          fun h => hexpects (haccepts.1 h)
  | @response draws src' rand' hcheck hdelivered hexpects =>
      have hdecodes := decodes_bindingResponse hmacSha1 (agents p.peer)
        ((agents p).bindingRequest hmacSha1 draws) src' rand'
      refine ⟨_, hdecodes, Or.inr (Or.inr ⟨rfl, ?_⟩)⟩
      exact onPacket_response hmacSha1 (n.agent p) src rand hdecodes rfl

/-- What has reached a party after one more packet. -/
theorem heard_receive {msg : StunMessage} (hmsg : Decodes data msg) (q : Side) (type : StunType) :
    Heard (n.receive hmacSha1 p data src rand) q type ↔
      Heard n q type ∨ q = p ∧ msg.type = type := by
  have hlast : (∃ msg', Decodes data msg' ∧ msg'.type = type) ↔ msg.type = type := by
    constructor
    · rintro ⟨msg', hmsg', htype⟩
      rwa [hmsg.unique hmsg']
    · exact fun htype => ⟨msg, hmsg, htype⟩
  simp only [Heard, mem_delivered_receive, or_and_right, exists_or, and_assoc, exists_and_left,
    exists_eq_left, hlast]

/-- What the receipt of a genuine packet does to the receiver's connection. -/
theorem connected_receive (hfits : Fits agents) (h : Inv hmacSha1 agents n)
    (hmem : data ∈ n.sent p) {msg : StunMessage} (hmsg : Decodes data msg) :
    ((n.receive hmacSha1 p data src rand).agent p).connected = true ↔
      (n.agent p).connected = true ∨
        Expects agents p ∧ msg.type = .bindingRequest ∨ msg.type = .bindingResponse := by
  have hne : StunType.bindingRequest ≠ .bindingResponse := by decide
  obtain ⟨msg', hmsg', hcases⟩ := onPacket_cases src rand hfits h hmem
  obtain rfl := hmsg.unique hmsg'
  rw [agent_receive]
  rcases hcases with ⟨htype, hexpects, reply, heq, -⟩ | ⟨htype, hexpects, heq⟩ | ⟨htype, heq⟩
  · rw [heq]
    exact iff_of_true rfl (Or.inr (Or.inl ⟨hexpects, htype⟩))
  · rw [heq, htype, or_iff_left]
    rintro (⟨hexpects', -⟩ | hresponse)
    · exact hexpects hexpects'
    · exact hne hresponse
  · rw [heq]
    exact iff_of_true rfl (Or.inr (Or.inr htype))

/-- The receipt of a packet that was sent keeps the invariant. -/
theorem inv_receive (hfits : Fits agents) (h : Inv hmacSha1 agents n) (hmem : data ∈ n.sent p) :
    Inv hmacSha1 agents (n.receive hmacSha1 p data src rand) := by
  obtain ⟨msg, hmsg, hcases⟩ := onPacket_cases src rand hfits h hmem
  have hgrows : Grows n (n.receive hmacSha1 p data src rand) := grows_receive n p data src rand
  have hne : StunType.bindingRequest ≠ .bindingResponse := by decide
  constructor
  case agent =>
    intro q
    rcases eq_or_ne q p with rfl | hq
    · rw [agent_receive, onPacket_agent, h.agent q]
    · rw [agent_receive_of_ne hq]
      exact h.agent q
  case origin =>
    intro q data' hmem'
    rcases mem_sent_receive.1 hmem' with hold | ⟨rfl, reply', hreply', rfl⟩
    · -- a new packet is the reply to this one
      exact (h.origin q data' hold).mono hgrows
    · rcases hcases with ⟨-, -, reply, heq, -, -, -, horigin⟩ | ⟨-, -, heq⟩ | ⟨-, heq⟩
      · -- only an expected request is answered
        rw [heq] at hreply'
        cases hreply'
        exact horigin
      · rw [heq] at hreply'
        cases hreply'
      · rw [heq] at hreply'
        cases hreply'
  case delivered =>
    intro q d hd
    rcases mem_delivered_receive.1 hd with hold | ⟨rfl, rfl⟩
    · exact hgrows.sent q (h.delivered q d hold)
    · exact hgrows.sent q hmem
  case connected =>
    intro q
    rw [heard_receive src rand hmsg, heard_receive src rand hmsg]
    -- the flag of the receiver follows what it has heard, the other one stays
    rcases eq_or_ne q p with rfl | hq
    · rw [connected_receive src rand hfits h hmem hmsg, h.connected q]
      tauto
    · rw [agent_receive_of_ne hq, h.connected q]
      simp only [hq, false_and, or_false]
  case replied =>
    intro q hexpects d hd msg' hmsg' htype'
    rcases mem_delivered_receive.1 hd with hold | ⟨rfl, rfl⟩
    · obtain ⟨data', hdata', hreply⟩ := h.replied q hexpects d hold msg' hmsg' htype'
      exact ⟨data', hgrows.sent _ hdata', hreply⟩
    · obtain rfl := hmsg.unique hmsg'
      -- the packet that has just arrived, a request that its receiver expects
      rcases hcases with ⟨-, -, reply, heq, hdecodes, hresp, htid, -⟩ | ⟨-, hunexpected, -⟩ |
        ⟨hresp, -⟩
      · refine ⟨reply.serialize, mem_sent_receive.2 (Or.inr ⟨rfl, (reply.serialize, src), ?_, rfl⟩),
          reply, hdecodes, hresp, htid⟩
        rw [heq]
        rfl
      · exact absurd hexpects hunexpected
      · exact absurd (htype'.symm.trans hresp) hne

end Receive

/-! ## One event -/

theorem inv_start : Inv hmacSha1 agents (.start agents) where
  agent _ := rfl
  origin _ _ hmem := absurd hmem List.not_mem_nil
  delivered _ _ hmem := absurd hmem List.not_mem_nil
  connected p := by
    refine iff_of_false Bool.false_ne_true ?_
    rintro (⟨-, d, hd, -⟩ | ⟨d, hd, -⟩)
    · cases hd
    · cases hd
  replied _ _ _ hmem := absurd hmem List.not_mem_nil

/-- A packet that is not STUN leaves everything alone. -/
theorem onPacket_media (n : Net) (p : Side)
    (data : {data : List UInt8 // StunMessage.isStun data = false}) (src : SockAddrIn)
    (rand : Fin 12 → UInt32) : n.onPacket hmacSha1 p data.1 src rand = n := by
  have hmedia : ∀ msg, ¬Decodes data.1 msg := by
    intro msg hmsg
    rw [Decodes, data.2] at hmsg
    cases hmsg.1
  have hresult := onPacket_of_not_decodes hmacSha1 (n.agent p) src rand hmedia
  rw [Net.onPacket, hresult]
  simp only [Option.map_none, Option.toList_none, List.append_nil, Function.update_eq_self]

theorem inv_sendBindingRequest (h : Inv hmacSha1 agents n) (p : Side) (dst : SockAddrIn)
    (draws : Draws) : Inv hmacSha1 agents (n.step hmacSha1 (.sendBindingRequest p dst draws)) := by
  have hgrows : Grows n (n.step hmacSha1 (.sendBindingRequest p dst draws)) :=
    ⟨subset_update _ _ _, subset_update _ _ _, fun _ => List.Subset.refl _⟩
  constructor
  case agent => exact h.agent
  case origin =>
    intro q data hdata
    rcases (mem_update _ _ _ _ _).1 hdata with hold | ⟨rfl, hnew⟩
    · exact (h.origin q data hold).mono hgrows
    · rw [List.mem_singleton.1 hnew, sendBindingRequest, h.agent p]
      have hcheck : draws ∈ (n.step hmacSha1 (.sendBindingRequest p dst draws)).checks p :=
        (mem_update _ _ _ _ _).2 (Or.inr ⟨rfl, List.mem_singleton_self draws⟩)
      have horigin := @Origin.request hmacSha1 agents
        (n.step hmacSha1 (.sendBindingRequest p dst draws)) p.peer draws
      rw [p.peer_peer] at horigin
      exact horigin hcheck
  case delivered => exact fun q d hd => hgrows.sent q (h.delivered q d hd)
  case connected => exact h.connected
  case replied =>
    intro q hexpects d hd msg hmsg htype
    obtain ⟨data, hdata, hreply⟩ := h.replied q hexpects d hd msg hmsg htype
    exact ⟨data, hgrows.sent _ hdata, hreply⟩

theorem inv_step (hfits : Fits agents) (h : Inv hmacSha1 agents n) (ev : Event) :
    Inv hmacSha1 agents (n.step hmacSha1 ev) := by
  cases ev with
  | sendBindingRequest p dst draws => exact inv_sendBindingRequest h p dst draws
  | deliver p i src rand =>
      rw [Net.step]
      cases hdata : (n.sent p)[i]? with
      | none => exact h
      | some data => exact inv_receive src rand hfits h (List.mem_of_getElem? hdata)
  | media p data src rand =>
      rw [Net.step, onPacket_media]
      exact h

/-- The invariant holds in every state of the network. -/
theorem inv_reached (hfits : Fits agents) (events : List Event) :
    Inv hmacSha1 agents (run (Net.step hmacSha1) (.start agents) events) := by
  have hall : Along (Net.step hmacSha1) (fun _ _ => True) (.start agents) events :=
    along_of_forall (fun _ _ => trivial) _ _
  exact inv_run (I := Inv hmacSha1 agents) (fun _ ev h _ => inv_step hfits h ev) inv_start hall

/-! ## Whole runs -/

/-- In every run, a party is connected exactly when a request that it expects or a response has
reached it. A response answers one of its own requests, and then the peer is connected and expects
its user name; every expected request that has reached a party is answered. -/
theorem checks_sound (hmacSha1 : List UInt8 → List UInt8 → Vector UInt8 20)
    (agents : Side → IceAgent) (hfits : Fits agents) (events : List Event) (p : Side) :
    let n := run (Net.step hmacSha1) (.start agents) events
    ((n.agent p).connected = true ↔
      Expects agents p ∧ Heard n p .bindingRequest ∨ Heard n p .bindingResponse) ∧
    (∀ d ∈ n.delivered p, ∀ msg, Decodes d.1 msg → msg.type = .bindingResponse →
      Expects agents p.peer ∧ (n.agent p.peer).connected = true ∧ Answers hmacSha1 agents n p msg) ∧
    Replied agents n p := by
  intro n
  have h : Inv hmacSha1 agents n := inv_reached hfits events
  refine ⟨h.connected p, ?_, h.replied p⟩
  intro d hd msg hmsg hresp
  rcases (h.origin p d.1 (h.delivered p d hd)).decodes hfits with
    ⟨msg', hmsg', hreq, -⟩ | ⟨msg', hmsg', -, hexpects, hanswers⟩
  · rw [hmsg.unique hmsg', hreq] at hresp
    exact absurd hresp (by decide)
  · obtain rfl := hmsg.unique hmsg'
    obtain ⟨draws, -, src, hdelivered, -⟩ := id hanswers
    have hheard : Heard n p.peer .bindingRequest :=
      ⟨_, hdelivered, _, decodes_bindingRequest hfits p draws, rfl⟩
    exact ⟨hexpects, (h.connected p.peer).2 (Or.inl ⟨hexpects, hheard⟩), hanswers⟩

/-- One check of the caller, whose response arrives twice. -/
theorem checks_sound_caller :
    let agents : Side → IceAgent
      | .caller => (IceAgent.new .controlling [97] [112]).setRemoteCredentials [98] [113]
      | .callee => (IceAgent.new .controlled [98] [113]).setRemoteCredentials [97] [112]
    let hmacSha1 : List UInt8 → List UInt8 → Vector UInt8 20 := fun _ _ => Vector.replicate 20 0
    let src : SockAddrIn := ⟨0x6401A8C0, 0x3930⟩
    let n := run (Net.step hmacSha1) (.start agents)
      [.sendBindingRequest .caller src ⟨fun _ => 5, 6, 7⟩, .deliver .callee 0 src fun _ => 8,
        .deliver .caller 0 src fun _ => 9, .deliver .caller 0 src fun _ => 9]
    ((n.agent .caller).connected = true ↔
      Expects agents .caller ∧ Heard n .caller .bindingRequest ∨
        Heard n .caller .bindingResponse) ∧
    (∀ d ∈ n.delivered .caller, ∀ msg, Decodes d.1 msg → msg.type = .bindingResponse →
      Expects agents .callee ∧ (n.agent .callee).connected = true ∧
        Answers hmacSha1 agents n .caller msg) ∧
    Replied agents n .caller := by
  intro agents hmacSha1 src
  exact checks_sound hmacSha1 agents (by decide) _ .caller

end CppMeet.Ice.Network
