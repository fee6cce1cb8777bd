import CppMeet.Ice.Agent
import CppMeet.Ice.StunRoundTrip

/-!
# A connectivity check between two agents

The request of one agent goes through the codec to the other, whose response goes back the same
way. Both messages are decoded as they were built (`decodes_serialize`), so what is left is to see
that the user name of the request is the one expected (`acceptsUsername_bindingRequest`) and what
the response carries. The digests take part in neither: no agent verifies them.
-/

set_option autoImplicit false

namespace CppMeet.Ice.Handshake

open CppMeet.Lib.BigEndian CppMeet.Lib.Buffer CppMeet.Ice.Stun CppMeet.Ice.StunRoundTrip
open CppMeet.Ice.Agent CppMeet.Ice.Agent.IceAgent

/-- The remote credentials of one agent are the local ones of the other. -/
structure HoldsCredentials (agent peer : IceAgent) : Prop where
  ufrag : agent.remoteUfrag = peer.localUfrag
  pwd : agent.remotePwd = peer.localPwd

/-! ## Through the codec -/

theorem isStun_serialize (m : StunMessage) (htype : m.type.code < 0x4000) :
    StunMessage.isStun m.serialize = true := by
  have hlength : 20 ≤ m.serialize.length := by
    have happ := serialize_append_eq_header m []
    rw [List.append_nil] at happ
    rw [happ, List.length_append, length_header]
    exact Nat.le_add_right 20 _
  have hcookie := readCookie m []
  rw [List.append_nil] at hcookie
  exact decide_eq_true ⟨hlength, first_and_192 htype, hcookie⟩

/-- A message that fits is decoded by the receiver as it was built. -/
theorem decodes_serialize (m : StunMessage) (htype : m.type.code < 0x4000)
    (hfits : (serializeAttrs m.attrs).length < 65536) : Decodes m.serialize m := by
  have hparse := parse_serialize_append m {} htype hfits []
  rw [List.append_nil] at hparse
  exact ⟨isStun_serialize m htype, hparse⟩

variable (hmacSha1 : List UInt8 → List UInt8 → Vector UInt8 20) (agent peer : IceAgent)

/-! ## The request -/

section Request

variable (draws : Draws)

theorem bindingRequest_type : (agent.bindingRequest hmacSha1 draws).type = .bindingRequest := rfl

/-- The user name is the first attribute. -/
theorem getStringAttr_bindingRequest :
    (agent.bindingRequest hmacSha1 draws).getStringAttr .username =
      some (agent.remoteUfrag ++ [58] ++ agent.localUfrag) := rfl

/-- A request is accepted where its two names are expected. -/
theorem acceptsUsername_bindingRequest :
    peer.AcceptsUsername (agent.bindingRequest hmacSha1 draws) ↔
      agent.remoteUfrag ++ [58] ++ agent.localUfrag = peer.expectedUsername :=
  peer.acceptsUsername_iff (getStringAttr_bindingRequest hmacSha1 agent draws)

/-- Two sides that hold each other's credentials agree on the user name. -/
theorem username_eq (hagent : HoldsCredentials agent peer) (hpeer : HoldsCredentials peer agent) :
    agent.remoteUfrag ++ [58] ++ agent.localUfrag = peer.expectedUsername := by
  rw [expectedUsername, hagent.ufrag, hpeer.ufrag]

end Request

/-! ## The response -/

section Response

variable (req : StunMessage) (sender : SockAddrIn) (rand : Fin 12 → UInt32)

theorem bindingResponse_type :
    (agent.bindingResponse hmacSha1 req sender rand).type = .bindingResponse := rfl

theorem bindingResponse_transactionId :
    (agent.bindingResponse hmacSha1 req sender rand).transactionId = req.transactionId := rfl

/-- The address comes before the digest and the checksum. -/
theorem getXorMappedAddress_bindingResponse :
    (agent.bindingResponse hmacSha1 req sender rand).getXorMappedAddress =
      some (sender.sAddr, ntohs sender.sinPort) := by
  refine getXorMappedAddress_add
    ((StunMessage.ofType .bindingResponse rand).setTransactionId req.transactionId) ?_
    sender.sAddr (ntohs sender.sinPort) [_, _]
  intro attr hattr
  cases hattr

/-- The mapped address, the integrity and the fingerprint. -/
theorem length_attrs_bindingResponse :
    (serializeAttrs (agent.bindingResponse hmacSha1 req sender rand).attrs).length = 44 := by
  rw [bindingResponse, length_addFingerprint, length_addMessageIntegrity,
    length_addXorMappedAddress]
  rfl

theorem decodes_bindingResponse :
    Decodes (agent.bindingResponse hmacSha1 req sender rand).serialize
      (agent.bindingResponse hmacSha1 req sender rand) := by
  apply decodes_serialize
  · rw [bindingResponse_type]
    decide
  · rw [length_attrs_bindingResponse]
    decide

end Response

/-! ## The whole check -/

/-- The request of an agent connects a peer when each holds the other's credentials, and the peer's
only packet connects the agent: it carries the transaction id of the request and the address that
the peer saw. A peer that expects another user name does nothing. -/
theorem binding_check (draws : Draws) (dst src replier : SockAddrIn) (rand rand' : Fin 12 → UInt32)
    (hfits : (serializeAttrs (agent.bindingRequest hmacSha1 draws).attrs).length < 65536) :
    let request := (agent.sendBindingRequest hmacSha1 dst draws).1
    (HoldsCredentials agent peer → HoldsCredentials peer agent →
      ∃ packet response,
        peer.onPacket hmacSha1 request src rand =
          ({ peer with connected := true }, some (packet, src)) ∧
        agent.onPacket hmacSha1 packet replier rand' = ({ agent with connected := true }, none) ∧
        Decodes packet response ∧
        response.transactionId = (agent.bindingRequest hmacSha1 draws).transactionId ∧
        response.getXorMappedAddress = some (src.sAddr, ntohs src.sinPort)) ∧
    (agent.remoteUfrag ++ [58] ++ agent.localUfrag ≠ peer.expectedUsername →
      peer.onPacket hmacSha1 request src rand = (peer, none)) := by
  intro request
  -- the request that is sent is the one that is decoded
  have hrequest : Decodes request (agent.bindingRequest hmacSha1 draws) := by
    apply decodes_serialize _ _ hfits
    rw [bindingRequest_type]
    decide
  constructor
  · -- the credentials fit, so the peer answers and the answer connects the agent
    intro hagent hpeer
    have haccepts : peer.AcceptsUsername (agent.bindingRequest hmacSha1 draws) :=
      (acceptsUsername_bindingRequest hmacSha1 agent peer draws).2
        (username_eq agent peer hagent hpeer)
    have hresponse := decodes_bindingResponse hmacSha1 peer
      (agent.bindingRequest hmacSha1 draws) src rand
    refine ⟨_, _, onPacket_request hmacSha1 peer src rand hrequest rfl haccepts, ?_, hresponse,
      bindingResponse_transactionId hmacSha1 peer _ src rand, ?_⟩
    · exact onPacket_response hmacSha1 agent replier rand' hresponse rfl
    · exact getXorMappedAddress_bindingResponse hmacSha1 peer _ src rand
  · -- the user name is not the expected one
    intro hother
    apply onPacket_wrong_username hmacSha1 peer src rand hrequest rfl
    rwa [acceptsUsername_bindingRequest]

/-- The controlling agent `a` with password `p` checks the controlled agent `b` with password `q`,
which sees it at 192.168.1.100, port 12345. -/
theorem binding_check_controlling :
    let a := (IceAgent.new .controlling [97] [112]).setRemoteCredentials [98] [113]
    let b := (IceAgent.new .controlled [98] [113]).setRemoteCredentials [97] [112]
    let hmacSha1 : List UInt8 → List UInt8 → Vector UInt8 20 := fun _ _ => Vector.replicate 20 0
    let src : SockAddrIn := ⟨0x6401A8C0, 0x3930⟩
    let request := (a.sendBindingRequest hmacSha1 src ⟨fun _ => 5, 6, 7⟩).1
    ∃ packet response,
      b.onPacket hmacSha1 request src (fun _ => 8) =
        ({ b with connected := true }, some (packet, src)) ∧
      a.onPacket hmacSha1 packet src (fun _ => 9) = ({ a with connected := true }, none) ∧
      Decodes packet response ∧
      response.transactionId = Vector.replicate 12 5 ∧
      response.getXorMappedAddress = some (0x6401A8C0, 12345) := by
  intro a b hmacSha1 src request
  have hcheck := binding_check hmacSha1 a b ⟨fun _ => 5, 6, 7⟩ src src src (fun _ => 8)
    (fun _ => 9) (by decide)
  obtain ⟨packet, response, hpacket, hresponse, hdecodes, htid, haddress⟩ :=
    hcheck.1 ⟨rfl, rfl⟩ ⟨rfl, rfl⟩
  have hport : ntohs src.sinPort = 12345 := by decide
  exact ⟨packet, response, hpacket, hresponse, hdecodes, htid.trans (by decide),
    hport ▸ haddress⟩

end CppMeet.Ice.Handshake
