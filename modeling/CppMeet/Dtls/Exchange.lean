import CppMeet.Dtls.Transport
import Mathlib.Algebra.Group.Nat.Defs
import Mathlib.Data.Bool.Basic

/-!
# Two transports

A client and a server pass each other what `pending_send` and `encrypt` return, in order and
without loss, and feed it when it arrives. The calls of the two sides and the arrivals are
interleaved in any way.

Between the two SSL objects this is a pipe in either direction: what one has written is what the
other has taken, followed by what is in the BIOs and on the way, and nothing stays in the write BIO
of a side that sends (`exchange_pipe`).
-/

set_option autoImplicit false

namespace CppMeet.Dtls.Exchange

open CppMeet.Lib.Run CppMeet.Dtls.Transport

universe u v

/-- The two transports and what is on its way to each, under their `is_server_`. -/
structure Link (σ : Type u) (β : Type v) where
  transport : Bool → DtlsTransport σ β
  wire : Bool → List (List UInt8) := fun _ => []

/-- What happens on the link. -/
inductive Act where
  | call (server : Bool) (op : Op)
  /-- The oldest packet on its way arrives. -/
  | arrive (server : Bool)

section Link

variable {σ : Type u} {β : Type v} (lib : SslLib σ β)

/-- Both sides before anything is sent. -/
def start : Link σ β where
  transport := DtlsTransport.init lib

/-- Nothing is sent when nothing is pending. -/
def packets (data : List UInt8) : List (List UInt8) := if data.isEmpty then [] else [data]

/-- One call or one arrival. -/
def step (s : Link σ β) : Act → Link σ β
  | .call server op =>
      { transport := Function.update s.transport server (Transport.step lib (s.transport server) op)
        wire := Function.update s.wire (!server)
          (s.wire (!server) ++ packets (sent lib (s.transport server) op)) }
  | .arrive server =>
      match s.wire server with
      | [] => s
      | data :: rest =>
          { transport := Function.update s.transport server
              ((s.transport server).feedData lib data)
            wire := Function.update s.wire server rest }

/-- Packets come from the wire only, and their lengths fit into an `int`. -/
def Proper (s : Link σ β) : Act → Prop
  | .call _ op => fed op = []
  | .arrive server => ∀ data ∈ (s.wire server).head?, data.length < 2 ^ 31

/-- The calls of the library that one side makes. -/
def callsOf (server : Bool) (s : Link σ β) : Act → List Made
  | .call server' op => if server' = server then calls lib (s.transport server) op else []
  | .arrive _ => []

/-- The packets are the data cut into pieces, in order. -/
theorem flatten_packets (data : List UInt8) : (packets data).flatten = data := by
  cases data with
  | nil => rfl
  | cons b data => exact List.flatten_singleton

/-- What is between the SSL object that writes and the one that reads. -/
def between (server : Bool) (s : Link σ β) : List UInt8 :=
  lib.bio.pending (s.transport (!server)).rbio ++ (s.wire (!server)).flatten ++
    lib.bio.pending (s.transport server).wbio

/-- A side that sends leaves nothing in its write BIO. Before the handshake is done `encrypt` does
not send. -/
def Flushed (s : Link σ β) (a : Act) : Prop :=
  match a with
  | .call server .pendingSend => lib.bio.pending ((step lib s a).transport server).wbio = []
  | .call server (.encrypt _) => (s.transport server).handshakeDone = true →
      lib.bio.pending ((step lib s a).transport server).wbio = []
  | _ => True

section Call

variable (s : Link σ β) (server : Bool) (op : Op)

/-- A call changes the transport of its own side. -/
theorem transport_call_self : (step lib s (.call server op)).transport server =
    Transport.step lib (s.transport server) op := Function.update_self ..

/-- A call does not touch the transport of the other side. -/
theorem transport_call_other : (step lib s (.call server op)).transport (!server) =
    s.transport (!server) := Function.update_of_ne (Bool.not_ne_self server) ..

theorem wire_call_self : (step lib s (.call server op)).wire server = s.wire server :=
  Function.update_of_ne (Bool.self_ne_not server) ..

/-- What a call returns for the network is on the way to the other side. -/
theorem wire_call_other : (step lib s (.call server op)).wire (!server) =
    s.wire (!server) ++ packets (sent lib (s.transport server) op) := Function.update_self ..

theorem callsOf_self : callsOf lib server s (.call server op) = calls lib (s.transport server) op :=
  if_pos rfl

theorem callsOf_other : callsOf lib (!server) s (.call server op) = [] :=
  if_neg (Bool.self_ne_not server)

end Call

/-- Bytes enter at the side that calls. -/
theorem between_call_self (s : Link σ β) (server : Bool) (op : Op) :
    between lib server s ++ (calls lib (s.transport server) op).flatMap Made.written =
      between lib server (step lib s (.call server op)) := by
  have hwritten := wbio_step lib (s.transport server) op
  rw [between, between, transport_call_self, transport_call_other, wire_call_other,
    List.flatten_append, flatten_packets, List.append_assoc, hwritten]
  simp only [List.append_assoc]

/-- And they leave at the other side. -/
theorem between_call_other (s : Link σ β) (server : Bool) {op : Op} (hown : fed op = []) :
    between lib server s = (calls lib (s.transport (!server)) op).flatMap Made.taken ++
      between lib server (step lib s (.call (!server) op)) := by
  have htaken := rbio_step lib (s.transport (!server)) op
  rw [hown, List.append_nil] at htaken
  have hself := transport_call_other lib s (!server) op
  rw [Bool.not_not] at hself
  rw [between, between, hself, transport_call_self, wire_call_self, htaken]
  simp only [List.append_assoc]

theorem pending_feedData (t : DtlsTransport σ β) {data : List UInt8}
    (hlen : data.length < 2 ^ 31) :
    lib.bio.pending (t.feedData lib data).rbio = lib.bio.pending t.rbio ++ data := by
  have hnum : (Int32.ofNat data.length).toInt.toNat = data.length := by
    rw [Int32.toInt_ofNat_of_lt hlen, Int.toNat_natCast]
  have hwrite := lib.bio.pending_write t.rbio data _ (toInt_ofNat_le data.length)
  rwa [hnum, List.take_length] at hwrite

/-- An arrival moves bytes from the wire into a BIO. -/
theorem between_arrive (server server' : Bool) {s : Link σ β} (h : Proper s (.arrive server')) :
    between lib server (step lib s (.arrive server')) = between lib server s := by
  rw [step]
  cases hwire : s.wire server' with
  | nil => rfl
  | cons data rest =>
      have hlen : data.length < 2 ^ 31 := h data (by rw [hwire]; rfl)
      rcases Bool.eq_or_eq_not server' server with rfl | rfl
      · -- what is between is on its way to the other side
        have hwbio : ((s.transport server').feedData lib data).wbio = (s.transport server').wbio :=
          rfl
        simp only [between, Function.update_self,
          Function.update_of_ne (Bool.not_ne_self server'), hwbio]
      · simp only [between, Function.update_self,
          Function.update_of_ne (Bool.self_ne_not server), pending_feedData lib _ hlen, hwire,
          List.flatten_cons, List.append_assoc]

/-- One step passes bytes on, or takes them at the other end, in order. -/
theorem between_step (server : Bool) (s : Link σ β) (a : Act) (h : Proper s a) :
    between lib server s ++ (callsOf lib server s a).flatMap Made.written =
      (callsOf lib (!server) s a).flatMap Made.taken ++ between lib server (step lib s a) := by
  cases a with
  | call server' op =>
      rcases Bool.eq_or_eq_not server' server with rfl | rfl
      · rw [callsOf_self, callsOf_other, between_call_self]
        rfl
      · have hnone := callsOf_other lib s (!server) op
        rw [Bool.not_not] at hnone
        rw [callsOf_self, hnone, ← between_call_other lib s server h]
        exact List.append_nil _
  | arrive server' =>
      rw [between_arrive lib server server' h]
      exact List.append_nil _

/-- After a call nothing of its own side is left in the write BIO. -/
theorem flushed (s : Link σ β) (a : Act) : Flushed lib s a := by
  cases a with
  | arrive server => trivial
  | call server op =>
      have hreturns := returns lib (s.transport server) op
      have hself := transport_call_self lib s server op
      cases op with
      | pendingSend =>
          rw [Flushed, hself]
          exact hreturns.2.2
      | encrypt plain =>
          intro hdone
          rw [hself]
          rw [Returns, if_pos hdone] at hreturns
          exact hreturns.2.2
      | feed data => trivial
      | driveHandshake => trivial
      | driveTimeout => trivial
      | decrypt => trivial
      | exportKeys => trivial

/-- What the SSL object of either side has written is what that of the other side has taken,
followed by what is still between them, and what is sent does not stay in a BIO. -/
theorem exchange_pipe (acts : List Act) (h : Along (step lib) Proper (start lib) acts) :
    let now := run (step lib) (start lib) acts
    let allOf := fun server => trace (step lib) (callsOf lib server) (start lib) acts
    (∀ server, (allOf server).flatMap Made.written =
      (allOf (!server)).flatMap Made.taken ++ lib.bio.pending (now.transport (!server)).rbio ++
        (now.wire (!server)).flatten ++ lib.bio.pending (now.transport server).wbio) ∧
      Along (step lib) (Flushed lib) (start lib) acts := by
  intro now allOf
  refine ⟨fun server => ?_, along_of_forall (flushed lib) _ acts⟩
  have hbuffer := trace_buffer (between_step lib server) h
  have hstart : between lib server (start lib) = [] := by
    change lib.bio.pending lib.bio.new ++ [] ++ lib.bio.pending lib.bio.new = []
    rw [lib.bio.pending_new]
    rfl
  rw [hstart, List.nil_append, between] at hbuffer
  rw [flatMap_trace, flatMap_trace, hbuffer]
  simp only [List.append_assoc]
  rfl

end Link

/-- The client starts the handshake, and the server has its first packet. -/
def firstFlight : List Act :=
  [.call false .driveHandshake, .call false .pendingSend, .arrive true, .call true .driveHandshake]

theorem exchange_pipe_firstFlight :
    let now := run (step plainLib) (start plainLib) firstFlight
    let allOf := fun server =>
      trace (step plainLib) (callsOf plainLib server) (start plainLib) firstFlight
    (∀ server, (allOf server).flatMap Made.written = (allOf (!server)).flatMap Made.taken ++
      listBio.pending (now.transport (!server)).rbio ++ (now.wire (!server)).flatten ++
        listBio.pending (now.transport server).wbio) ∧
      Along (step plainLib) (Flushed plainLib) (start plainLib) firstFlight := by
  have hwire : ((step plainLib (step plainLib (start plainLib) (.call false .driveHandshake))
      (.call false .pendingSend)).wire true) = [[22]] := by
    have hsent (t : DtlsTransport Bool (List UInt8)) :
        sent plainLib t .pendingSend = listBio.pending t.wbio := pendingSend_fst plainLib t
    rw [step, hsent]
    rfl
  refine exchange_pipe plainLib firstFlight ⟨rfl, rfl, ?_, rfl, trivial⟩
  intro data hdata
  rw [hwire] at hdata
  obtain rfl := Option.some.inj hdata
  decide

end CppMeet.Dtls.Exchange
