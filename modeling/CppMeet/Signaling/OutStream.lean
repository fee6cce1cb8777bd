import CppMeet.Signaling.LifeCycle
import CppMeet.Signaling.Pong

/-!
# What a client receives

The event loop answers handshakes and pings, and other threads call `send` and `broadcast`. All of
them write to the same descriptors. `Watch` follows one descriptor through a run: `wire` are the
bytes written since it was accepted, as long as it is open, and `said` are the frames that the
program meant to send.

`client_stream` says that a client which reads the response and then frames gets what was meant for
it, in order and with nothing left over. It takes two things (`Orderly`): `send` does not look at
`handshake_done`, so no message may be sent to a connection before its handshake; and pings must
have the length that the answer can announce. Every write is taken in full by the kernel. A ping
behind the request in the read that completes it is lost with the rest of that read, so `told` has
no answer to it.
-/

set_option autoImplicit false

namespace CppMeet.Signaling.OutStream

open CppMeet.Lib.Frames CppMeet.Lib.HashMap CppMeet.Lib.Run CppMeet.Signaling.EventLoop
open CppMeet.Signaling.LifeCycle CppMeet.Signaling.Pong CppMeet.Signaling.WsFrames
open CppMeet.Signaling.WsRoundTrip

/-! ## Frames to the client -/

/-- What the server says to a client: a text message, or the answer to a ping. -/
inductive OutFrame where
  | text (msg : List UInt8)
  | pong (payload : List UInt8)
  deriving DecidableEq

namespace OutFrame

/-- The bytes of the frame, as the server writes them. -/
def bytes : OutFrame → List UInt8
  | text msg => buildWsFrame msg
  | pong payload => 0x8A :: (UInt64.ofNat payload.length &&& 0x7F).toUInt8 :: payload

/-- The frame that the client takes off its buffer. -/
def parsed : OutFrame → ParsedFrame
  | text msg => .frame 0x1 (UInt64.ofNat msg.length) msg
  | pong payload => .frame 0xA (UInt64.ofNat payload.length) payload

/-- The lengths that are written in a form the client can read. -/
def Fits : OutFrame → Prop
  | text msg => msg.length < 2 ^ 62
  | pong payload => payload.length ≤ 125

/-- A frame is read back in front of whatever follows. -/
theorem nextFrame_bytes {f : OutFrame} (h : f.Fits) (more : List UInt8) :
    nextFrame (f.bytes ++ more) = some (f.parsed, more) := by
  cases f with
  | text msg => exact nextFrame_framed (.server msg) h more
  | pong payload =>
      have hshort : payload.length ≤ 125 := h
      have hlen : payload.length = (UInt64.ofNat payload.length).toNat := by
        rw [UInt64.toNat_ofNat', Nat.mod_eq_of_lt (by omega)]
      have hreply := (nextFrame_reply 0 hlen hshort more).2
      rwa [reply_ping] at hreply

theorem drain_bytes {frames : List OutFrame} (h : ∀ f ∈ frames, f.Fits) :
    drain wsFraming (frames.flatMap bytes) = ⟨frames.map parsed, [], false⟩ := by
  apply drain_flatMap
  · exact fun f hf more => nextFrame_bytes (h f hf) more
  · intro f _
    cases f with
    | text msg => rfl
    | pong payload => rfl

end OutFrame

/-! ## One descriptor -/

/-- What happens in a run: the events of the loop, and the messages of other threads. -/
inductive Input where
  | loop (e : Event) (h : ∀ frame, e ≠ .broadcast frame ∧ ∀ connId, e ≠ .send connId frame)
  | send (connId : ℤ) (msg : List UInt8)
  | broadcast (msg : List UInt8)

/-- The event of an input; what is sent is framed first. -/
def Input.event : Input → Event
  | .loop e _ => e
  | .send connId msg => .send connId (buildWsFrame msg)
  | .broadcast msg => .broadcast (buildWsFrame msg)

/-- The bytes written since the descriptor was accepted, while it is open. -/
def wireStep (fd : ℤ) (wire : Option (List UInt8)) : LoopAction → Option (List UInt8)
  | .accept fd' => if fd' = fd then some [] else wire
  | .close fd' => if fd' = fd then none else wire
  | .write fd' bytes => if fd' = fd then wire.map (· ++ bytes) else wire
  | _ => wire

/-- The payloads of the pings that a read completes. -/
def pings (conn : WsConnection) (bytes : List UInt8) : List (List UInt8) :=
  ((drain wsFraming (conn.wsBuf ++ bytes)).frames.filterMap asPing).map Prod.snd

/-- What the loop, or another thread, means to send to the client at `fd`. The pings that count are
those of the reads after the handshake: what comes behind the request in its own read is not looked
at. -/
def told (fd : ℤ) (s : Server) : Input → List OutFrame
  | .loop (.read (.data bytes _)) _ =>
      match s.control, s.conns.lookup fd with
      | .reading fd' _, some conn =>
          if fd' = fd ∧ conn.handshakeDone = true then (pings conn bytes).map .pong else []
      | _, _ => []
  | .loop _ _ => []
  | .send connId msg =>
      if s.control ≠ .crashed ∧ connId = fd ∧ connId ∈ s.conns then [.text msg] else []
  | .broadcast msg =>
      if s.control ≠ .crashed ∧ ∃ conn ∈ s.conns.lookup fd, conn.handshakeDone = true then
        [.text msg]
      else []

/-- The server, the bytes written to the connection, and the frames it was told to say. -/
structure Watch where
  server : Server := {}
  wire : Option (List UInt8) := none
  said : List OutFrame := []

variable (sha1Base64 : List UInt8 → List UInt8) (order : IterOrder ℤ WsConnection)
  (callbacks : Callbacks) (fd : ℤ)

/-- An event, what it wrote and what it was to say; a new connection on the descriptor starts
over. -/
def Watch.step (w : Watch) (i : Input) : Watch :=
  let acts := actions sha1Base64 order callbacks w.server i.event
  { server := EventLoop.step sha1Base64 order callbacks w.server i.event
    wire := run (wireStep fd) w.wire acts
    said := if accepts fd acts then [] else w.said ++ told fd w.server i }

/-- Messages have the length of a string, and `send` is called for connections whose handshake is
done; a ping has at most 125 bytes. -/
def Orderly (w : Watch) : Input → Prop
  | .loop (.read (.data bytes _)) _ =>
      ∀ fd batch, w.server.control = .reading fd batch →
        ∀ conn, w.server.conns.lookup fd = some conn → conn.handshakeDone = true →
          ∀ payload ∈ pings conn bytes, payload.length ≤ 125
  | .loop _ _ => True
  | .send connId msg => msg.length < 2 ^ 62 ∧
      ∀ conn, w.server.conns.lookup connId = some conn → conn.handshakeDone = true
  | .broadcast msg => msg.length < 2 ^ 62

/-- What is known of a connection and the bytes on its wire. -/
structure Spoken (conn : WsConnection) (bytes : List UInt8) (said : List OutFrame) : Prop where
  before : conn.handshakeDone = false → bytes = [] ∧ said = []
  after : conn.handshakeDone = true → ∃ response,
    handshakeResponse sha1Base64 conn.recvBuf = some response ∧
      bytes = response ++ said.flatMap OutFrame.bytes
  fits : ∀ f ∈ said, f.Fits

/-- The invariant of the runs. -/
structure Inv (w : Watch) : Prop where
  covered : Covered w.server
  opened : w.wire.isSome ↔ fd ∈ w.server.opened
  spoken : ∀ bytes conn, w.wire = some bytes → w.server.conns.lookup fd = some conn →
    Spoken sha1Base64 conn bytes w.said

/-! ## Actions that concern the descriptor -/

section Wire

variable {sha1Base64 order callbacks fd} {wire : Option (List UInt8)}

/-- Actions on other descriptors write nothing to this one. -/
theorem run_wireStep_of_quiet {acts : List LoopAction}
    (h : ∀ a ∈ acts, ∀ wire, wireStep fd wire a = wire) (wire : Option (List UInt8)) :
    run (wireStep fd) wire acts = wire :=
  run_eq_self fun a ha => h a ha wire

/-- The wire is there as long as the descriptor is open. -/
theorem isSome_run_wireStep {opened : Finset ℤ} (h : wire.isSome ↔ fd ∈ opened)
    (acts : List LoopAction) :
    (run (wireStep fd) wire acts).isSome ↔ fd ∈ run openedStep opened acts := by
  induction acts generalizing wire opened with
  | nil => exact h
  | cons a acts ih =>
      rw [run_cons, run_cons]
      -- each action changes both in the same way
      refine ih ?_
      cases a with
      | accept fd' =>
          rw [wireStep, openedStep, Finset.mem_insert]
          split_ifs with hfd
          · exact iff_of_true rfl (Or.inl hfd.symm)
          · rw [or_iff_right fun heq => hfd heq.symm]
            exact h
      | close fd' =>
          rw [wireStep, openedStep, Finset.mem_erase]
          split_ifs with hfd
          · exact iff_of_false Bool.false_ne_true fun hmem => hmem.1 hfd.symm
          · rw [and_iff_right fun heq => hfd heq.symm]
            exact h
      | write fd' bytes =>
          have hopened : openedStep opened (.write fd' bytes) = opened := rfl
          rw [wireStep, hopened]
          split_ifs
          · rw [Option.isSome_map]
            exact h
          · exact h
      | _ => exact h

variable (callbacks) in
/-- The reactions to the frames of another client do not touch the wire. -/
theorem run_dispatch_other {fd' : ℤ} (hfd : fd' ≠ fd) (frames : List ParsedFrame)
    (wire : Option (List UInt8)) :
    run (wireStep fd) wire ((frames.flatMap (ParsedFrame.dispatch fd')).flatMap
      (toActions callbacks)) = wire := by
  apply run_wireStep_of_quiet
  intro a ha wire
  obtain ⟨event, hevent, ha⟩ := List.mem_flatMap.1 ha
  obtain ⟨f, -, hevent⟩ := List.mem_flatMap.1 hevent
  rcases dispatch_cases hevent with ⟨len, payload, -, rfl⟩ | ⟨len, payload, -, rfl⟩ |
    ⟨len, payload, bytes, -, rfl⟩ | ⟨-, rfl⟩
  · rw [toActions] at ha
    split at ha
    · obtain rfl := List.mem_singleton.1 ha
      rfl
    · cases ha
  · obtain rfl := List.mem_singleton.1 ha
    exact if_neg hfd
  · obtain rfl := List.mem_singleton.1 ha
    exact if_neg hfd
  · obtain rfl := List.mem_singleton.1 ha
    rfl

variable (callbacks fd) in
/-- Those to its own frames write the answers, unless the descriptor is closed. -/
theorem run_dispatch_self (frames : List ParsedFrame) (wire : Option (List UInt8)) :
    let events := frames.flatMap (ParsedFrame.dispatch fd)
    run (wireStep fd) wire (events.flatMap (toActions callbacks)) = none ∨
      run (wireStep fd) wire (events.flatMap (toActions callbacks)) =
        wire.map (· ++ written events) := by
  have hevents (events : List WsEvent) (h : ∀ event ∈ events, ∃ f : ParsedFrame,
      event ∈ f.dispatch fd) (wire : Option (List UInt8)) :
      run (wireStep fd) wire (events.flatMap (toActions callbacks)) = none ∨
        run (wireStep fd) wire (events.flatMap (toActions callbacks)) =
          wire.map (· ++ written events) := by
    induction events generalizing wire with
    | nil =>
        refine Or.inr ?_
        cases wire with
        | none => rfl
        | some bytes => exact congrArg some (List.append_nil bytes).symm
    | cons event events ih =>
        obtain ⟨⟨f, hevent⟩, hrest⟩ := List.forall_mem_cons.1 h
        have hsplit : (event :: events).flatMap (toActions callbacks) =
          toActions callbacks event ++ events.flatMap (toActions callbacks) := List.flatMap_cons
        rw [hsplit, run_append]
        rcases dispatch_cases hevent with ⟨len, payload, -, rfl⟩ | ⟨len, payload, -, rfl⟩ |
          ⟨len, payload, bytes, -, rfl⟩ | ⟨-, rfl⟩
        · have hquiet : run (wireStep fd) wire (toActions callbacks (.onMessage fd payload)) =
              wire := by
            rw [toActions]
            split
            · rfl
            · rfl
          rw [hquiet]
          exact ih hrest wire
        · -- once closed, the wire stays closed
          have hclose : run (wireStep fd) wire (toActions callbacks (.close fd)) = none :=
            if_pos rfl
          rw [hclose]
          exact Or.inl ((ih hrest none).elim id id)
        · have hwrite : run (wireStep fd) wire (toActions callbacks (.write fd bytes)) =
              wire.map (· ++ bytes) := if_pos rfl
          have hwritten : written (.write fd bytes :: events) = bytes ++ written events :=
            List.flatMap_cons
          rw [hwrite, hwritten]
          refine (ih hrest _).imp_right fun h => h.trans ?_
          rw [Option.map_map]
          exact congrArg (Option.map · wire) (funext fun w => List.append_assoc w bytes _)
        · exact ih hrest wire
  exact hevents _ (fun event hevent => (List.mem_flatMap.1 hevent).imp fun f hf => hf.2) wire

/-- Closing the connections closes this one if it is among them. -/
theorem run_map_close (fds : List ℤ) (wire : Option (List UInt8)) :
    run (wireStep fd) wire (fds.map .close) = if fd ∈ fds then none else wire := by
  induction fds generalizing wire with
  | nil => rfl
  | cons fd' fds ih =>
      rw [List.map_cons, run_cons, ih, wireStep]
      by_cases hfd : fd' = fd
      · rw [if_pos hfd, if_pos (List.mem_cons.2 (Or.inl hfd.symm)), ite_self]
      · rw [if_neg hfd]
        exact if_congr (by rw [List.mem_cons, or_iff_right fun h => hfd h.symm]) rfl rfl

/-- A loop that writes the same frame to several connections. -/
theorem run_map_write (entries : List (Σ _ : ℤ, WsConnection)) (frame : List UInt8)
    (wire : Option (List UInt8)) :
    run (wireStep fd) wire (entries.map fun entry => .write entry.1 frame) =
      run (wireStep fd) wire
        ((entries.filter fun entry => entry.1 = fd).map fun entry => .write entry.1 frame) := by
  induction entries generalizing wire with
  | nil => rfl
  | cons entry entries ih =>
      by_cases hfd : entry.1 = fd
      · rw [List.filter_cons_of_pos (by simpa using hfd), List.map_cons, List.map_cons, run_cons,
          run_cons, ih]
      · have hother : wireStep fd wire (.write entry.1 frame) = wire := if_neg hfd
        rw [List.filter_cons_of_neg (by simpa using hfd), List.map_cons, run_cons, hother, ih]

/-- A connection that is dropped loses its wire. -/
theorem run_disconnect (s : Server) (fd' : ℤ) (batch : List Source) (wire : Option (List UInt8)) :
    run (wireStep fd) wire (disconnect callbacks s fd' batch).actions =
      if fd' = fd then none else wire := by
  have hcallback : ∀ wire, run (wireStep fd) wire
      (if callbacks.onDisconnect then [.onDisconnect fd'] else []) = wire := by
    intro wire
    split
    · rfl
    · rfl
  rw [disconnect, run_append, hcallback]
  rfl

end Wire

/-! ## One event -/

section Events

variable {order callbacks} {w : Watch}

/-- What an event has to do for the descriptor, when it means to send the frames `more`. -/
def Speaks (w : Watch) (r : Reaction) (more : List OutFrame) : Prop :=
  ∀ bytes conn, run (wireStep fd) w.wire r.actions = some bytes →
    r.conns.lookup fd = some conn →
      Spoken sha1Base64 conn bytes (if accepts fd r.actions then [] else w.said ++ more)

variable {sha1Base64 fd}

theorem accepts_eq_false {acts : List LoopAction} (h : .accept fd ∉ acts) :
    accepts fd acts = false := decide_eq_false h

/-- Nothing happens to the descriptor. -/
theorem speaks_same (h : Inv sha1Base64 fd w) {r : Reaction}
    (hlookup : r.conns.lookup fd = w.server.conns.lookup fd)
    (hrun : run (wireStep fd) w.wire r.actions = w.wire) (haccept : .accept fd ∉ r.actions) :
    Speaks sha1Base64 fd w r [] := by
  intro bytes conn hwire hconn
  rw [hrun] at hwire
  rw [hlookup] at hconn
  rw [accepts_eq_false haccept, if_neg Bool.false_ne_true, List.append_nil]
  exact h.spoken bytes conn hwire hconn

/-- The descriptor is closed. -/
theorem speaks_closed {r : Reaction} (hrun : run (wireStep fd) w.wire r.actions = none)
    (more : List OutFrame) : Speaks sha1Base64 fd w r more := by
  intro bytes conn hwire
  rw [hrun] at hwire
  cases hwire

/-- Frames are written to a connection whose handshake is done. -/
theorem speaks_frames (h : Inv sha1Base64 fd w) {r : Reaction} {conn conn' : WsConnection}
    {more : List OutFrame} (hconn : w.server.conns.lookup fd = some conn)
    (hdone : conn.handshakeDone = true) (hconn' : r.conns.lookup fd = some conn')
    (hsame : conn'.handshakeDone = true ∧ conn'.recvBuf = conn.recvBuf)
    (hrun : run (wireStep fd) w.wire r.actions = none ∨
      run (wireStep fd) w.wire r.actions = w.wire.map (· ++ more.flatMap OutFrame.bytes))
    (hfits : ∀ f ∈ more, f.Fits) (haccept : .accept fd ∉ r.actions) :
    Speaks sha1Base64 fd w r more := by
  rcases hrun with hclosed | hrun
  · exact speaks_closed hclosed more
  · intro bytes conn'' hwire hlookup
    obtain rfl := Option.some.inj (hconn'.symm.trans hlookup)
    rw [hrun] at hwire
    obtain ⟨before, hbefore, rfl⟩ := Option.map_eq_some_iff.1 hwire
    have hspoken := h.spoken before conn hbefore hconn
    rw [accepts_eq_false haccept, if_neg Bool.false_ne_true]
    refine ⟨fun hnot => ?_, fun _ => ?_, fun f hf => ?_⟩
    · -- the handshake stays done
      rw [hsame.1] at hnot
      cases hnot
    · -- the response stays in front of all frames
      obtain ⟨response, hresponse, rfl⟩ := hspoken.after hdone
      refine ⟨response, by rw [hsame.2]; exact hresponse, ?_⟩
      rw [List.flatMap_append, List.append_assoc]
    · rcases List.mem_append.1 hf with hold | hnew
      · exact hspoken.fits f hold
      · exact hfits f hnew

/-- The read of a connection that waits for its request. -/
theorem speaks_request (h : Inv sha1Base64 fd w) {batch : List Source} {conn : WsConnection}
    (hlookup : w.server.conns.lookup fd = some conn) (hown : conn.fd = fd)
    (hdone : conn.handshakeDone = false) (bytes : List UInt8) (sent : Bool)
    (haccept : .accept fd ∉
      (handleRequest sha1Base64 callbacks w.server fd batch conn bytes sent).actions) :
    Speaks sha1Base64 fd w
      (handleRequest sha1Base64 callbacks w.server fd batch conn bytes sent) [] := by
  intro wired conn' hwire hconn'
  rw [accepts_eq_false haccept, if_neg Bool.false_ne_true, List.append_nil]
  simp only [handleRequest] at hwire hconn'
  split at hwire
  · rename_i hends
    rw [if_pos hends] at hconn'
    split at hwire
    · -- a request without a key
      rw [run_append, run_disconnect, if_pos rfl] at hwire
      cases hwire
    · rename_i response hresponse
      rw [hresponse] at hconn'
      dsimp only at hconn'
      split at hwire
      · rename_i hsent
        rw [if_pos hsent] at hconn'
        dsimp only at hwire hconn'
        rw [lookup_insert_ite, if_pos rfl] at hconn'
        obtain rfl := Option.some.inj hconn'
        have hcallback : ∀ wire, run (wireStep fd) wire
            (if callbacks.onConnect then [.onConnect fd] else []) = wire := by
          intro wire
          split
          · rfl
          · rfl
        rw [run_append, run_append, hcallback, hown] at hwire
        have hresponded : w.wire.map (· ++ response) = some wired := by
          rw [← hwire]
          exact (if_pos rfl).symm
        -- nothing has been written yet
        obtain ⟨before, hbefore, rfl⟩ := Option.map_eq_some_iff.1 hresponded
        obtain ⟨rfl, hsaid⟩ := (h.spoken before conn hbefore hlookup).before hdone
        rw [hsaid]
        refine ⟨fun hnot => (Bool.noConfusion hnot), fun _ => ⟨response, hresponse, ?_⟩,
          List.forall_mem_nil _⟩
        rw [List.nil_append, List.flatMap_nil, List.append_nil]
      · -- the response is cut short
        rw [run_append, run_disconnect, if_pos rfl] at hwire
        cases hwire
  · rename_i hends
    rw [if_neg hends] at hconn'
    dsimp only at hconn'
    rw [lookup_insert_ite, if_pos rfl] at hconn'
    obtain rfl := Option.some.inj hconn'
    have hspoken := h.spoken wired conn hwire hlookup
    refine ⟨hspoken.before, fun hyes => ?_, hspoken.fits⟩
    rw [hdone] at hyes
    cases hyes

/-- The reactions to the bytes of another client. -/
theorem run_handleFrames_other {fd' : ℤ} (hfd : fd' ≠ fd) (s : Server) (batch : List Source)
    {conn : WsConnection} (hown : conn.fd = fd') (bytes : List UInt8) (wire : Option (List UInt8)) :
    run (wireStep fd) wire (handleFrames callbacks s fd' batch conn bytes).actions = wire := by
  have hevents := run_dispatch_other callbacks hfd
    (drain wsFraming (conn.wsBuf ++ bytes)).frames wire
  simp only [handleFrames, readBytes, parse_eq_drain, hown]
  split
  · exact hevents
  · exact (run_append (wireStep fd) wire (.lock :: _) _).trans hevents

/-- A request on another connection writes nothing to this one. -/
theorem run_handleRequest_other {fd' : ℤ} (hfd : fd' ≠ fd) (s : Server) (batch : List Source)
    {conn : WsConnection} (hown : conn.fd = fd') (bytes : List UInt8) (sent : Bool)
    (wire : Option (List UInt8)) :
    run (wireStep fd) wire
      (handleRequest sha1Base64 callbacks s fd' batch conn bytes sent).actions = wire := by
  -- a response goes to the other client
  have hwrite (response : List UInt8) :
      run (wireStep fd) wire [.lock, .write conn.fd response] = wire := if_neg (hown ▸ hfd)
  have hcallback : run (wireStep fd) wire
      (if callbacks.onConnect then [.onConnect fd'] else []) = wire := by
    split
    · rfl
    · rfl
  simp only [handleRequest]
  split
  · -- no key in the request, or a response that is not taken in full, ends the other connection
    split
    · rw [run_append, run_disconnect, if_neg hfd]
      rfl
    · rename_i response hresponse
      split
      · rw [run_append, run_append, hwrite, hcallback]
        rfl
      · rw [run_append, run_disconnect, if_neg hfd]
        exact hwrite response
  · rfl

/-- The reaction to a read of another client. -/
theorem speaks_other (h : Inv sha1Base64 fd w) {fd' : ℤ} {batch : List Source}
    (hcontrol : w.server.control = .reading fd' batch) (hfd : fd' ≠ fd) (result : ReadResult) :
    Speaks sha1Base64 fd w (handleRead sha1Base64 callbacks w.server fd' batch result) [] := by
  have hplaced : Descriptors.Placed w.server.conns.keys (.reading fd' batch) :=
    hcontrol ▸ h.covered.placed
  obtain ⟨conn, hlookup⟩ := Finmap.mem_iff.1 (Finmap.mem_keys.1 hplaced.1)
  have hown := h.covered.own fd' conn hlookup
  have hserves : Serves w.server fd' batch _ _ :=
    serves_handleRead sha1Base64 callbacks hlookup hown result
  have hcase := Connection.serveCase_serve sha1Base64 callbacks conn result
  apply speaks_same h
  · rw [hserves.lookup, if_neg hfd.symm]
  · -- what the read writes and closes is the descriptor that was read
    cases result with
    | wouldBlock => rfl
    | error => exact (run_disconnect _ _ _ _).trans (if_neg hfd)
    | endOfStream => exact (run_disconnect _ _ _ _).trans (if_neg hfd)
    | data bytes sent =>
        simp only [handleRead, hlookup]
        split
        · exact run_handleFrames_other hfd _ batch hown bytes w.wire
        · exact run_handleRequest_other hfd _ batch hown bytes sent w.wire
  · -- and no connection is accepted by it
    intro haccept
    exact hserves.accepted_not_mem (hcase.accepted_not_mem sha1Base64 callbacks) fd
      (List.mem_filterMap.2 ⟨_, haccept, if_pos rfl⟩)

/-- The pings of a read are answered. -/
theorem written_pings (conn : WsConnection) (bytes : List UInt8) :
    written ((drain wsFraming (conn.wsBuf ++ bytes)).frames.flatMap (ParsedFrame.dispatch fd)) =
      ((pings conn bytes).map OutFrame.pong).flatMap OutFrame.bytes := by
  rw [written_dispatch, pings, List.map_map, List.flatMap_map]
  apply List.flatMap_congr
  intro p hp
  obtain ⟨f, hf, hping⟩ := List.mem_filterMap.1 hp
  rw [eq_of_asPing hping] at hf
  obtain ⟨buf, rest, hnext⟩ := exists_next_of_mem hf
  have hlen := length_of_nextFrame hnext
  rw [reply_ping, Function.comp_apply, OutFrame.bytes, hlen, UInt64.ofNat_toNat]

/-- A read of this connection writes what it was to say. -/
theorem speaks_own (h : Inv sha1Base64 fd w) {batch : List Source}
    (hcontrol : w.server.control = .reading fd batch) {bytes : List UInt8} {sent : Bool}
    {hloop : ∀ frame, Event.read (.data bytes sent) ≠ .broadcast frame ∧
      ∀ connId, Event.read (.data bytes sent) ≠ .send connId frame}
    (horderly : Orderly w (.loop (.read (.data bytes sent)) hloop)) :
    Speaks sha1Base64 fd w
      (handleRead sha1Base64 callbacks w.server fd batch (.data bytes sent))
      (told fd w.server (.loop (.read (.data bytes sent)) hloop)) := by
  have hplaced : Descriptors.Placed w.server.conns.keys (.reading fd batch) :=
    hcontrol ▸ h.covered.placed
  obtain ⟨conn, hlookup⟩ := Finmap.mem_iff.1 (Finmap.mem_keys.1 hplaced.1)
  have hown := h.covered.own fd conn hlookup
  have hserves : Serves w.server fd batch _ _ :=
    serves_handleRead sha1Base64 callbacks hlookup hown (.data bytes sent)
  have hcase := Connection.serveCase_serve sha1Base64 callbacks conn (.data bytes sent)
  have haccept : .accept fd ∉
      (handleRead sha1Base64 callbacks w.server fd batch (.data bytes sent)).actions :=
    fun hmem => hserves.accepted_not_mem (hcase.accepted_not_mem sha1Base64 callbacks) fd
      (List.mem_filterMap.2 ⟨_, hmem, if_pos rfl⟩)
  cases hdone : conn.handshakeDone with
  | false =>
      have htold : told fd w.server (.loop (.read (.data bytes sent)) hloop) = [] := by
        simp only [told, hcontrol, hlookup, hdone, Bool.false_eq_true, and_false, if_false]
      rw [htold]
      have hrequest : handleRead sha1Base64 callbacks w.server fd batch (.data bytes sent) =
          handleRequest sha1Base64 callbacks w.server fd batch conn bytes sent := by
        simp only [handleRead, hlookup, hdone, Bool.false_eq_true, if_false]
      rw [hrequest] at haccept ⊢
      exact speaks_request h hlookup hown hdone bytes sent haccept
  | true =>
      have htold : told fd w.server (.loop (.read (.data bytes sent)) hloop) =
          (pings conn bytes).map .pong := by
        simp only [told, hcontrol, hlookup, hdone, and_self, if_true]
      rw [htold]
      have hframes : handleRead sha1Base64 callbacks w.server fd batch (.data bytes sent) =
          handleFrames callbacks w.server fd batch conn bytes := by
        simp only [handleRead, hlookup, hdone, if_true]
      rw [hframes] at haccept ⊢
      have hshort := horderly fd batch hcontrol conn hlookup hdone
      have hconn' : (handleFrames callbacks w.server fd batch conn bytes).conns.lookup fd =
          some (readBytes conn bytes).conn := by
        simp only [handleFrames]
        split
        · rw [lookup_insert_ite, if_pos rfl]
        · rw [lookup_insert_ite, if_pos rfl]
      refine speaks_frames h hlookup hdone hconn' ?_ ?_ ?_ haccept
      · rw [readBytes, parse_eq_drain]
        exact ⟨hdone, rfl⟩
      · have hevents := run_dispatch_self callbacks fd
          (drain wsFraming (conn.wsBuf ++ bytes)).frames w.wire
        dsimp only at hevents
        rw [written_pings] at hevents
        simp only [handleFrames, readBytes, parse_eq_drain, hown]
        split
        · exact hevents
        · -- the loop reads on, which writes nothing
          rw [run_append]
          exact hevents
      · intro f hf
        obtain ⟨payload, hpayload, rfl⟩ := List.mem_map.1 hf
        exact hshort payload hpayload

/-- A read, by whatever connection. -/
theorem speaks_read (h : Inv sha1Base64 fd w) {fd' : ℤ} {batch : List Source}
    (hcontrol : w.server.control = .reading fd' batch) {result : ReadResult}
    {hloop : ∀ frame, Event.read result ≠ .broadcast frame ∧
      ∀ connId, Event.read result ≠ .send connId frame}
    (horderly : Orderly w (.loop (.read result) hloop)) :
    Speaks sha1Base64 fd w (handleRead sha1Base64 callbacks w.server fd' batch result)
      (told fd w.server (.loop (.read result) hloop)) := by
  by_cases hfd : fd' = fd
  · subst hfd
    cases result with
    | wouldBlock => exact speaks_same h rfl rfl List.not_mem_nil
    | error =>
        -- the descriptor is closed, so nothing is on its wire
        apply speaks_closed
        exact (run_disconnect w.server fd' batch w.wire).trans (if_pos rfl)
    | endOfStream =>
        apply speaks_closed
        exact (run_disconnect w.server fd' batch w.wire).trans (if_pos rfl)
    | data bytes sent => exact speaks_own h hcontrol horderly
  · -- the read of another client tells this one nothing
    have htold : told fd w.server (.loop (.read result) hloop) = [] := by
      cases result with
      | data bytes sent =>
          simp only [told, hcontrol]
          split
          · rename_i heq _
            cases heq
            exact if_neg fun hboth => hfd hboth.1
          · rfl
      | _ => rfl
    rw [htold]
    exact speaks_other h hcontrol hfd result

/-- An event that is not a read means to send nothing. -/
theorem told_of_not_reading {s : Server} {e : Event}
    (h : ∀ fd batch result, s.control = .reading fd batch → e ≠ .read result)
    (hloop : ∀ frame, e ≠ .broadcast frame ∧ ∀ connId, e ≠ .send connId frame) :
    told fd s (.loop e hloop) = [] := by
  cases e with
  | read result =>
      cases result with
      | data bytes sent =>
          rw [told]
          split
          · rename_i hcontrol _
            exact absurd rfl (h _ _ _ hcontrol)
          · rfl
      | _ => rfl
  | _ => rfl

/-- A new connection starts with nothing said. -/
theorem speaks_accept (h : Inv sha1Base64 fd w) (batch : List Source) (fd' : ℤ) :
    Speaks sha1Base64 fd w
      { conns := w.server.conns.insert fd' { fd := fd' }
        control := .accepting batch
        actions := [.accept fd', .setNonblocking fd', .epollAdd fd', .lock, .unlock] } [] := by
  by_cases hfd : fd' = fd
  · subst hfd
    intro bytes conn hwire hconn
    have haccept : accepts fd'
        [.accept fd', .setNonblocking fd', .epollAdd fd', .lock, .unlock] = true :=
      decide_eq_true List.mem_cons_self
    have hnew : run (wireStep fd') w.wire
        [.accept fd', .setNonblocking fd', .epollAdd fd', .lock, .unlock] = some [] := if_pos rfl
    rw [hnew] at hwire
    rw [lookup_insert_ite, if_pos rfl] at hconn
    cases hwire
    cases hconn
    rw [haccept, if_pos rfl]
    exact ⟨fun _ => ⟨rfl, rfl⟩, Bool.noConfusion, List.forall_mem_nil _⟩
  · apply speaks_same h
    · exact (lookup_insert_ite _ _ _ _).trans (if_neg fun heq => hfd heq.symm)
    · exact if_neg hfd
    · simp [Ne.symm hfd]

/-- What a `send` writes. -/
theorem speaks_send (h : Inv sha1Base64 fd w) {connId : ℤ} {msg : List UInt8}
    (hcontrol : w.server.control ≠ .crashed) (horderly : Orderly w (.send connId msg)) :
    Speaks sha1Base64 fd w
      { ignored w.server with
        actions :=
          .lock :: (if connId ∈ w.server.conns then [.write connId (buildWsFrame msg)] else []) ++
            [.unlock] }
      (told fd w.server (.send connId msg)) := by
  simp only [told]
  by_cases hknown : connId ∈ w.server.conns
  · rw [if_pos hknown]
    by_cases hfd : connId = fd
    · subst hfd
      rw [if_pos ⟨hcontrol, rfl, hknown⟩]
      obtain ⟨conn, hconn⟩ := Finmap.mem_iff.1 hknown
      -- the handshake was done when `send` was called
      apply speaks_frames h hconn (horderly.2 conn hconn) hconn ⟨horderly.2 conn hconn, rfl⟩
      · have hsent : w.wire.map (· ++ buildWsFrame msg) =
            w.wire.map (· ++ [OutFrame.text msg].flatMap OutFrame.bytes) := by
          rw [List.flatMap_singleton, OutFrame.bytes]
        exact Or.inr ((if_pos rfl).trans hsent)
      · exact List.forall_mem_singleton.2 horderly.1
      · simp
    · -- a message for another client
      rw [if_neg fun hall => hfd hall.2.1]
      apply speaks_same h rfl
      · exact if_neg hfd
      · simp
  · -- `send` finds no connection
    rw [if_neg hknown, if_neg fun hall => hknown hall.2.2]
    apply speaks_same h rfl rfl
    simp

variable (fd) in
/-- What a `broadcast` writes to the descriptor. -/
theorem run_broadcast (it : Iteration w.server.conns) (frame : List UInt8) :
    run (wireStep fd) w.wire (.lock :: (it.visits.filter fun entry => entry.2.handshakeDone).map
        (fun entry => .write entry.1 frame) ++ [.unlock]) =
      if ∃ conn ∈ w.server.conns.lookup fd, conn.handshakeDone = true then
        w.wire.map (· ++ frame)
      else w.wire := by
  have hfilter : (it.visits.filter fun entry => entry.2.handshakeDone).filter
      (fun entry => entry.1 = fd) =
        (((w.server.conns.lookup fd).map (Sigma.mk fd)).toList).filter
          fun entry => entry.2.handshakeDone := by
    rw [← it.filter_key fd, List.filter_filter, List.filter_filter]
    exact List.filter_congr fun entry _ => Bool.and_comm _ _
  rw [List.cons_append, run_cons, run_append, run_map_write, hfilter]
  cases w.server.conns.lookup fd with
  | none => simp [wireStep]
  | some conn => cases hdone : conn.handshakeDone <;> simp [wireStep, hdone]

/-- A broadcast writes its frame to every connection. -/
theorem speaks_broadcast (h : Inv sha1Base64 fd w) {msg : List UInt8}
    (hcontrol : w.server.control ≠ .crashed) (horderly : Orderly w (.broadcast msg)) :
    Speaks sha1Base64 fd w
      { ignored w.server with
        actions := .lock ::
          ((order w.server.conns).visits.filter fun entry => entry.2.handshakeDone).map
            (fun entry => .write entry.1 (buildWsFrame msg)) ++ [.unlock] }
      (told fd w.server (.broadcast msg)) := by
  have hrun := run_broadcast fd (order w.server.conns) (buildWsFrame msg)
  have haccept : LoopAction.accept fd ∉ .lock ::
      ((order w.server.conns).visits.filter fun entry => entry.2.handshakeDone).map
        (fun entry => .write entry.1 (buildWsFrame msg)) ++ [.unlock] := by
    simp
  simp only [told]
  by_cases hdone : ∃ conn ∈ w.server.conns.lookup fd, conn.handshakeDone = true
  · rw [if_pos hdone] at hrun
    rw [if_pos ⟨hcontrol, hdone⟩]
    obtain ⟨conn, hconn, hdone⟩ := hdone
    -- the loop writes the frame to this connection once
    apply speaks_frames h hconn hdone hconn ⟨hdone, rfl⟩
    · refine Or.inr (hrun.trans ?_)
      rw [List.flatMap_singleton, OutFrame.bytes]
    · exact List.forall_mem_singleton.2 horderly
    · exact haccept
  · -- no handshake yet, so the loop skips the connection
    rw [if_neg hdone] at hrun
    rw [if_neg fun hboth => hdone hboth.2]
    exact speaks_same h rfl hrun haccept

variable (order callbacks)

theorem speaks_react (h : Inv sha1Base64 fd w) {i : Input} (horderly : Orderly w i) :
    Speaks sha1Base64 fd w (react sha1Base64 order callbacks w.server i.event)
      (told fd w.server i) := by
  cases i with
  | loop e hloop =>
      have hr := handles_react sha1Base64 order callbacks w.server e
      rw [Input.event]
      generalize react sha1Base64 order callbacks w.server e = r at hr
      cases hr with
      | ignored hnot =>
          rw [told_of_not_reading hnot]
          exact speaks_same h rfl rfl List.not_mem_nil
      | wait => exact speaks_same h rfl rfl List.not_mem_nil
      | server => exact speaks_same h rfl rfl List.not_mem_nil
      | client => exact speaks_same h rfl rfl (by simp)
      | noClient => exact speaks_same h rfl rfl List.not_mem_nil
      | newClient => exact speaks_accept h _ _
      | read result hcontrol => exact speaks_read h hcontrol horderly
      | stop =>
          -- no connection is left
          intro bytes conn _ hconn
          rw [Finmap.lookup_empty] at hconn
          cases hconn
      | send connId frame => exact absurd rfl ((hloop frame).2 connId)
      | broadcast frame => exact absurd rfl (hloop frame).1
  | send connId msg =>
      rw [Input.event, react]
      by_cases hcontrol : w.server.control = .crashed
      · rw [if_pos hcontrol]
        have htold : told fd w.server (.send connId msg) = [] := if_neg fun hall => hall.1 hcontrol
        rw [htold]
        exact speaks_same h rfl rfl List.not_mem_nil
      · rw [if_neg hcontrol]
        exact speaks_send h hcontrol horderly
  | broadcast msg =>
      rw [Input.event, react]
      by_cases hcontrol : w.server.control = .crashed
      · rw [if_pos hcontrol]
        have htold : told fd w.server (.broadcast msg) = [] := if_neg fun hall => hall.1 hcontrol
        rw [htold]
        exact speaks_same h rfl rfl List.not_mem_nil
      · rw [if_neg hcontrol]
        exact speaks_broadcast h hcontrol horderly

end Events

/-! ## Whole runs -/

variable {sha1Base64 fd}

theorem inv_start : Inv sha1Base64 fd {} where
  covered := covered_start
  opened := iff_of_false Bool.false_ne_true (Finset.notMem_empty fd)
  spoken bytes _ hwire := by cases hwire

theorem inv_step {w : Watch} (h : Inv sha1Base64 fd w) {i : Input} (horderly : Orderly w i) :
    Inv sha1Base64 fd (w.step sha1Base64 order callbacks fd i) where
  covered := (lifeOk_react sha1Base64 order callbacks h.covered i.event).covered
  opened := isSome_run_wireStep h.opened _
  spoken bytes conn hwire hconn := speaks_react order callbacks h horderly bytes conn hwire hconn

/-- In every orderly run, a client whose connection is open has received nothing before its
handshake, and then the response to its request and the frames that it was told, whole and in
order. -/
theorem client_stream (sha1Base64 : List UInt8 → List UInt8) (order : IterOrder ℤ WsConnection)
    (callbacks : Callbacks) (fd : ℤ) (inputs : List Input)
    (h : Along (Watch.step sha1Base64 order callbacks fd) Orderly {} inputs) :
    let w := run (Watch.step sha1Base64 order callbacks fd) {} inputs
    ∀ bytes, w.wire = some bytes → ∃ conn, w.server.conns.lookup fd = some conn ∧
      (conn.handshakeDone = false → bytes = []) ∧
      (conn.handshakeDone = true → ∃ response frames,
        handshakeResponse sha1Base64 conn.recvBuf = some response ∧ bytes = response ++ frames ∧
          drain wsFraming frames = ⟨w.said.map OutFrame.parsed, [], false⟩) := by
  intro w bytes hwire
  have hinv : Inv sha1Base64 fd w :=
    inv_run (P := Orderly) (fun _ _ hs hi => inv_step order callbacks hs hi) inv_start h
  have hopened : fd ∈ w.server.opened := hinv.opened.1 (Option.isSome_iff_exists.2 ⟨bytes, hwire⟩)
  obtain ⟨conn, hconn⟩ := Finmap.mem_iff.1 (Finmap.mem_keys.1 (hinv.covered.opened hopened))
  have hspoken := hinv.spoken bytes conn hwire hconn
  refine ⟨conn, hconn, fun hnot => (hspoken.before hnot).1, fun hdone => ?_⟩
  obtain ⟨response, hresponse, hbytes⟩ := hspoken.after hdone
  exact ⟨response, w.said.flatMap OutFrame.bytes, hresponse, hbytes,
    OutFrame.drain_bytes hspoken.fits⟩

/-- A client on descriptor 5 does the handshake and is sent a message and then a ping's answer. -/
def firstInputs : List Input :=
  [.loop (.wait [.server]) (by simp), .loop .next (by simp), .loop (.accept (some 5)) (by simp),
    .loop (.accept none) (by simp), .loop (.wait [.client 5]) (by simp), .loop .next (by simp),
    .loop (.read (.data firstRequest true)) (by simp), .send 5 (EventLoop.bytes "hi"),
    .loop (.read (.data [0x89, 0x80, 0, 0, 0, 0] true)) (by simp)]

/-- The first `n` inputs of that connection. -/
def firstWatch (order : IterOrder ℤ WsConnection) (n : ℕ) : Watch :=
  run (Watch.step firstHash order ⟨true, true, true⟩ 5) {} (firstInputs.take n)

/-- It gets the response and two frames. -/
theorem client_stream_firstInputs :
    ∃ response frames, (firstWatch someVisits 9).wire = some (response ++ frames) ∧
      drain wsFraming frames =
        ⟨[.frame 0x1 2 (EventLoop.bytes "hi"), .frame 0xA 0 []], [], false⟩ := by
  have hwaits : (firstWatch someVisits 6).server.control = .reading 5 [] ∧
      ((firstWatch someVisits 6).server.conns.lookup 5).map (·.handshakeDone) = some false := by
    decide +kernel
  have hdone : ((firstWatch someVisits 7).server.conns.lookup 5).map (·.handshakeDone) =
      some true := by
    decide +kernel
  have hreads : (firstWatch someVisits 8).server.control = .reading 5 [] ∧
      ((firstWatch someVisits 8).server.conns.lookup 5).map (·.wsBuf) = some [] := by
    decide +kernel
  have hended : ((firstWatch someVisits 9).server.conns.lookup 5).map (·.handshakeDone) =
      some true ∧ (firstWatch someVisits 9).wire.isSome = true ∧
        (firstWatch someVisits 9).said = [.text (EventLoop.bytes "hi"), .pong []] := by
    decide +kernel
  have horderly : Along (Watch.step firstHash someVisits ⟨true, true, true⟩ 5) Orderly {}
      firstInputs := by
    refine ⟨trivial, trivial, trivial, trivial, trivial, trivial, ?_, ?_, ?_, trivial⟩
    · -- the request comes before the handshake, so its read has no pings
      intro fd batch hcontrol conn hconn hyes
      cases hwaits.1.symm.trans hcontrol
      have hnot := (congrArg (Option.map (·.handshakeDone)) hconn).symm.trans hwaits.2
      rw [Option.map_some, hyes] at hnot
      cases hnot
    · -- the message is sent after it
      refine ⟨by decide, fun conn hconn => ?_⟩
      have hyes := (congrArg (Option.map (·.handshakeDone)) hconn).symm.trans hdone
      exact Option.some.inj hyes
    · -- the ping is empty
      intro fd batch hcontrol conn hconn hyes
      cases hreads.1.symm.trans hcontrol
      have hbuf := (congrArg (Option.map (·.wsBuf)) hconn).symm.trans hreads.2
      have hempty : conn.wsBuf = [] := Option.some.inj hbuf
      rw [pings, hempty]
      decide +kernel
  obtain ⟨bytes, hwire⟩ := Option.isSome_iff_exists.1 hended.2.1
  obtain ⟨conn, hconn, -, hframes⟩ :=
    client_stream firstHash someVisits ⟨true, true, true⟩ 5 firstInputs horderly bytes hwire
  have hyes := (congrArg (Option.map (·.handshakeDone)) hconn).symm.trans hended.1
  obtain ⟨response, frames, -, rfl, hdrain⟩ := hframes (Option.some.inj hyes)
  refine ⟨response, frames, hwire, hdrain.trans ?_⟩
  have hsaid : (firstWatch someVisits 9).said.map OutFrame.parsed =
      [.frame 0x1 2 (EventLoop.bytes "hi"), .frame 0xA 0 []] := by
    rw [hended.2.2]
    rfl
  exact congrArg (Drained.mk · [] false) hsaid

end CppMeet.Signaling.OutStream
