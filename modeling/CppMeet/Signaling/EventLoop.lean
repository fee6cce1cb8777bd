import CppMeet.Lib.HashMap
import CppMeet.Lib.Run
import CppMeet.Signaling.WsFrames

/-!
# The event loop of the signaling server

`WebSocketServer::run_loop` with `accept_client`, `handle_client`, `do_ws_handshake` and
`parse_ws_frames`, one event for each answer of the kernel. The loop's reaction to an event is a
list of actions: operations on `conns_mutex_`, system calls on client descriptors, and calls of the
user's callbacks. Other threads call `send` and `broadcast` between the events.

The kernel is part of the state: `opened` are the client descriptors that are open. `accept` returns
a descriptor that is not open, and `epoll_wait` reports open ones; events that contradict this have
no effect. Base64 of SHA-1 is a parameter, and so is the order in which a loop visits `conns_`.

`Handles` lists what an event can do, and under which conditions; properties of a single event are
proved from it (`handles_react`).
-/

set_option autoImplicit false

namespace CppMeet.Signaling.EventLoop

open CppMeet.Lib.HashMap CppMeet.Lib.Run CppMeet.Signaling.WsFrames

/-! ## Actions and the kernel -/

/-- The steps of the loop that others can see: the mutex, the system calls and the callbacks. -/
inductive LoopAction where
  | lock
  | unlock
  | accept (fd : ℤ)
  | setNonblocking (fd : ℤ)
  | epollAdd (fd : ℤ)
  | epollDel (fd : ℤ)
  | read (fd : ℤ)
  | write (fd : ℤ) (bytes : List UInt8)
  | close (fd : ℤ)
  | onConnect (fd : ℤ)
  | onMessage (fd : ℤ) (msg : List UInt8)
  | onDisconnect (fd : ℤ)
  /-- An exception leaves the thread. -/
  | terminate
  deriving DecidableEq

/-- The open client descriptors after an action. -/
def openedStep (opened : Finset ℤ) : LoopAction → Finset ℤ
  | .accept fd => insert fd opened
  | .close fd => opened.erase fd
  | _ => opened

/-- Which callbacks the user has installed. -/
structure Callbacks where
  onConnect : Bool
  onMessage : Bool
  onDisconnect : Bool

/-- What `epoll_wait` can report: the listening socket or a client. -/
inductive Source where
  | server
  | client (fd : ℤ)
  deriving DecidableEq

/-- Where the loop stands; `batch` are the reported sources that are not handled yet. -/
inductive Control where
  /-- In `run_loop`, and in `epoll_wait` once the batch is empty. -/
  | serving (batch : List Source)
  /-- In the loop of `accept_client`. -/
  | accepting (batch : List Source)
  /-- In the `read` of `handle_client(fd)`. -/
  | reading (fd : ℤ) (batch : List Source)
  | ended
  | crashed
  deriving DecidableEq

/-- The connections, where the loop stands, and the descriptors the server has open. -/
structure Server where
  conns : UnorderedMap ℤ WsConnection := ∅
  control : Control := .serving []
  opened : Finset ℤ := ∅

/-- What `read` returns. `sent` tells whether a handshake response that follows these bytes is
written in full. -/
inductive ReadResult where
  | data (bytes : List UInt8) (sent : Bool)
  | wouldBlock
  | error
  | endOfStream

/-- What the loop is answered by the kernel, and the calls made from other threads. -/
inductive Event where
  /-- `epoll_wait` returns while `running_` is true. -/
  | wait (batch : List Source)
  /-- The loop takes the next source of the batch. -/
  | next
  /-- `accept` returns a descriptor or fails. -/
  | accept (result : Option ℤ)
  | read (result : ReadResult)
  /-- The loop finds `running_` false and closes all connections. -/
  | stop
  | send (connId : ℤ) (frame : List UInt8)
  | broadcast (frame : List UInt8)

/-! ## The handshake -/

/-- `std::string::find`. -/
def find (pat text : List UInt8) : Option ℕ :=
  (List.range (text.length + 1)).find? fun i => pat.isPrefixOf (text.drop i)

/-- The bytes of an ASCII string. -/
def bytes (s : String) : List UInt8 := s.toList.map fun c => UInt8.ofNat c.toNat

/-- The request is complete. -/
def requestEnds (req : List UInt8) : Bool := (find (bytes "\r\n\r\n") req).isSome

/-- The response of `do_ws_handshake`, if the request has a key. -/
def handshakeResponse (sha1Base64 : List UInt8 → List UInt8) (req : List UInt8) :
    Option (List UInt8) := do
  let keyHeader := bytes "Sec-WebSocket-Key:"
  let pos ← find keyHeader req
  -- the key may be indented by blanks
  let value := (req.drop (pos + keyHeader.length)).dropWhile (· = 0x20)
  let len ← find (bytes "\r\n") value
  let accept := sha1Base64 (value.take len ++ bytes "258EAFA5-E914-47DA-95CA-C5AB0DC85B11")
  return bytes
      "HTTP/1.1 101 Switching Protocols\r\nUpgrade: websocket\r\nConnection: Upgrade\r\n" ++
    bytes "Sec-WebSocket-Accept: " ++ accept ++ bytes "\r\n\r\n"

/-! ## Reactions -/

/-- The connections and the place in the loop after an event, and what was done. -/
structure Reaction where
  conns : UnorderedMap ℤ WsConnection
  control : Control
  actions : List LoopAction

variable (sha1Base64 : List UInt8 → List UInt8) (order : IterOrder ℤ WsConnection)
  (callbacks : Callbacks)

/-- The part of `handle_client` behind the label `disconnect`. -/
def disconnect (s : Server) (fd : ℤ) (batch : List Source) : Reaction where
  conns := s.conns.erase fd
  control := .serving batch
  actions := [.lock, .unlock, .epollDel fd, .close fd] ++
    if callbacks.onDisconnect then [.onDisconnect fd] else []

/-- The frame parser's effects as actions. -/
def toActions : WsEvent → List LoopAction
  | .onMessage fd msg => if callbacks.onMessage then [.onMessage fd msg] else []
  | .write fd bytes => [.write fd bytes]
  | .close fd => [.close fd]
  | .lengthError => [.terminate]

/-- The bytes of one read, for a connection that waits for the rest of its request. -/
def handleRequest (s : Server) (fd : ℤ) (batch : List Source) (conn : WsConnection)
    (bytes : List UInt8) (sent : Bool) : Reaction :=
  let conn := { conn with recvBuf := conn.recvBuf ++ bytes }
  let conns := s.conns.insert fd conn
  if requestEnds conn.recvBuf then
    match handshakeResponse sha1Base64 conn.recvBuf with
    | none =>
        -- the lock is released before the connection is dropped
        let r := disconnect callbacks { s with conns := conns } fd batch
        { r with actions := [.lock, .unlock] ++ r.actions }
    | some response =>
        if sent then
          -- `on_connect_` is called before the lock is released
          { conns := conns.insert fd { conn with handshakeDone := true }
            control := .reading fd batch
            actions := [.lock, .write conn.fd response] ++
              (if callbacks.onConnect then [.onConnect fd] else []) ++ [.unlock, .read fd] }
        else
          let r := disconnect callbacks { s with conns := conns } fd batch
          { r with actions := [.lock, .write conn.fd response, .unlock] ++ r.actions }
  else { conns := conns, control := .reading fd batch, actions := [.lock, .unlock, .read fd] }

/-- The bytes of one read, for a connection whose handshake is done. -/
def handleFrames (s : Server) (fd : ℤ) (batch : List Source) (conn : WsConnection)
    (bytes : List UInt8) : Reaction :=
  let p := readBytes conn bytes
  let conns := s.conns.insert fd p.conn
  let actions := .lock :: p.events.flatMap (toActions callbacks)
  if .lengthError ∈ p.events then { conns := conns, control := .crashed, actions := actions }
  else
    -- the loop reads on, also after a Close frame
    { conns := conns, control := .reading fd batch, actions := actions ++ [.unlock, .read fd] }

/-- What is done with the result of a read. -/
def handleRead (s : Server) (fd : ℤ) (batch : List Source) : ReadResult → Reaction
  -- `EAGAIN`: all bytes have been read
  | .wouldBlock => { conns := s.conns, control := .serving batch, actions := [] }
  | .error => disconnect callbacks s fd batch
  | .endOfStream => disconnect callbacks s fd batch
  | .data bytes sent =>
      match s.conns.lookup fd with
      | none => { conns := s.conns, control := .serving batch, actions := [.lock, .unlock] }
      | some conn =>
          if conn.handshakeDone then handleFrames callbacks s fd batch conn bytes
          else handleRequest sha1Base64 callbacks s fd batch conn bytes sent

/-- An event that cannot happen now. -/
def ignored (s : Server) : Reaction := { conns := s.conns, control := s.control, actions := [] }

/-- Whether the source is one the loop waits for. -/
def Source.isOpen (opened : Finset ℤ) : Source → Bool
  | .server => true
  | .client fd => fd ∈ opened

/-- What an event does to the server, and the actions it takes. Events that cannot occur are
ignored. -/
def react (s : Server) : Event → Reaction
  | .wait batch =>
      if s.control = .serving [] ∧ batch.Nodup ∧ ∀ source ∈ batch, source.isOpen s.opened then
        { conns := s.conns, control := .serving batch, actions := [] }
      else ignored s
  | .next =>
      match s.control with
      | .serving (.server :: batch) =>
          { conns := s.conns, control := .accepting batch, actions := [] }
      | .serving (.client fd :: batch) =>
          { conns := s.conns, control := .reading fd batch, actions := [.read fd] }
      | _ => ignored s
  | .accept result =>
      match s.control, result with
      | .accepting batch, none => { conns := s.conns, control := .serving batch, actions := [] }
      | .accepting batch, some fd =>
          if fd ∈ s.opened then ignored s
          else
            { conns := s.conns.insert fd { fd := fd }
              control := .accepting batch
              actions := [.accept fd, .setNonblocking fd, .epollAdd fd, .lock, .unlock] }
      | _, _ => ignored s
  | .read result =>
      match s.control with
      | .reading fd batch => handleRead sha1Base64 callbacks s fd batch result
      | _ => ignored s
  | .stop =>
      -- `running_` is loaded when the batch is done
      if s.control = .serving [] then
        { conns := ∅
          control := .ended
          actions :=
            .lock :: (order s.conns).visits.map (fun entry => .close entry.1) ++ [.unlock] }
      else ignored s
  | .send connId frame =>
      if s.control = .crashed then ignored s
      else
        { ignored s with
          actions :=
            .lock :: (if connId ∈ s.conns then [.write connId frame] else []) ++ [.unlock] }
  | .broadcast frame =>
      if s.control = .crashed then ignored s
      else
        let done := (order s.conns).visits.filter fun entry => entry.2.handshakeDone
        { ignored s with
          actions := .lock :: done.map (fun entry => .write entry.1 frame) ++ [.unlock] }

/-- The actions of one event. -/
def actions (s : Server) (e : Event) : List LoopAction :=
  (react sha1Base64 order callbacks s e).actions

/-- The descriptor is that of a new client. -/
def accepts (fd : ℤ) (actions : List LoopAction) : Bool := .accept fd ∈ actions

/-- An event, and what its actions do to the descriptors. -/
def step (s : Server) (e : Event) : Server :=
  let r := react sha1Base64 order callbacks s e
  { conns := r.conns, control := r.control, opened := run openedStep s.opened r.actions }

/-! ## What one event does -/

/-- The reactions to an event, each with what is known of the state in which it happens. -/
inductive Handles (s : Server) : Event → Reaction → Prop
  | ignored {e : Event} :
      (∀ fd batch result, s.control = .reading fd batch → e ≠ .read result) →
      Handles s e (ignored s)
  | wait {batch : List Source} :
      s.control = .serving [] → batch.Nodup → (∀ source ∈ batch, source.isOpen s.opened) →
      Handles s (.wait batch) { conns := s.conns, control := .serving batch, actions := [] }
  | server {batch : List Source} :
      s.control = .serving (.server :: batch) →
      Handles s .next { conns := s.conns, control := .accepting batch, actions := [] }
  | client {fd : ℤ} {batch : List Source} :
      s.control = .serving (.client fd :: batch) →
      Handles s .next { conns := s.conns, control := .reading fd batch, actions := [.read fd] }
  | noClient {batch : List Source} :
      s.control = .accepting batch →
      Handles s (.accept none) { conns := s.conns, control := .serving batch, actions := [] }
  | newClient {fd : ℤ} {batch : List Source} :
      s.control = .accepting batch → fd ∉ s.opened →
      Handles s (.accept (some fd))
        { conns := s.conns.insert fd { fd := fd }
          control := .accepting batch
          actions := [.accept fd, .setNonblocking fd, .epollAdd fd, .lock, .unlock] }
  | read {fd : ℤ} {batch : List Source} (result : ReadResult) :
      s.control = .reading fd batch →
      Handles s (.read result) (handleRead sha1Base64 callbacks s fd batch result)
  | stop :
      s.control = .serving [] →
      Handles s .stop
        { conns := ∅
          control := .ended
          actions :=
            .lock :: (order s.conns).visits.map (fun entry => .close entry.1) ++ [.unlock] }
  | send (connId : ℤ) (frame : List UInt8) :
      s.control ≠ .crashed →
      Handles s (.send connId frame)
        { ignored s with
          actions :=
            .lock :: (if connId ∈ s.conns then [.write connId frame] else []) ++ [.unlock] }
  | broadcast (frame : List UInt8) :
      s.control ≠ .crashed →
      Handles s (.broadcast frame)
        { ignored s with
          actions := .lock ::
            ((order s.conns).visits.filter fun entry => entry.2.handshakeDone).map
              (fun entry => .write entry.1 frame) ++ [.unlock] }

/-- Every event is handled in one of these ways. -/
theorem handles_react (s : Server) (e : Event) :
    Handles sha1Base64 order callbacks s e (react sha1Base64 order callbacks s e) := by
  cases e with
  | wait batch =>
      rw [react]
      split
      · -- the batch that epoll reports has open descriptors, each of them once
        rename_i hguard
        obtain ⟨hcontrol, hnodup, hopen⟩ := hguard
        exact .wait hcontrol hnodup hopen
      · exact .ignored fun _ _ _ _ => nofun
  | next =>
      simp only [react]
      split
      · exact .server (by assumption)
      · exact .client (by assumption)
      · exact .ignored fun _ _ _ _ => nofun
  | accept result =>
      simp only [react]
      split
      · exact .noClient (by assumption)
      · rename_i batch fd hcontrol
        split
        · -- the kernel would return a descriptor that is open already
          exact .ignored fun _ _ _ _ => nofun
        · rename_i hfd
          exact .newClient hcontrol hfd
      · exact .ignored fun _ _ _ _ => nofun
  | read result =>
      rw [react]
      split
      · rename_i fd batch hcontrol
        exact .read result hcontrol
      · -- nothing is read while the loop is elsewhere
        rename_i hcontrol
        exact .ignored fun fd batch _ hreading => absurd hreading (hcontrol fd batch)
  | stop =>
      rw [react]
      split
      · rename_i hcontrol
        exact .stop hcontrol
      · exact .ignored fun _ _ _ _ => nofun
  | send connId frame =>
      rw [react]
      split
      · exact .ignored fun _ _ _ _ => nofun
      · rename_i hcontrol
        exact .send connId frame hcontrol
  | broadcast frame =>
      rw [react]
      split
      · exact .ignored fun _ _ _ _ => nofun
      · rename_i hcontrol
        exact .broadcast frame hcontrol

/-- A condition on the connection that is read. -/
theorem forall_reading_iff {s : Server} {fd : ℤ} {batch : List Source} {conn : WsConnection}
    (hcontrol : s.control = .reading fd batch) (hlookup : s.conns.lookup fd = some conn)
    (P : WsConnection → Prop) :
    (∀ fd batch conn, s.control = .reading fd batch → s.conns.lookup fd = some conn → P conn) ↔
      P conn := by
  constructor
  · intro h
    exact h fd batch conn hcontrol hlookup
  · intro h fd' batch' conn' hcontrol' hlookup'
    rw [hcontrol] at hcontrol'
    cases hcontrol'
    rw [hlookup] at hlookup'
    cases hlookup'
    exact h

/-! ## A first request -/

/-- The answer to `firstRequest`, whose key is the only one it is asked for. -/
def firstHash (_ : List UInt8) : List UInt8 := bytes "s3pPLMBiTxaQ9kYGzzhZRbK+xOo="

/-- A handshake request. -/
def firstRequest : List UInt8 :=
  bytes "GET / HTTP/1.1\r\nSec-WebSocket-Key: dGhlIHNhbXBsZSBub25jZQ==\r\n\r\n"

/-- A client connects on descriptor 5 and is answered. -/
def firstEvents : List Event :=
  [.wait [.server], .next, .accept (some 5), .accept none, .wait [.client 5], .next,
    .read (.data firstRequest true)]

end CppMeet.Signaling.EventLoop
