import CppMeet.Signaling.LifeCycle
import CppMeet.Signaling.WsRoundTrip

/-!
# What the program hears from a client

The bytes of a client arrive in reads of any size, and the reads of all clients are interleaved with
each other and with what other threads send. `Heard` keeps what was read from one descriptor since
it was accepted, in three parts: one request, what came behind it in the read that completed it, and
the stream of the later reads. `handle_client` answers the request and does not look at the second
part again, so these bytes are lost. `Heard.expected` says which callbacks the others make:
`on_connect_`, and `on_message_` for each text frame of the stream drained at once.

`client_input` says that the callbacks are these in every run, followed by `on_disconnect_` at most,
once the connection is gone. So a client that waits for the answer and then sends text frames is
heard word for word: what has reached `on_message_` are the messages of the frames that are there as
a whole. The kernel has to see to it that nothing is read from a descriptor that was closed
(`ReadsOpen`), since the loop reads on after a Close frame.
-/

set_option autoImplicit false

namespace CppMeet.Signaling.InStream

open CppMeet.Lib.Frames CppMeet.Lib.HashMap CppMeet.Lib.Run CppMeet.Signaling.Connection
open CppMeet.Signaling.Descriptors CppMeet.Signaling.EventLoop CppMeet.Signaling.LifeCycle
open CppMeet.Signaling.WsFrames CppMeet.Signaling.WsRoundTrip

variable (sha1Base64 : List UInt8 → List UInt8) (order : IterOrder ℤ WsConnection)
  (callbacks : Callbacks) (fd : ℤ)

/-! ## The bytes of a connection -/

/-- The message of a text frame. -/
def asText : ParsedFrame → Option (List UInt8)
  | .frame opcode _ payload => if opcode = 0x1 then some payload else none
  | .lengthError => none

/-- The text messages in a stream of frames, up to a Close frame. -/
def texts (stream : List UInt8) : List (List UInt8) :=
  (drain wsFraming stream).frames.filterMap asText

/-- What was received up to the end of the request, all of it as long as the request has no end. -/
def requestOf (received : List UInt8) : List UInt8 :=
  match find (bytes "\r\n\r\n") received with
  | some pos => received.take (pos + 4)
  | none => received

/-- What was read from a connection: the request, whether it was answered, the bytes behind it in
the read that completed it, which are lost, and the bytes of the reads after that. -/
structure Heard where
  request : List UInt8 := []
  answered : Bool := false
  lost : List UInt8 := []
  stream : List UInt8 := []

namespace Heard

/-- All of it, in order. -/
def received (h : Heard) : List UInt8 := h.request ++ h.lost ++ h.stream

/-- A read; `sent` tells whether an answer to the request was written in full. -/
def next (h : Heard) (bytes : List UInt8) (sent : Bool) : Heard :=
  if h.answered then { h with stream := h.stream ++ bytes }
  else
    let received := h.received ++ bytes
    { request := requestOf received
      answered := requestEnds received && (handshakeResponse sha1Base64 received).isSome && sent
      lost := received.drop (requestOf received).length }

/-- The callbacks that the connection has made of it. -/
def expected (h : Heard) : List Signal :=
  if h.answered then
    (if callbacks.onConnect then [.connect] else []) ++
      if callbacks.onMessage then (texts h.stream).map .message else []
  else []

/-- No Close frame was read, and no frame that is too long. -/
def Open (h : Heard) : Prop := (drain wsFraming h.stream).ended = false

end Heard

/-! ## One connection -/

/-- The connection is what the bytes that were read make of it. -/
structure Follows (conn : WsConnection) (h : Heard) : Prop where
  request : conn.recvBuf = h.request ++ h.lost
  answered : conn.handshakeDone = h.answered
  unanswered : h.answered = false → h.stream = []
  buffer : h.Open → conn.wsBuf = (drain wsFraming h.stream).rest

section Reads

variable {sha1Base64 callbacks} {conn : WsConnection} {h : Heard}

/-- A connection that was just accepted has heard nothing. -/
theorem follows_accepted (fd : ℤ) : Follows { fd := fd } {} where
  request := rfl
  answered := rfl
  unanswered _ := rfl
  buffer _ := by
    rw [drain_of_none wsFraming.next_nil]

theorem open_start : ({} : Heard).Open := by
  rw [Heard.Open, drain_of_none wsFraming.next_nil]

theorem texts_nil : texts [] = [] := by
  rw [texts, drain_of_none wsFraming.next_nil]
  rfl

/-- `on_message_` is called for the text frames. -/
theorem messages_dispatch (fd : ℤ) (frames : List ParsedFrame) :
    messages callbacks (frames.flatMap (ParsedFrame.dispatch fd)) =
      if callbacks.onMessage then (frames.filterMap asText).map .message else [] := by
  rw [messages]
  split
  · rw [List.filterMap_flatMap, List.map_filterMap, List.filterMap_eq_flatMap_toList]
    apply List.flatMap_congr
    intro f _
    cases f with
    | lengthError => rfl
    | frame opcode payloadLen payload =>
        rw [ParsedFrame.dispatch, asText]
        split_ifs with htext hclose hping hempty
        · rfl
        · rfl
        · rfl
        · rfl
        · rfl
  · rfl

/-- A read of an open stream: the frames that it completes come behind those before. -/
theorem drain_stream (hfollows : Follows conn h) (hopen : h.Open) (bytes : List UInt8) :
    drain wsFraming (h.stream ++ bytes) =
      let d := drain wsFraming (conn.wsBuf ++ bytes)
      ⟨(drain wsFraming h.stream).frames ++ d.frames, d.rest, d.ended⟩ := by
  rw [drain_append, hfollows.buffer hopen, hopen]
  rfl

variable (sha1Base64 callbacks) in
/-- The bytes of frames. -/
theorem follows_readBytes (hfollows : Follows conn h) (hopen : h.Open)
    (hdone : h.answered = true) (bytes : List UInt8) (sent : Bool) :
    Follows (readBytes conn bytes).conn (h.next sha1Base64 bytes sent) ∧
      h.expected callbacks ++ messages callbacks (readBytes conn bytes).events =
        (h.next sha1Base64 bytes sent).expected callbacks := by
  have hdrain := drain_stream hfollows hopen bytes
  have hnext : h.next sha1Base64 bytes sent = { h with stream := h.stream ++ bytes } :=
    if_pos hdone
  rw [readBytes, parse_eq_drain, hnext]
  refine ⟨⟨hfollows.request, hfollows.answered, fun hnot => ?_, fun _ => ?_⟩, ?_⟩
  · rw [hdone] at hnot
    cases hnot
  · dsimp only
    rw [hdrain]
  · dsimp only
    rw [messages_dispatch, Heard.expected, Heard.expected, if_pos hdone, if_pos hdone,
      List.append_assoc]
    congr 1
    split
    · rw [texts, texts, hdrain, List.filterMap_append, List.map_append]
    · rfl

/-- The request and what is behind it are all that was received. -/
theorem requestOf_append_drop (received : List UInt8) :
    requestOf received ++ received.drop (requestOf received).length = received := by
  have hpart : requestOf received <+: received := by
    rw [requestOf]
    split
    · exact List.take_prefix _ _
    · exact List.prefix_rfl
  exact List.prefix_iff_eq_append.1 hpart

/-- No byte is read twice or left out. -/
theorem received_next (h : Heard) (bytes : List UInt8) (sent : Bool) :
    (h.next sha1Base64 bytes sent).received = h.received ++ bytes := by
  rw [Heard.next]
  split
  · simp only [Heard.received, List.append_assoc]
  · simp only [Heard.received, List.append_nil, requestOf_append_drop]

/-- The bytes of a request. -/
theorem next_of_waiting (hfollows : Follows conn h) (hdone : h.answered = false)
    (bytes : List UInt8) (sent : Bool) :
    h.next sha1Base64 bytes sent =
      { request := requestOf (conn.recvBuf ++ bytes)
        answered := requestEnds (conn.recvBuf ++ bytes) &&
          (handshakeResponse sha1Base64 (conn.recvBuf ++ bytes)).isSome && sent
        lost := (conn.recvBuf ++ bytes).drop (requestOf (conn.recvBuf ++ bytes)).length } := by
  have hreceived : h.received = conn.recvBuf := by
    rw [Heard.received, hfollows.unanswered hdone, List.append_nil, hfollows.request]
  rw [Heard.next, hdone, hreceived]
  rfl

variable (sha1Base64 callbacks) in
/-- What a read makes of the connection, and the callbacks that it adds. -/
theorem follows_serve (hfollows : Follows conn h) (hopen : h.Open) (bytes : List UInt8)
    (sent : Bool) :
    let served := serve sha1Base64 callbacks conn (.data bytes sent)
    (∀ conn', served.conn = some conn' → Follows conn' (h.next sha1Base64 bytes sent) ∧
      h.expected callbacks ++ served.calls = (h.next sha1Base64 bytes sent).expected callbacks) ∧
    (served.conn = none → (h.next sha1Base64 bytes sent).expected callbacks = [] ∧
      h.expected callbacks = [] ∧ served.calls = (dropped callbacks).calls) := by
  cases hdone : h.answered with
  | true =>
      have hframes := follows_readBytes sha1Base64 callbacks hfollows hopen hdone bytes sent
      rw [serve, if_pos (hfollows.answered.trans hdone)]
      refine ⟨fun conn' hconn' => ?_, fun hnone => (Option.some_ne_none _ hnone).elim⟩
      cases hconn'
      exact hframes
  | false =>
      have hnone : h.expected callbacks = [] := if_neg (by rw [hdone]; exact Bool.false_ne_true)
      have hwait : ¬conn.handshakeDone = true := by
        rw [hfollows.answered, hdone]
        exact Bool.false_ne_true
      rw [next_of_waiting hfollows hdone, serve, if_neg hwait, hnone]
      dsimp only
      by_cases hends : requestEnds (conn.recvBuf ++ bytes) = true
      · rw [if_pos hends, hends]
        by_cases hsent : (handshakeResponse sha1Base64 (conn.recvBuf ++ bytes)).isSome = true ∧
            sent = true
        · -- the answer is written
          rw [if_pos hsent, hsent.1, hsent.2]
          refine ⟨fun conn' hconn' => ?_, fun hnone => (Option.some_ne_none _ hnone).elim⟩
          cases hconn'
          refine ⟨⟨(requestOf_append_drop _).symm, rfl, Bool.noConfusion, fun _ => ?_⟩, ?_⟩
          · have hempty := hfollows.buffer hopen
            rwa [hfollows.unanswered hdone] at hempty
          · simp [Heard.expected, texts_nil]
        · rw [if_neg hsent]
          refine ⟨fun conn' hconn' => ?_, fun _ => ⟨if_neg ?_, rfl, rfl⟩⟩
          · cases hconn'
          · rwa [Bool.true_and, Bool.and_eq_true]
      · rw [if_neg hends, Bool.eq_false_of_not_eq_true hends]
        refine ⟨fun conn' hconn' => ?_, fun hnone => (Option.some_ne_none _ hnone).elim⟩
        cases hconn'
        refine ⟨⟨(requestOf_append_drop _).symm, Bool.eq_false_of_not_eq_true hwait, fun _ => rfl,
          fun _ => ?_⟩, rfl⟩
        have hempty := hfollows.buffer hopen
        rwa [hfollows.unanswered hdone] at hempty

/-- A read that ends the stream closes the connection, or brings the loop down. -/
theorem closes_of_ended (hfollows : Follows conn h) (hopen : h.Open) {bytes : List UInt8}
    {sent : Bool} (hended : ¬(h.next sha1Base64 bytes sent).Open) :
    conn.handshakeDone = true ∧
      (.close conn.fd ∈ (readBytes conn bytes).events ∨
        .lengthError ∈ (readBytes conn bytes).events) := by
  cases hdone : h.answered with
  | false =>
      refine absurd ?_ hended
      rw [next_of_waiting hfollows hdone, Heard.Open, drain_of_none wsFraming.next_nil]
  | true =>
      refine ⟨hfollows.answered.trans hdone, ?_⟩
      have hnext : h.next sha1Base64 bytes sent = { h with stream := h.stream ++ bytes } :=
        if_pos hdone
      rw [hnext, Heard.Open, drain_stream hfollows hopen, Bool.not_eq_false] at hended
      obtain ⟨f, hf, hfinal⟩ := exists_final_of_ended hended
      cases f with
      | lengthError => exact Or.inr (mem_events.2 ⟨_, hf, List.mem_singleton.2 rfl⟩)
      | frame opcode payloadLen payload =>
          have hclose : opcode = 0x8 := of_decide_eq_true hfinal
          rw [hclose] at hf
          exact Or.inl (mem_events.2 ⟨_, hf, List.mem_singleton.2 rfl⟩)

end Reads

/-! ## One descriptor -/

/-- What an event adds to what was heard. -/
def arrive (s : Server) (e : Event) (h : Heard) : Heard :=
  match e, s.control with
  | .read (.data bytes sent), .reading fd' _ =>
      if fd' = fd then h.next sha1Base64 bytes sent else h
  | _, _ => h

/-- The bytes that an event reads from the descriptor. -/
def bytesRead (s : Server) (e : Event) : List UInt8 :=
  match e, s.control with
  | .read (.data bytes _), .reading fd' _ => if fd' = fd then bytes else []
  | _, _ => []

/-- A run of the server, with the bytes that were read from one descriptor, what they are and which
callbacks were made for it since it was last accepted. -/
structure Watch where
  server : Server := {}
  received : List UInt8 := []
  heard : Heard := {}
  signals : List Signal := []

/-- An event, what was read and said in it; a new connection on the descriptor starts over. -/
def Watch.step (w : Watch) (e : Event) : Watch :=
  let acts := actions sha1Base64 order callbacks w.server e
  { server := EventLoop.step sha1Base64 order callbacks w.server e
    received := if accepts fd acts then [] else w.received ++ bytesRead fd w.server e
    heard := if accepts fd acts then {} else arrive sha1Base64 fd w.server e w.heard
    signals := if accepts fd acts then [] else w.signals ++ acts.filterMap (signal fd) }

/-- Bytes are read from open descriptors only. -/
def ReadsOpen (w : Watch) : Event → Prop
  | .read (.data _ _) => ∀ fd batch, w.server.control = .reading fd batch → fd ∈ w.server.opened
  | _ => True

/-- What is known of the callbacks. -/
def Told (s : Server) (h : Heard) (signals : List Signal) : Prop :=
  ∃ fin, signals = h.expected callbacks ++ fin ∧ (fin = [] ∨ fin = [.disconnect]) ∧
    (fd ∈ s.conns → fin = [])

/-- The invariant of the runs. -/
structure Inv (w : Watch) : Prop where
  covered : Covered w.server
  received : w.received = w.heard.received
  follows : ∀ conn, w.server.conns.lookup fd = some conn → Follows conn w.heard
  closed : w.heard.Open ∨ fd ∉ w.server.opened ∨ w.server.control = .crashed
  told : Told callbacks fd w.server w.heard w.signals

/-! ## One event -/

section Events

variable {sha1Base64 order callbacks fd} {w : Watch}

variable (sha1Base64 callbacks fd) in
/-- What an event has to do for the descriptor, unless it accepts it. -/
structure Keeps (w : Watch) (e : Event) (r : Reaction) : Prop where
  accept : .accept fd ∉ r.actions
  follows : ∀ conn, r.conns.lookup fd = some conn →
    Follows conn (arrive sha1Base64 fd w.server e w.heard)
  closed : (arrive sha1Base64 fd w.server e w.heard).Open ∨
    fd ∉ run openedStep w.server.opened r.actions ∨ r.control = .crashed
  told : Told callbacks fd (after w.server r) (arrive sha1Base64 fd w.server e w.heard)
    (w.signals ++ r.actions.filterMap (signal fd))

variable (sha1Base64) in
/-- Every byte read is filed in one of the three parts. -/
theorem received_arrive (s : Server) (e : Event) (h : Heard) :
    (arrive sha1Base64 fd s e h).received = h.received ++ bytesRead fd s e := by
  unfold arrive bytesRead
  split
  · split
    · exact received_next h _ _
    · exact (List.append_nil _).symm
  · exact (List.append_nil _).symm

theorem accept_not_mem {acts : List LoopAction} (h : .accepted ∉ acts.filterMap (signal fd)) :
    .accept fd ∉ acts :=
  fun hmem => h (List.mem_filterMap.2 ⟨_, hmem, if_pos rfl⟩)

variable (sha1Base64) in
/-- An event that is no read of this connection brings nothing. -/
theorem arrive_of_not_reading {s : Server} {e : Event}
    (hnot : ∀ batch result, s.control = .reading fd batch → e ≠ .read result) (h : Heard) :
    arrive sha1Base64 fd s e h = h := by
  unfold arrive
  split
  · rename_i hcontrol
    exact if_neg fun hfd => hnot _ _ (hfd ▸ hcontrol) rfl
  · rfl

/-- Nothing happens to the descriptor, except that its connection may go. -/
theorem keeps_quiet (h : Inv callbacks fd w) {e : Event} {r : Reaction}
    (hsignals : r.actions.filterMap (signal fd) = [])
    (hconns : ∀ conn, r.conns.lookup fd = some conn → w.server.conns.lookup fd = some conn)
    (harrive : arrive sha1Base64 fd w.server e w.heard = w.heard)
    (hcrashed : w.server.control = .crashed → r.control = .crashed) :
    Keeps sha1Base64 callbacks fd w e r := by
  have haccept : .accept fd ∉ r.actions :=
    accept_not_mem (by rw [hsignals]; exact List.not_mem_nil)
  refine ⟨haccept, ?_, ?_, ?_⟩
  · rw [harrive]
    exact fun conn hconn => h.follows conn (hconns conn hconn)
  · rw [harrive]
    exact h.closed.imp_right (Or.imp (fun hfd => not_mem_run haccept (Or.inl hfd)) hcrashed)
  · rw [harrive, hsignals, List.append_nil]
    obtain ⟨fin, hw, hfin, hgone⟩ := h.told
    refine ⟨fin, hw, hfin, fun hmem => hgone ?_⟩
    obtain ⟨conn, hconn⟩ := Finmap.mem_iff.1 hmem
    exact Finmap.mem_iff.2 ⟨conn, hconns conn hconn⟩

/-- The read of another connection. -/
theorem keeps_other (h : Inv callbacks fd w) {fd' : ℤ} {batch : List Source}
    (hcontrol : w.server.control = .reading fd' batch) (hfd : fd' ≠ fd) (result : ReadResult) :
    Keeps sha1Base64 callbacks fd w (.read result)
      (handleRead sha1Base64 callbacks w.server fd' batch result) := by
  have hplaced : Placed w.server.conns.keys (.reading fd' batch) := hcontrol ▸ h.covered.placed
  obtain ⟨conn, hlookup⟩ := Finmap.mem_iff.1 (Finmap.mem_keys.1 hplaced.1)
  have hserves : Serves w.server fd' batch _ _ :=
    serves_handleRead sha1Base64 callbacks hlookup (h.covered.own fd' conn hlookup) result
  apply keeps_quiet h
  · rw [hserves.signals, if_neg hfd.symm]
  · intro conn' hconn'
    rwa [hserves.lookup, if_neg hfd.symm] at hconn'
  · apply arrive_of_not_reading
    intro batch' result' hreading
    cases hcontrol.symm.trans hreading
    exact absurd rfl hfd
  · intro hcrashed
    cases hcontrol.symm.trans hcrashed

/-- The callbacks so far, while `conns_` has the connection. -/
theorem signals_eq (h : Inv callbacks fd w) {conn : WsConnection}
    (hlookup : w.server.conns.lookup fd = some conn) :
    w.signals = w.heard.expected callbacks := by
  obtain ⟨fin, hw, -, hthere⟩ := h.told
  rw [hw, hthere (Finmap.mem_iff.2 ⟨conn, hlookup⟩), List.append_nil]

variable (callbacks) in
/-- A dropped connection is reported or not. -/
theorem dropped_calls :
    (dropped callbacks).calls = [] ∨ (dropped callbacks).calls = [.disconnect] := by
  rw [dropped]
  split
  · exact Or.inr rfl
  · exact Or.inl rfl

/-- The bytes of its own connection. -/
theorem keeps_data (h : Inv callbacks fd w) {batch : List Source}
    (hcontrol : w.server.control = .reading fd batch) {bytes : List UInt8} {sent : Bool}
    (hreads : fd ∈ w.server.opened) :
    Keeps sha1Base64 callbacks fd w
      (.read (.data bytes sent))
      (handleRead sha1Base64 callbacks w.server fd batch (.data bytes sent)) := by
  have hplaced : Placed w.server.conns.keys (.reading fd batch) := hcontrol ▸ h.covered.placed
  obtain ⟨conn, hlookup⟩ := Finmap.mem_iff.1 (Finmap.mem_keys.1 hplaced.1)
  have hown := h.covered.own fd conn hlookup
  have hserves : Serves w.server fd batch _ _ :=
    serves_handleRead sha1Base64 callbacks hlookup hown (.data bytes sent)
  have hcase := serveCase_serve sha1Base64 callbacks conn (.data bytes sent)
  have haccept := accept_not_mem
    (hserves.accepted_not_mem (hcase.accepted_not_mem sha1Base64 callbacks) fd)
  have hopen : w.heard.Open := by
    rcases h.closed with hopen | hclosed | hcrashed
    · exact hopen
    · exact absurd hreads hclosed
    · cases hcontrol.symm.trans hcrashed
  have harrive : arrive sha1Base64 fd w.server (.read (.data bytes sent)) w.heard =
      w.heard.next sha1Base64 bytes sent := by
    simp only [arrive, hcontrol, if_true]
  have hfollows := h.follows conn hlookup
  obtain ⟨hstays, hgoes⟩ := follows_serve sha1Base64 callbacks hfollows hopen bytes sent
  have hafter := hserves.lookup fd
  rw [if_pos rfl] at hafter
  refine ⟨haccept, ?_, ?_, ?_⟩
  · intro conn' hconn'
    rw [harrive]
    exact (hstays conn' (hafter.symm.trans hconn')).1
  · rw [harrive]
    by_cases hstill : (w.heard.next sha1Base64 bytes sent).Open
    · exact Or.inl hstill
    · right
      obtain ⟨hdone, hends⟩ := closes_of_ended hfollows hopen hstill
      simp only [handleRead, hlookup, hdone, if_true] at haccept ⊢
      rcases hends with hclose | herror
      · -- a Close frame
        refine Or.inl (not_mem_run haccept (Or.inr ?_))
        have hacts : .close fd ∈
            (readBytes conn bytes).events.flatMap (toActions callbacks) :=
          List.mem_flatMap.2 ⟨_, hclose, by rw [hown]; exact List.mem_singleton.2 rfl⟩
        rw [handleFrames]
        split
        · exact List.mem_cons_of_mem _ hacts
        · exact List.mem_append_left _ (List.mem_cons_of_mem _ hacts)
      · right
        rw [handleFrames, if_pos herror]
  · rw [harrive, signals_eq h hlookup, hserves.signals, if_pos rfl]
    cases hconn' : (serve sha1Base64 callbacks conn (.data bytes sent)).conn with
    | some conn' =>
        refine ⟨[], ?_, Or.inl rfl, fun _ => rfl⟩
        rw [List.append_nil]
        exact (hstays conn' hconn').2
    | none =>
        obtain ⟨hexpected, hbefore, hcalls⟩ := hgoes hconn'
        refine ⟨_, by rw [hexpected, hbefore, hcalls], dropped_calls callbacks, fun hmem => ?_⟩
        obtain ⟨conn', hthere⟩ := Finmap.mem_iff.1 hmem
        cases (hafter.trans hconn').symm.trans hthere

/-- The end of its own connection: the read fails, or finds the end of the stream. -/
theorem keeps_end (h : Inv callbacks fd w) {batch : List Source}
    (hcontrol : w.server.control = .reading fd batch) {result : ReadResult}
    (harrive : arrive sha1Base64 fd w.server (.read result) w.heard = w.heard)
    (hserved : ∀ conn, serve sha1Base64 callbacks conn result = dropped callbacks) :
    Keeps sha1Base64 callbacks fd w (.read result)
      (handleRead sha1Base64 callbacks w.server fd batch result) := by
  have hplaced : Placed w.server.conns.keys (.reading fd batch) := hcontrol ▸ h.covered.placed
  obtain ⟨conn, hlookup⟩ := Finmap.mem_iff.1 (Finmap.mem_keys.1 hplaced.1)
  have hserves : Serves w.server fd batch _ _ :=
    serves_handleRead sha1Base64 callbacks hlookup (h.covered.own fd conn hlookup) result
  have hcase := serveCase_serve sha1Base64 callbacks conn result
  have haccept := accept_not_mem
    (hserves.accepted_not_mem (hcase.accepted_not_mem sha1Base64 callbacks) fd)
  -- the connection is dropped, so its entry is gone
  rw [hserved] at hserves
  have hafter := hserves.lookup fd
  rw [if_pos rfl] at hafter
  have hgone : (handleRead sha1Base64 callbacks w.server fd batch result).conns.lookup fd = none :=
    hafter
  refine ⟨haccept, ?_, Or.inr (Or.inl (not_mem_run haccept (Or.inr (hserves.closes rfl)))), ?_⟩
  · intro conn' hconn'
    cases hgone.symm.trans hconn'
  · rw [harrive, signals_eq h hlookup, hserves.signals, if_pos rfl]
    refine ⟨_, rfl, dropped_calls callbacks, fun hmem => ?_⟩
    obtain ⟨conn', hthere⟩ := Finmap.mem_iff.1 hmem
    cases hgone.symm.trans hthere

theorem keeps_read (h : Inv callbacks fd w) {fd' : ℤ} {batch : List Source}
    (hcontrol : w.server.control = .reading fd' batch) {result : ReadResult}
    (hreads : ReadsOpen w (.read result)) :
    Keeps sha1Base64 callbacks fd w (.read result)
      (handleRead sha1Base64 callbacks w.server fd' batch result) := by
  by_cases hfd : fd' = fd
  · subst hfd
    cases result with
    | wouldBlock =>
        apply keeps_quiet h rfl (fun _ => id) rfl
        intro hcrashed
        cases hcontrol.symm.trans hcrashed
    | error => exact keeps_end h hcontrol rfl fun _ => rfl
    | endOfStream => exact keeps_end h hcontrol rfl fun _ => rfl
    | data bytes sent => exact keeps_data h hcontrol (hreads fd' batch hcontrol)
  · exact keeps_other h hcontrol hfd result

/-- An event that is no read, and accepts no client. -/
theorem keeps_same (h : Inv callbacks fd w) {e : Event} {r : Reaction}
    (hsignals : r.actions.filterMap (signal fd) = [])
    (hconns : ∀ conn, r.conns.lookup fd = some conn → w.server.conns.lookup fd = some conn)
    (hnot : ∀ fd batch result, w.server.control = .reading fd batch → e ≠ .read result)
    (hcrashed : w.server.control = .crashed → r.control = .crashed) :
    Keeps sha1Base64 callbacks fd w e r := by
  apply keeps_quiet h hsignals hconns ?_ hcrashed
  exact arrive_of_not_reading sha1Base64 (hnot fd) w.heard

variable (sha1Base64 order) in
/-- Any other event does, too, unless it is a new connection. -/
theorem keeps_of_handles (h : Inv callbacks fd w) {e : Event} {r : Reaction}
    (hhandles : Handles sha1Base64 order callbacks w.server e r) (hreads : ReadsOpen w e)
    (haccept : .accept fd ∉ r.actions) : Keeps sha1Base64 callbacks fd w e r := by
  cases hhandles with
  | ignored hnot => exact keeps_same h rfl (fun _ => id) hnot id
  | wait hcontrol =>
      refine keeps_same h rfl (fun _ => id) (fun _ _ _ _ => Event.noConfusion) fun hcrashed => ?_
      cases hcontrol.symm.trans hcrashed
  | server hcontrol =>
      refine keeps_same h rfl (fun _ => id) (fun _ _ _ _ => Event.noConfusion) fun hcrashed => ?_
      cases hcontrol.symm.trans hcrashed
  | client hcontrol =>
      refine keeps_same h rfl (fun _ => id) (fun _ _ _ _ => Event.noConfusion) fun hcrashed => ?_
      cases hcontrol.symm.trans hcrashed
  | noClient hcontrol =>
      refine keeps_same h rfl (fun _ => id) (fun _ _ _ _ => Event.noConfusion) fun hcrashed => ?_
      cases hcontrol.symm.trans hcrashed
  | @newClient fd' batch hcontrol hfd =>
      -- another descriptor, since this one was not accepted
      have hne : fd' ≠ fd := by
        rintro rfl
        exact haccept List.mem_cons_self
      apply keeps_same h
      · simp [List.filterMap_cons, signal, hne]
      · intro conn hconn
        rwa [lookup_insert_ite, if_neg hne.symm] at hconn
      · exact fun _ _ _ _ => Event.noConfusion
      · intro hcrashed
        cases hcontrol.symm.trans hcrashed
  | read result hcontrol => exact keeps_read h hcontrol hreads
  | stop hcontrol =>
      apply keeps_same h
      · exact signals_section _ fun _ => rfl
      · -- no connection is left
        intro conn hconn
        rw [Finmap.lookup_empty] at hconn
        cases hconn
      · exact fun _ _ _ _ => Event.noConfusion
      · intro hcrashed
        cases hcontrol.symm.trans hcrashed
  | send connId frame hcontrol =>
      refine keeps_same h ?_ (fun _ => id) (fun _ _ _ _ => Event.noConfusion) id
      dsimp only
      split
      · rfl
      · rfl
  | broadcast frame hcontrol =>
      refine keeps_same h ?_ (fun _ => id) (fun _ _ _ _ => Event.noConfusion) id
      exact signals_section (f := fun entry : Σ _ : ℤ, WsConnection => .write entry.1 frame) _
        fun _ => rfl

/-- An event that accepts the client files a new connection for it. -/
theorem lookup_of_accept {s : Server} (hcovered : Covered s) {e : Event} {r : Reaction}
    (hhandles : Handles sha1Base64 order callbacks s e r) (haccept : .accept fd ∈ r.actions) :
    r.conns.lookup fd = some { fd := fd } := by
  cases hhandles with
  | @newClient fd' batch hcontrol hfd =>
      have hsame : fd = fd' := by simpa using haccept
      rw [hsame, lookup_insert_ite, if_pos rfl]
  | @read fd' batch result hcontrol =>
      have hplaced : Placed s.conns.keys (.reading fd' batch) := hcontrol ▸ hcovered.placed
      obtain ⟨conn, hlookup⟩ := Finmap.mem_iff.1 (Finmap.mem_keys.1 hplaced.1)
      have hserves : Serves s fd' batch _ _ :=
        serves_handleRead sha1Base64 callbacks hlookup (hcovered.own fd' conn hlookup) result
      have hcase := serveCase_serve sha1Base64 callbacks conn result
      -- a read accepts nobody
      refine absurd haccept (accept_not_mem ?_)
      exact hserves.accepted_not_mem (hcase.accepted_not_mem sha1Base64 callbacks) fd
  | ignored => cases haccept
  | wait => cases haccept
  | server => cases haccept
  | client => simp at haccept
  | noClient => cases haccept
  | stop => simp at haccept
  | send connId frame =>
      dsimp only at haccept
      split at haccept
      · simp at haccept
      · simp at haccept
  | broadcast => simp at haccept

end Events

/-! ## Whole runs -/

variable {sha1Base64 fd}

theorem inv_start : Inv callbacks fd {} where
  covered := covered_start
  received := rfl
  follows conn hconn := by
    rw [Finmap.lookup_empty] at hconn
    cases hconn
  closed := Or.inl open_start
  told := ⟨[], rfl, Or.inl rfl, fun _ => rfl⟩

theorem inv_step {w : Watch} (h : Inv callbacks fd w) {e : Event} (hreads : ReadsOpen w e) :
    Inv callbacks fd (w.step sha1Base64 order callbacks fd e) := by
  have hhandles := handles_react sha1Base64 order callbacks w.server e
  have hcovered := (lifeOk_react sha1Base64 order callbacks h.covered e).covered
  by_cases haccept : .accept fd ∈ actions sha1Base64 order callbacks w.server e
  · have htrue : accepts fd (actions sha1Base64 order callbacks w.server e) = true :=
      decide_eq_true haccept
    have hnew := lookup_of_accept h.covered hhandles haccept
    simp only [Watch.step, htrue, if_true]
    refine ⟨hcovered, rfl, fun conn hconn => ?_, Or.inl open_start,
      ⟨[], rfl, Or.inl rfl, fun _ => rfl⟩⟩
    cases hnew.symm.trans hconn
    exact follows_accepted fd
  · have hkeeps := keeps_of_handles sha1Base64 order h hhandles hreads haccept
    have hfalse : accepts fd (actions sha1Base64 order callbacks w.server e) = false :=
      decide_eq_false haccept
    simp only [Watch.step, hfalse, Bool.false_eq_true, if_false]
    refine ⟨hcovered, ?_, hkeeps.follows, hkeeps.closed, hkeeps.told⟩
    rw [received_arrive, h.received]

/-- In every run, the bytes read from a descriptor since it was last accepted are its request, those
lost behind the request in the same read, and its stream; and the callbacks that were made for it
are those that the request and the stream ask for, with `on_disconnect_` behind them at most, once
the connection is gone. If the stream are the bytes of text frames, as far as they have come,
`on_message_` has been called with the messages of the frames that are there as a whole. -/
theorem client_input (sha1Base64 : List UInt8 → List UInt8) (order : IterOrder ℤ WsConnection)
    (callbacks : Callbacks) (fd : ℤ) (events : List Event)
    (h : Along (Watch.step sha1Base64 order callbacks fd) ReadsOpen {} events) :
    let w := run (Watch.step sha1Base64 order callbacks fd) {} events
    w.received = w.heard.request ++ w.heard.lost ++ w.heard.stream ∧
    (∃ fin, w.signals = w.heard.expected callbacks ++ fin ∧ (fin = [] ∨ fin = [.disconnect]) ∧
      (fd ∈ w.server.conns → fin = [])) ∧
    ∀ sent : List Framed, (∀ f ∈ sent, f.msg.length < 2 ^ 62) →
      w.heard.stream <+: sent.flatMap Framed.bytes →
        ∃ whole later left, sent = whole ++ later ∧
          w.heard.stream = whole.flatMap Framed.bytes ++ left ∧
          texts w.heard.stream = whole.map Framed.msg ∧
          ∀ f ∈ later.head?, left.length < f.bytes.length := by
  intro w
  have hinv : Inv callbacks fd w :=
    inv_run (P := ReadsOpen) (fun _ _ hs he => inv_step order callbacks hs he) (inv_start callbacks)
      h
  refine ⟨hinv.received, hinv.told, fun sent hlen hpart => ?_⟩
  -- a cut leaves whole frames and a part of the next one
  obtain ⟨whole, later, left, hsent, hstream, hdrain, hleft⟩ :=
    exists_drain_of_cut (F := wsFraming)
      (fun f hf more => nextFrame_framed f (hlen f hf) more) (fun _ _ => rfl) hpart
  refine ⟨whole, later, left, hsent, hstream, ?_, hleft⟩
  rw [texts, hdrain, List.filterMap_map, ← List.filterMap_eq_map]
  exact List.filterMap_congr fun f _ => rfl

/-- A client on descriptor 5 sends two messages, in reads that cut the second frame. -/
def firstMessages : List Framed :=
  [.client #v[0xDE, 0xAD, 0xBE, 0xEF] (bytes "hi"), .client #v[5, 6, 7, 8] (bytes "there")]

/-- A connection whose messages arrive in three reads, the first two of them cutting a frame. -/
def firstReads : List Event :=
  [.wait [.server], .next, .accept (some 5), .accept none, .wait [.client 5], .next,
    .read (.data firstRequest true),
    .read (.data ((firstMessages.flatMap Framed.bytes).take 3) true),
    .send 5 [0x81, 0],
    .read (.data (((firstMessages.flatMap Framed.bytes).drop 3).take 9) true)]

/-- The first `n` events of that connection. -/
def firstWatch (order : IterOrder ℤ WsConnection) (n : ℕ) : Watch :=
  run (Watch.step firstHash order ⟨true, true, true⟩ 5) {} (firstReads.take n)

/-- The first message is delivered. -/
theorem client_input_firstReads :
    (firstWatch someVisits 10).signals = [.connect, .message (bytes "hi")] ∧
      ∃ whole later left, firstMessages = whole ++ later ∧
        (firstWatch someVisits 10).heard.stream = whole.flatMap Framed.bytes ++ left ∧
        texts (firstWatch someVisits 10).heard.stream = whole.map Framed.msg ∧
        ∀ f ∈ later.head?, left.length < f.bytes.length := by
  have hreading : ∀ n ∈ [6, 7, 9], (firstWatch someVisits n).server.control = .reading 5 [] ∧
      5 ∈ (firstWatch someVisits n).server.opened := by
    decide +kernel
  -- at each of the reads the descriptor is open
  have hopen (n : ℕ) (hn : n ∈ [6, 7, 9]) : ∀ fd batch,
      (firstWatch someVisits n).server.control = .reading fd batch →
        fd ∈ (firstWatch someVisits n).server.opened := by
    intro fd batch hcontrol
    cases (hreading n hn).1.symm.trans hcontrol
    exact (hreading n hn).2
  have hreads : Along (Watch.step firstHash someVisits ⟨true, true, true⟩ 5) ReadsOpen {}
      firstReads :=
    ⟨trivial, trivial, trivial, trivial, trivial, trivial, hopen 6 (by decide),
      hopen 7 (by decide), trivial, hopen 9 (by decide), trivial⟩
  obtain ⟨-, ⟨fin, hsignals, -, hthere⟩, hframes⟩ :=
    client_input firstHash someVisits ⟨true, true, true⟩ 5 firstReads hreads
  have hpart : (firstWatch someVisits 10).heard.stream <+: firstMessages.flatMap Framed.bytes := by
    decide +kernel
  refine ⟨?_, hframes firstMessages (by decide) hpart⟩
  -- the connection is still there, so nothing follows the expected callbacks
  have hknown : 5 ∈ (firstWatch someVisits 10).server.conns := by
    decide +kernel
  have hexpected : (firstWatch someVisits 10).heard.expected ⟨true, true, true⟩ =
      [.connect, .message (bytes "hi")] := by
    decide +kernel
  refine hsignals.trans ?_
  rw [hthere hknown, List.append_nil]
  exact hexpected

end CppMeet.Signaling.InStream
