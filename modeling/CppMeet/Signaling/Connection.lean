import CppMeet.Signaling.CallbackLocks
import CppMeet.Signaling.Descriptors

/-!
# The callbacks of one connection

The callbacks of an accepted connection are nothing, or `on_connect_`, then any number of
`on_message_`, then at most one `on_disconnect_` (`Lifespan`). A connection lasts until its
descriptor is accepted again, so the callbacks of a descriptor are judged from one `accept` to the
next (`LifeCycles`); three stages are enough to do so as they are called (`lifeCycles_iff`).

`serve` is what `handle_client` makes of one read, seen from the connection alone. Its callbacks fit
the stage of the connection exactly if the read is `Timely` (`ServeCase.along_iff`): the label
`disconnect` is also reached before the handshake, and `on_disconnect_` is called there too.
-/

set_option autoImplicit false

namespace CppMeet.Signaling.Connection

open CppMeet.Lib.Frames CppMeet.Lib.HashMap CppMeet.Lib.Run CppMeet.Signaling.CallbackLocks
open CppMeet.Signaling.Descriptors CppMeet.Signaling.EventLoop CppMeet.Signaling.WsFrames

/-! ## Callbacks of one descriptor -/

/-- What the application is told of a connection, `accepted` for a new one on the descriptor. -/
inductive Signal where
  | accepted
  | connect
  | message (msg : List UInt8)
  | disconnect
  deriving DecidableEq

/-- What an action means for the connections of a descriptor. -/
def signal (fd : ℤ) : LoopAction → Option Signal
  | .accept fd' => if fd' = fd then some .accepted else none
  | .onConnect fd' => if fd' = fd then some .connect else none
  | .onMessage fd' msg => if fd' = fd then some (.message msg) else none
  | .onDisconnect fd' => if fd' = fd then some .disconnect else none
  | _ => none

/-- The callbacks of one connection. -/
def Lifespan (calls : List Signal) : Prop :=
  calls = [] ∨ ∃ (msgs : List (List UInt8)) (fin : List Signal),
    calls = .connect :: (msgs.map .message ++ fin) ∧ (fin = [] ∨ fin = [.disconnect])

/-- A descriptor has no callbacks before it is first accepted, and from each `accept` to the next
those of one connection. -/
structure LifeCycles (signals : List Signal) : Prop where
  before : signals.takeWhile (· ≠ .accepted) = []
  connections : ∀ rest, .accepted :: rest <:+ signals → Lifespan (rest.takeWhile (· ≠ .accepted))

/-! ## Stages -/

/-- Where the present connection of a descriptor stands; before the first one it is `over`. -/
inductive Stage where
  | fresh
  | connected
  | over
  deriving DecidableEq

/-- The stage after a signal. -/
def Stage.next (stage : Stage) : Signal → Stage
  | .accepted => .fresh
  | .connect => .connected
  | .message _ => stage
  | .disconnect => .over

/-- The signals that may come in a stage. -/
def Stage.Allows (stage : Stage) : Signal → Prop
  | .accepted => True
  | .connect => stage = .fresh
  | .message _ => stage = .connected
  | .disconnect => stage = .connected

section Stages

variable {calls : List Signal}

/-- Nothing may follow the end of a connection. -/
theorem allows_over_iff (h : ∀ c ∈ calls, c ≠ .accepted) :
    Along Stage.next Stage.Allows .over calls ↔ calls = [] := by
  cases calls with
  | nil => exact iff_of_true (along_nil _) rfl
  | cons c calls =>
      refine iff_of_false ?_ (List.cons_ne_nil c calls)
      rintro ⟨hc, -⟩
      cases c with
      | accepted => exact h _ List.mem_cons_self rfl
      | connect => cases hc
      | message msg => cases hc
      | disconnect => cases hc

/-- A connected client gives messages and may then disconnect. -/
theorem allows_connected_iff (h : ∀ c ∈ calls, c ≠ .accepted) :
    Along Stage.next Stage.Allows .connected calls ↔
      ∃ (msgs : List (List UInt8)) (fin : List Signal),
        calls = msgs.map .message ++ fin ∧ (fin = [] ∨ fin = [.disconnect]) := by
  induction calls with
  | nil => exact iff_of_true (along_nil _) ⟨[], [], rfl, Or.inl rfl⟩
  | cons c calls ih =>
      obtain ⟨hc, hcalls⟩ := List.forall_mem_cons.1 h
      rw [along_cons]
      cases c with
      | accepted => exact absurd rfl hc
      | connect =>
          -- the handshake is done once
          refine iff_of_false (fun hall => by cases hall.1) ?_
          rintro ⟨msgs, fin, heq, rfl | rfl⟩
          · cases msgs <;> cases heq
          · cases msgs <;> cases heq
      | message msg =>
          have hallows : Stage.connected.Allows (.message msg) := rfl
          rw [and_iff_right hallows]
          refine (ih hcalls).trans ⟨?_, ?_⟩
          · rintro ⟨msgs, fin, rfl, hfin⟩
            exact ⟨msg :: msgs, fin, rfl, hfin⟩
          · rintro ⟨msgs, fin, heq, hfin⟩
            cases msgs with
            | nil => rcases hfin with rfl | rfl <;> cases heq
            | cons msg' msgs => exact ⟨msgs, fin, (List.cons.inj heq).2, hfin⟩
      | disconnect =>
          -- nothing comes after it
          have hallows : Stage.connected.Allows .disconnect := rfl
          rw [and_iff_right hallows]
          refine (allows_over_iff hcalls).trans ⟨?_, ?_⟩
          · rintro rfl
            exact ⟨[], [.disconnect], rfl, Or.inr rfl⟩
          · rintro ⟨msgs, fin, heq, hfin⟩
            cases msgs with
            | nil =>
                rcases hfin with rfl | rfl
                · cases heq
                · exact (List.cons.inj heq).2
            | cons msg' msgs => cases heq

/-- A fresh connection may live a whole life. -/
theorem allows_fresh_iff (h : ∀ c ∈ calls, c ≠ .accepted) :
    Along Stage.next Stage.Allows .fresh calls ↔ Lifespan calls := by
  cases calls with
  | nil => exact iff_of_true (along_nil _) (Or.inl rfl)
  | cons c calls =>
      obtain ⟨hc, hcalls⟩ := List.forall_mem_cons.1 h
      rw [along_cons]
      by_cases hconnect : c = .connect
      · have hallows : Stage.fresh.Allows .connect := rfl
        rw [hconnect, and_iff_right hallows]
        refine (allows_connected_iff hcalls).trans ⟨?_, ?_⟩
        · rintro ⟨msgs, fin, rfl, hfin⟩
          exact Or.inr ⟨msgs, fin, rfl, hfin⟩
        · rintro (heq | ⟨msgs, fin, heq, hfin⟩)
          · cases heq
          · exact ⟨msgs, fin, (List.cons.inj heq).2, hfin⟩
      · -- no other callback may come first
        refine iff_of_false ?_ ?_
        · rintro ⟨hallows, -⟩
          cases c with
          | accepted => exact hc rfl
          | connect => exact hconnect rfl
          | message msg => cases hallows
          | disconnect => cases hallows
        · rintro (heq | ⟨msgs, fin, heq, -⟩)
          · cases heq
          · exact hconnect (List.cons.inj heq).1

/-- The stages tell whether the callbacks of a descriptor are those of its connections. -/
theorem lifeCycles_iff (signals : List Signal) :
    LifeCycles signals ↔ Along Stage.next Stage.Allows .over signals := by
  have hno (l : List Signal) : ∀ c ∈ l.takeWhile (· ≠ .accepted), c ≠ .accepted :=
    fun c hc => of_decide_eq_true (List.all_eq_true.1 List.all_takeWhile c hc)
  rw [along_restart_iff (r := .accepted) (t := .fresh) (fun _ => rfl) (fun _ => trivial),
    allows_over_iff (hno _)]
  simp only [allows_fresh_iff (hno _)]
  exact ⟨fun h => ⟨h.before, h.connections⟩, fun h => ⟨h.1, h.2⟩⟩

end Stages

/-! ## One connection -/

/-- What one read does to its connection, which is `none` once it is dropped, and the callbacks that
are called. -/
structure Served where
  conn : Option WsConnection
  calls : List Signal

variable (sha1Base64 : List UInt8 → List UInt8) (callbacks : Callbacks)

/-- The connection is closed, and the application told if it has asked for that. -/
def dropped : Served where
  conn := none
  calls := if callbacks.onDisconnect then [.disconnect] else []

/-- The text frames among the effects of the parser. -/
def messages (events : List WsEvent) : List Signal :=
  if callbacks.onMessage then
    events.filterMap fun
      | .onMessage _ msg => some (.message msg)
      | _ => none
  else []

/-- What a read does to a connection, and the callbacks it makes. -/
def serve (conn : WsConnection) : ReadResult → Served
  | .wouldBlock => { conn := some conn, calls := [] }
  | .error => dropped callbacks
  | .endOfStream => dropped callbacks
  | .data bytes sent =>
      if conn.handshakeDone then
        let p := readBytes conn bytes
        { conn := some p.conn, calls := messages callbacks p.events }
      else
        let conn := { conn with recvBuf := conn.recvBuf ++ bytes }
        -- the request goes on until a blank line
        if requestEnds conn.recvBuf then
          if (handshakeResponse sha1Base64 conn.recvBuf).isSome ∧ sent then
            { conn := some { conn with handshakeDone := true }
              calls := if callbacks.onConnect then [.connect] else [] }
          else dropped callbacks
        else { conn := some conn, calls := [] }

/-- The read drops the connection: it fails, it finds the end of the stream, or it completes a
request that has no key or whose answer cannot be written. -/
def Drops (conn : WsConnection) : ReadResult → Prop
  | .wouldBlock => False
  | .error => True
  | .endOfStream => True
  | .data bytes sent =>
      conn.handshakeDone = false ∧ requestEnds (conn.recvBuf ++ bytes) = true ∧
        ¬((handshakeResponse sha1Base64 (conn.recvBuf ++ bytes)).isSome = true ∧ sent = true)

/-- The handshake is done, and `on_connect_` was there to be told. -/
def Announced (conn : WsConnection) : Prop :=
  conn.handshakeDone = true ∧ callbacks.onConnect = true

/-- A connection that the read drops, with `on_disconnect_` installed, or completes a text frame of,
with `on_message_` installed, has been announced. -/
structure Timely (conn : WsConnection) (result : ReadResult) : Prop where
  drops : callbacks.onDisconnect = true → Drops sha1Base64 conn result → Announced callbacks conn
  delivers : ∀ bytes sent, result = .data bytes sent → conn.handshakeDone = true →
    Delivers callbacks conn bytes → callbacks.onConnect = true

/-- A connection whose handshake is done is connected, if the application was told of it. -/
def stageOf (conn : WsConnection) : Stage :=
  if conn.handshakeDone ∧ callbacks.onConnect then .connected else .fresh

section Reads

variable {conn : WsConnection} {result : ReadResult}

theorem eq_message_of_mem {events : List WsEvent} {c : Signal}
    (h : c ∈ messages callbacks events) : ∃ msg, c = .message msg := by
  rw [messages] at h
  split at h
  · obtain ⟨event, -, hevent⟩ := List.mem_filterMap.1 h
    cases event with
    | onMessage fd msg => exact ⟨msg, (Option.some.inj hevent).symm⟩
    | write fd bytes => cases hevent
    | close fd => cases hevent
    | lengthError => cases hevent
  · cases h

/-- Messages do not change the stage, and are allowed once the connection is announced. -/
theorem along_messages_iff (stage : Stage) (events : List WsEvent) :
    (Along Stage.next Stage.Allows stage (messages callbacks events) ↔
      (messages callbacks events ≠ [] → stage = .connected)) ∧
      run Stage.next stage (messages callbacks events) = stage := by
  have hkeep : ∀ c ∈ messages callbacks events, stage.next c = stage := by
    intro c hc
    obtain ⟨msg, rfl⟩ := eq_message_of_mem callbacks hc
    rfl
  refine ⟨(along_iff_of_eq_self hkeep).trans ⟨fun h hne => ?_, fun h c hc => ?_⟩,
    run_eq_self hkeep⟩
  · obtain ⟨c, hc⟩ := List.exists_mem_of_ne_nil _ hne
    obtain ⟨msg, rfl⟩ := eq_message_of_mem callbacks hc
    exact h _ hc
  · obtain ⟨msg, rfl⟩ := eq_message_of_mem callbacks hc
    exact h (List.ne_nil_of_mem hc)

/-- Some message comes from the read exactly if it delivers one. -/
theorem messages_ne_nil_iff (conn : WsConnection) (bytes : List UInt8) :
    messages callbacks (readBytes conn bytes).events ≠ [] ↔ Delivers callbacks conn bytes := by
  rw [messages, Delivers]
  split
  · rename_i hinstalled
    rw [and_iff_right hinstalled]
    constructor
    · -- a callback in the list comes from a text frame
      intro hne
      obtain ⟨c, hc⟩ := List.exists_mem_of_ne_nil _ hne
      obtain ⟨event, hevent, hc⟩ := List.mem_filterMap.1 hc
      obtain ⟨f, hf, hdispatch⟩ := mem_events.1 hevent
      cases event with
      | onMessage fd msg =>
          obtain ⟨-, payloadLen, rfl⟩ := mem_dispatch.1 hdispatch
          exact ⟨payloadLen, msg, hf⟩
      | write fd bytes => cases hc
      | close fd => cases hc
      | lengthError => cases hc
    · rintro ⟨payloadLen, payload, hf⟩
      have hevent : WsEvent.onMessage conn.fd payload ∈ (readBytes conn bytes).events :=
        mem_events.2 ⟨_, hf, mem_dispatch.2 ⟨rfl, payloadLen, rfl⟩⟩
      exact List.ne_nil_of_mem (List.mem_filterMap.2 ⟨_, hevent, rfl⟩)
  · rename_i hinstalled
    exact iff_of_false (fun h => h rfl) fun h => hinstalled h.1

theorem stageOf_eq_connected_iff :
    stageOf callbacks conn = .connected ↔ Announced callbacks conn := by
  rw [stageOf]
  split
  · rename_i h
    exact iff_of_true rfl h
  · rename_i h
    exact iff_of_false Stage.noConfusion h

/-- A dropped connection may be reported if it was connected. -/
theorem allows_dropped_iff (stage : Stage) :
    Along Stage.next Stage.Allows stage (dropped callbacks).calls ↔
      (callbacks.onDisconnect = true → stage = .connected) := by
  rw [dropped]
  cases callbacks.onDisconnect with
  | false => simp
  | true => simp [Stage.Allows]

theorem handshakeDone_readBytes (conn : WsConnection) (bytes : List UInt8) :
    (readBytes conn bytes).conn.handshakeDone = conn.handshakeDone := by
  rw [readBytes, parse_eq_drain]

theorem stageOf_congr {conn' : WsConnection} (h : conn'.handshakeDone = conn.handshakeDone) :
    stageOf callbacks conn' = stageOf callbacks conn := by
  rw [stageOf, stageOf, h]

/-- The read brings no bytes of frames. -/
def NoFrames (conn : WsConnection) (result : ReadResult) : Prop :=
  ∀ bytes sent, result = .data bytes sent → conn.handshakeDone = false

/-- What a read can come to. -/
inductive ServeCase (conn : WsConnection) (result : ReadResult) : Served → Prop
  | waits {conn' : WsConnection} :
      ¬Drops sha1Base64 conn result → NoFrames conn result → conn'.fd = conn.fd →
      conn'.handshakeDone = conn.handshakeDone →
      ServeCase conn result { conn := some conn', calls := [] }
  | connects {conn' : WsConnection} :
      ¬Drops sha1Base64 conn result → conn.handshakeDone = false → conn'.fd = conn.fd →
      conn'.handshakeDone = true →
      ServeCase conn result
        { conn := some conn', calls := if callbacks.onConnect then [.connect] else [] }
  | frames {bytes : List UInt8} {sent : Bool} :
      result = .data bytes sent → conn.handshakeDone = true →
      ServeCase conn result
        { conn := some (readBytes conn bytes).conn
          calls := messages callbacks (readBytes conn bytes).events }
  | drops :
      Drops sha1Base64 conn result → NoFrames conn result →
      ServeCase conn result (dropped callbacks)

theorem serveCase_serve (conn : WsConnection) (result : ReadResult) :
    ServeCase sha1Base64 callbacks conn result (serve sha1Base64 callbacks conn result) := by
  cases result with
  | wouldBlock => exact .waits id (fun _ _ => ReadResult.noConfusion) rfl rfl
  | error => exact .drops trivial fun _ _ => ReadResult.noConfusion
  | endOfStream => exact .drops trivial fun _ _ => ReadResult.noConfusion
  | data bytes sent =>
      rw [serve]
      split
      · rename_i hdone
        exact .frames rfl hdone
      · rename_i hnot
        have hdone : conn.handshakeDone = false := Bool.eq_false_of_not_eq_true hnot
        dsimp only
        split
        · rename_i hends
          split
          · rename_i hsent
            exact .connects (fun h => h.2.2 hsent) hdone rfl rfl
          · rename_i hsent
            exact .drops ⟨hdone, hends, hsent⟩ fun _ _ _ => hdone
        · rename_i hends
          exact .waits (fun h => hends h.2.1) (fun _ _ _ => hdone) rfl rfl

variable {served : Served}

/-- The callbacks of a read are in order exactly if it is timely. -/
theorem ServeCase.along_iff (h : ServeCase sha1Base64 callbacks conn result served) :
    Along Stage.next Stage.Allows (stageOf callbacks conn) served.calls ↔
      Timely sha1Base64 callbacks conn result := by
  cases h with
  | waits hdrops hframes hfd hdone =>
      -- a read that neither drops the connection nor reads frames calls nobody back
      refine iff_of_true (along_nil _) ⟨fun _ h => absurd h hdrops, fun _ _ hdata htrue => ?_⟩
      cases (hframes _ _ hdata).symm.trans htrue
  | connects hdrops hfalse hfd hdone =>
      refine iff_of_true ?_ ⟨fun _ h => absurd h hdrops, fun _ _ _ htrue => ?_⟩
      · -- `on_connect_` is the first callback of the connection
        have hfresh : stageOf callbacks conn = .fresh :=
          if_neg fun h => Bool.false_ne_true (hfalse.symm.trans h.1)
        rw [hfresh]
        cases callbacks.onConnect with
        | false => exact along_nil _
        | true => exact ⟨rfl, along_nil _⟩
      · cases hfalse.symm.trans htrue
  | frames hdata hdone =>
      -- messages are in order exactly for a client that was announced
      refine (along_messages_iff callbacks _ _).1.trans ?_
      rw [messages_ne_nil_iff, stageOf_eq_connected_iff, Announced, hdone, eq_self, true_and]
      refine ⟨fun h => ⟨fun _ hdrops => ?_, fun _ _ heq _ => ?_⟩,
        fun h => h.delivers _ _ hdata hdone⟩
      · rw [hdata] at hdrops
        cases hdone.symm.trans hdrops.1
      · cases hdata.symm.trans heq
        exact h
  | drops hdrops hframes =>
      -- and so is `on_disconnect_`
      rw [allows_dropped_iff, stageOf_eq_connected_iff]
      refine ⟨fun h => ⟨fun hinstalled _ => h hinstalled, fun bytes sent hdata htrue => ?_⟩,
        fun h hinstalled => h.drops hinstalled hdrops⟩
      cases (hframes bytes sent hdata).symm.trans htrue

/-- The stage follows the connection. -/
theorem ServeCase.run_eq (h : ServeCase sha1Base64 callbacks conn result served)
    {conn' : WsConnection} (hconn : served.conn = some conn') :
    run Stage.next (stageOf callbacks conn) served.calls = stageOf callbacks conn' := by
  cases h with
  | waits hdrops hframes hfd hdone =>
      cases hconn
      exact (stageOf_congr callbacks hdone).symm
  | connects hdrops hfalse hfd hdone =>
      cases hconn
      cases hinstalled : callbacks.onConnect with
      | false => simp [stageOf, hinstalled]
      | true => simp [stageOf, hinstalled, hdone, Stage.next]
  | frames hdata hdone =>
      cases hconn
      rw [(along_messages_iff callbacks _ _).2]
      exact (stageOf_congr callbacks (handshakeDone_readBytes conn _)).symm
  | drops hdrops hframes => cases hconn

/-- The connection keeps its descriptor. -/
theorem ServeCase.fd_eq (h : ServeCase sha1Base64 callbacks conn result served)
    {conn' : WsConnection} (hconn : served.conn = some conn') : conn'.fd = conn.fd := by
  cases h with
  | waits hdrops hframes hfd hdone =>
      cases hconn
      exact hfd
  | connects hdrops hfalse hfd hdone =>
      cases hconn
      exact hfd
  | frames hdata hdone =>
      cases hconn
      exact fd_readBytes _
  | drops hdrops hframes => cases hconn

theorem ServeCase.accepted_not_mem (h : ServeCase sha1Base64 callbacks conn result served) :
    .accepted ∉ served.calls := by
  cases h with
  | waits hdrops hframes hfd hdone => exact List.not_mem_nil
  | connects hdrops hfalse hfd hdone => cases callbacks.onConnect <;> simp
  | frames hdata hdone =>
      intro hmem
      obtain ⟨msg, hmsg⟩ := eq_message_of_mem callbacks hmem
      cases hmsg
  | drops hdrops hframes =>
      rw [dropped]
      cases callbacks.onDisconnect <;> simp

/-- A call of `on_disconnect_` comes from dropping the connection. -/
theorem ServeCase.drops_of_disconnect (h : ServeCase sha1Base64 callbacks conn result served)
    (hmem : .disconnect ∈ served.calls) :
    callbacks.onDisconnect = true ∧ Drops sha1Base64 conn result := by
  cases h with
  | waits hdrops hframes hfd hdone => cases hmem
  | connects hdrops hfalse hfd hdone =>
      cases hinstalled : callbacks.onConnect <;> simp [hinstalled] at hmem
  | frames hdata hdone =>
      obtain ⟨msg, hmsg⟩ := eq_message_of_mem callbacks hmem
      cases hmsg
  | drops hdrops hframes =>
      refine ⟨?_, hdrops⟩
      cases hinstalled : callbacks.onDisconnect with
      | false => simp [dropped, hinstalled] at hmem
      | true => rfl

end Reads

end CppMeet.Signaling.Connection
