import CppMeet.Signaling.EventLoop

/-!
# Callbacks and `conns_mutex_`

`lockStep` follows the mutex through the actions of the event loop. `handle_client` holds it while
it completes a handshake and while it parses frames, and calls `on_connect_` and `on_message_`
there; only `on_disconnect_` is called after the mutex is released. A callback that calls `send` or
`broadcast` locks the mutex again (`withCalls`).

Callbacks are called outside the lock in exactly the runs in which neither of the two is called at
all (`callbacks_outside_lock_iff`).
-/

set_option autoImplicit false

namespace CppMeet.Signaling.CallbackLocks

open CppMeet.Lib.Frames CppMeet.Lib.HashMap CppMeet.Lib.Run CppMeet.Signaling.EventLoop
open CppMeet.Signaling.WsFrames

/-! ## The mutex -/

/-- Whether the mutex is held after an action. -/
def lockStep (held : Bool) : LoopAction → Bool
  | .lock => true
  | .unlock => false
  | _ => held

/-- The actions that run code of the application. -/
def isCallback : LoopAction → Bool
  | .onConnect _ => true
  | .onMessage _ _ => true
  | .onDisconnect _ => true
  | _ => false

/-- A callback is called with the mutex free. -/
def Outside (held : Bool) (a : LoopAction) : Prop := isCallback a = true → held = false

instance (held : Bool) (a : LoopAction) : Decidable (Outside held a) :=
  inferInstanceAs (Decidable (_ → _))

/-- The thread does not lock a mutex it holds. -/
def NoRelock (held : Bool) (a : LoopAction) : Prop := a = .lock → held = false

instance (held : Bool) (a : LoopAction) : Decidable (NoRelock held a) :=
  inferInstanceAs (Decidable (_ → _))

/-- An action, followed by what a callback does in it: calls of `send` and `broadcast`, each of
which locks the mutex and writes some frames. -/
def withCalls (calls : LoopAction → List (List (ℤ × List UInt8))) (a : LoopAction) :
    List LoopAction :=
  a :: if isCallback a then
      (calls a).flatMap fun frames => .lock :: frames.map (fun f => .write f.1 f.2) ++ [.unlock]
    else []

/-- Callbacks are called outside the lock, so whatever they send, the mutex is not locked twice. -/
def LockFree (actions : List LoopAction) : Prop :=
  Along lockStep Outside false actions ∧
    ∀ calls, Along lockStep NoRelock false (actions.flatMap (withCalls calls))

section Monitor

variable {held : Bool}

/-- Actions that leave the mutex alone. -/
def Quiet (actions : List LoopAction) : Prop := ∀ a ∈ actions, a ≠ .lock ∧ a ≠ .unlock

theorem lockStep_quiet {actions : List LoopAction} (h : Quiet actions) :
    ∀ a ∈ actions, lockStep held a = held := by
  intro a ha
  cases a with
  | lock => exact absurd rfl (h _ ha).1
  | unlock => exact absurd rfl (h _ ha).2
  | _ => rfl

/-- Under the lock, quiet actions are outside of it only if none of them is a callback. -/
theorem outside_quiet {actions : List LoopAction} (h : Quiet actions) :
    Along lockStep Outside true actions ↔ ∀ a ∈ actions, isCallback a = false := by
  rw [along_iff_of_eq_self (lockStep_quiet h)]
  simp only [Outside, Bool.true_eq_false, imp_false, Bool.not_eq_true]

theorem noRelock_quiet {actions : List LoopAction} (h : Quiet actions) :
    Along lockStep NoRelock held actions := by
  rw [along_iff_of_eq_self (lockStep_quiet h)]
  intro a ha hlock
  exact absurd hlock (h a ha).1

/-- Locking, doing something else and unlocking. -/
theorem noRelock_section {actions : List LoopAction} (h : Quiet actions) (rest : List LoopAction) :
    Along lockStep NoRelock false (.lock :: actions ++ .unlock :: rest) ↔
      Along lockStep NoRelock false rest := by
  rw [List.cons_append, along_cons, along_append, along_cons]
  have hfirst : NoRelock false .lock := fun _ => rfl
  have hunlock : NoRelock (run lockStep (lockStep false .lock) actions) .unlock :=
    fun heq => nomatch heq
  simp only [hfirst, noRelock_quiet h, hunlock, true_and]
  rfl

/-- A section under the lock is fine if it makes no callback, and what follows it is fine. -/
theorem outside_section {actions : List LoopAction} (h : Quiet actions) (rest : List LoopAction) :
    Along lockStep Outside false (.lock :: actions ++ .unlock :: rest) ↔
      (∀ a ∈ actions, isCallback a = false) ∧ Along lockStep Outside false rest := by
  rw [List.cons_append, along_cons, along_append, along_cons]
  have hfirst : Outside false .lock := fun _ => rfl
  have hunlock : Outside (run lockStep (lockStep false .lock) actions) .unlock :=
    fun heq => nomatch heq
  simp only [hfirst, hunlock, true_and]
  exact and_congr (outside_quiet h) Iff.rfl

theorem run_section (actions rest : List LoopAction) :
    run lockStep false (.lock :: actions ++ .unlock :: rest) = run lockStep false rest := by
  rw [List.cons_append, run_cons, run_append, run_cons]
  rfl

end Monitor

/-! ## One event -/

variable (sha1Base64 : List UInt8 → List UInt8) (order : IterOrder ℤ WsConnection)
  (callbacks : Callbacks)

/-- The read completes a request that is answered, and `on_connect_` is installed. -/
def Connects (conn : WsConnection) (bytes : List UInt8) (sent : Bool) : Prop :=
  callbacks.onConnect = true ∧ requestEnds (conn.recvBuf ++ bytes) = true ∧
    (handshakeResponse sha1Base64 (conn.recvBuf ++ bytes)).isSome = true ∧ sent = true

/-- The read completes a text frame, and `on_message_` is installed. -/
def Delivers (conn : WsConnection) (bytes : List UInt8) : Prop :=
  callbacks.onMessage = true ∧ ∃ payloadLen payload,
    .frame 0x1 payloadLen payload ∈ (drain wsFraming (conn.wsBuf ++ bytes)).frames

/-- No read completes a handshake with `on_connect_` installed or a text frame with `on_message_`
installed. -/
def Silent (s : Server) : Event → Prop
  | .read (.data bytes sent) => ∀ fd batch conn, s.control = .reading fd batch →
      s.conns.lookup fd = some conn →
        if conn.handshakeDone then ¬Delivers callbacks conn bytes
        else ¬Connects sha1Base64 callbacks conn bytes sent
  | _ => True

variable {sha1Base64 order callbacks}

/-- A connection is dropped with its callback outside the lock. -/
theorem outside_disconnect (s : Server) (fd : ℤ) (batch : List Source) :
    Along lockStep Outside false (disconnect callbacks s fd batch).actions := by
  rw [disconnect]
  cases callbacks.onDisconnect <;> simp [Outside, lockStep, isCallback]

theorem run_disconnect (s : Server) (fd : ℤ) (batch : List Source) :
    run lockStep false (disconnect callbacks s fd batch).actions = false := by
  rw [disconnect]
  cases callbacks.onDisconnect <;> rfl

variable (callbacks) in
theorem quiet_toActions (events : List WsEvent) :
    Quiet (events.flatMap (toActions callbacks)) := by
  intro a ha
  obtain ⟨event, _, hmem⟩ := List.mem_flatMap.1 ha
  cases event with
  | onMessage fd msg =>
      rw [toActions] at hmem
      split at hmem
      · obtain rfl := List.mem_singleton.1 hmem
        exact ⟨LoopAction.noConfusion, LoopAction.noConfusion⟩
      · cases hmem
  | write fd bytes =>
      obtain rfl := List.mem_singleton.1 hmem
      exact ⟨LoopAction.noConfusion, LoopAction.noConfusion⟩
  | close fd =>
      obtain rfl := List.mem_singleton.1 hmem
      exact ⟨LoopAction.noConfusion, LoopAction.noConfusion⟩
  | lengthError =>
      obtain rfl := List.mem_singleton.1 hmem
      exact ⟨LoopAction.noConfusion, LoopAction.noConfusion⟩

/-- Text frames are the only ones that are delivered. -/
theorem mem_dispatch {fd fd' : ℤ} {msg : List UInt8} {f : ParsedFrame} :
    .onMessage fd' msg ∈ f.dispatch fd ↔
      fd' = fd ∧ ∃ payloadLen, f = .frame 0x1 payloadLen msg := by
  constructor
  · intro hmem
    rcases dispatch_cases hmem with ⟨payloadLen, _, rfl, heq⟩ | ⟨_, _, _, heq⟩ | ⟨_, _, _, _, heq⟩ |
      ⟨_, heq⟩
    · cases heq
      exact ⟨rfl, payloadLen, rfl⟩
    · cases heq
    · cases heq
    · cases heq
  · rintro ⟨rfl, payloadLen, rfl⟩
    exact List.mem_singleton_self _

/-- A read makes no callback exactly if it delivers no message. -/
theorem callbacks_toActions (conn : WsConnection) (bytes : List UInt8) :
    (∀ a ∈ (readBytes conn bytes).events.flatMap (toActions callbacks), isCallback a = false) ↔
      ¬Delivers callbacks conn bytes := by
  rw [readBytes, parse_eq_drain]
  constructor
  · rintro h ⟨hinstalled, payloadLen, payload, hframe⟩
    -- the frame is dispatched to a message, which is a callback
    have hevent : WsEvent.onMessage conn.fd payload ∈
        (drain wsFraming (conn.wsBuf ++ bytes)).frames.flatMap (ParsedFrame.dispatch conn.fd) :=
      List.mem_flatMap.2 ⟨_, hframe, mem_dispatch.2 ⟨rfl, _, rfl⟩⟩
    have haction : LoopAction.onMessage conn.fd payload ∈
        toActions callbacks (.onMessage conn.fd payload) := by
      rw [toActions, if_pos hinstalled]
      exact List.mem_cons_self
    cases h _ (List.mem_flatMap.2 ⟨_, hevent, haction⟩)
  · -- a callback comes from a text frame only
    intro h a ha
    obtain ⟨event, hevent, hmem⟩ := List.mem_flatMap.1 ha
    cases event with
    | onMessage fd msg =>
        rw [toActions] at hmem
        split at hmem
        · rename_i hinstalled
          obtain ⟨f, hf, hdispatch⟩ := List.mem_flatMap.1 hevent
          obtain ⟨_, payloadLen, rfl⟩ := mem_dispatch.1 hdispatch
          exact absurd ⟨hinstalled, payloadLen, msg, hf⟩ h
        · cases hmem
    | write fd bytes =>
        obtain rfl := List.mem_singleton.1 hmem
        rfl
    | close fd =>
        obtain rfl := List.mem_singleton.1 hmem
        rfl
    | lengthError =>
        obtain rfl := List.mem_singleton.1 hmem
        rfl

/-- What the actions of an event do to the mutex, in a state where it is free: it is free again
afterwards, unless an exception has ended the thread, and the thread never locks it twice. -/
structure LockOk (r : Reaction) (silent : Prop) : Prop where
  outside : Along lockStep Outside false r.actions ↔ silent
  noRelock : Along lockStep NoRelock false r.actions
  released : r.control ≠ .crashed → run lockStep false r.actions = false

variable (sha1Base64 order callbacks)

theorem lockOk_disconnect (s : Server) (fd : ℤ) (batch : List Source) :
    LockOk (disconnect callbacks s fd batch) True where
  outside := iff_of_true (outside_disconnect s fd batch) trivial
  noRelock := by
    rw [disconnect]
    cases callbacks.onDisconnect <;> simp [NoRelock, lockStep]
  released _ := run_disconnect s fd batch

/-- Some actions under the lock, and then the connection is dropped. -/
theorem lockOk_section (actions : List LoopAction) (h : Quiet actions)
    (hno : ∀ a ∈ actions, isCallback a = false) {r : Reaction} (hr : LockOk r True) :
    LockOk { r with actions := .lock :: actions ++ .unlock :: r.actions } True where
  outside := by
    rw [outside_section h]
    exact iff_of_true ⟨hno, hr.outside.2 trivial⟩ trivial
  noRelock := (noRelock_section h _).2 hr.noRelock
  released hc := (run_section actions r.actions).trans (hr.released hc)

/-- The condition may be replaced by an equivalent one. -/
theorem LockOk.congr {r : Reaction} {silent silent' : Prop} (h : LockOk r silent)
    (hiff : silent ↔ silent') : LockOk r silent' where
  outside := h.outside.trans hiff
  noRelock := h.noRelock
  released := h.released

theorem LockOk.of_true {r : Reaction} (h : LockOk r True) {silent : Prop} (hs : silent) :
    LockOk r silent := h.congr (iff_of_true trivial hs)

/-- An answered request: `on_connect_`, if there is one, is called between lock and unlock. -/
theorem lockOk_answered (conns : UnorderedMap ℤ WsConnection) (fd fd' : ℤ)
    (batch : List Source) (response : List UInt8) :
    LockOk
      { conns := conns
        control := .reading fd batch
        actions := [.lock, .write fd' response] ++
          (if callbacks.onConnect then [.onConnect fd] else []) ++ [.unlock, .read fd] }
      (callbacks.onConnect = false) := by
  cases callbacks.onConnect with
  | false =>
      refine ⟨iff_of_true ?_ rfl, ?_, fun _ => rfl⟩
      · simp [Outside, lockStep, isCallback]
      · simp [NoRelock, lockStep]
  | true =>
      refine ⟨iff_of_false ?_ Bool.true_eq_false.mp, ?_, fun _ => rfl⟩
      · simp [Outside, lockStep, isCallback]
      · simp [NoRelock, lockStep]

/-- A read of the handshake calls back under the lock exactly if it connects. -/
theorem lockOk_request (s : Server) (fd : ℤ) (batch : List Source) (conn : WsConnection)
    (bytes : List UInt8) (sent : Bool) :
    LockOk (handleRequest sha1Base64 callbacks s fd batch conn bytes sent)
      (¬Connects sha1Base64 callbacks conn bytes sent) := by
  have hdisconnect := lockOk_disconnect callbacks
    { s with conns := s.conns.insert fd { conn with recvBuf := conn.recvBuf ++ bytes } } fd batch
  rw [handleRequest]
  dsimp only
  split
  · rename_i hends
    split
    · -- the request has no key
      rename_i hnone
      have hsection := lockOk_section [] (fun _ h => nomatch h) (fun _ h => nomatch h) hdisconnect
      refine LockOk.of_true hsection ?_
      rintro ⟨_, _, hsome, _⟩
      rw [hnone] at hsome
      cases hsome
    · -- the response is written under the lock
      rename_i response hresponse
      cases sent with
      | false =>
          rw [if_neg Bool.false_ne_true]
          have hquiet : Quiet [.write conn.fd response] := by simp [Quiet]
          have hsection := lockOk_section _ hquiet (by simp [isCallback]) hdisconnect
          exact LockOk.of_true hsection fun h => Bool.false_ne_true h.2.2.2
      | true =>
          rw [if_pos rfl]
          have hconnects :
              Connects sha1Base64 callbacks conn bytes true ↔ callbacks.onConnect = true := by
            refine and_iff_left ⟨hends, ?_, rfl⟩
            rw [hresponse]
            rfl
          refine (lockOk_answered callbacks _ fd conn.fd batch response).congr ?_
          rw [hconnects, Bool.not_eq_true]
  · -- the request goes on in the next read
    rename_i hends
    refine LockOk.of_true ⟨?_, ?_, fun _ => rfl⟩ fun h => hends h.2.1
    · simp [Outside, lockStep, isCallback]
    · simp [NoRelock, lockStep]

/-- A read of frames calls back under the lock exactly if it delivers. -/
theorem lockOk_frames (s : Server) (fd : ℤ) (batch : List Source) (conn : WsConnection)
    (bytes : List UInt8) :
    LockOk (handleFrames callbacks s fd batch conn bytes) (¬Delivers callbacks conn bytes) := by
  have hquiet := quiet_toActions callbacks (readBytes conn bytes).events
  rw [handleFrames]
  split
  · -- the exception leaves the parser with the mutex held
    refine ⟨?_, ⟨fun _ => rfl, noRelock_quiet hquiet⟩, fun hc => absurd rfl hc⟩
    rw [along_cons, ← callbacks_toActions]
    exact (and_iff_right fun _ => rfl).trans (outside_quiet hquiet)
  · refine ⟨?_, (noRelock_section hquiet _).2 ?_, fun _ => run_section _ _⟩
    · rw [← callbacks_toActions]
      refine (outside_section hquiet _).trans (and_iff_left ?_)
      simp [Outside, isCallback]
    · simp [NoRelock]

/-- A read calls back under the lock exactly if it is not silent. -/
theorem lockOk_handleRead (s : Server) (fd : ℤ) (batch : List Source)
    (hcontrol : s.control = .reading fd batch) (result : ReadResult) :
    LockOk (handleRead sha1Base64 callbacks s fd batch result)
      (Silent sha1Base64 callbacks s (.read result)) := by
  cases result with
  | wouldBlock =>
      exact ⟨iff_of_true (along_nil _) trivial, along_nil _, fun _ => rfl⟩
  | error => exact LockOk.of_true (lockOk_disconnect callbacks s fd batch) trivial
  | endOfStream => exact LockOk.of_true (lockOk_disconnect callbacks s fd batch) trivial
  | data bytes sent =>
      cases hconn : s.conns.lookup fd with
      | none =>
          -- the connection is gone, so the read returns at once
          have hsilent : Silent sha1Base64 callbacks s (.read (.data bytes sent)) := by
            intro fd' batch' conn hcontrol' hconn'
            rw [hcontrol] at hcontrol'
            cases hcontrol'
            rw [hconn] at hconn'
            cases hconn'
          simp only [handleRead, hconn]
          refine LockOk.of_true ⟨?_, ?_, fun _ => rfl⟩ hsilent
          · simp [Outside, lockStep, isCallback]
          · simp [NoRelock, lockStep]
      | some conn =>
          have hsilent : Silent sha1Base64 callbacks s (.read (.data bytes sent)) ↔
              if conn.handshakeDone then ¬Delivers callbacks conn bytes
              else ¬Connects sha1Base64 callbacks conn bytes sent :=
            forall_reading_iff hcontrol hconn fun conn =>
              if conn.handshakeDone then ¬Delivers callbacks conn bytes
              else ¬Connects sha1Base64 callbacks conn bytes sent
          -- whether the read is a request or frames decides what can call back
          simp only [handleRead, hconn]
          cases hdone : conn.handshakeDone with
          | true =>
              rw [hdone, if_pos rfl] at hsilent
              exact (lockOk_frames callbacks s fd batch conn bytes).congr hsilent.symm
          | false =>
              rw [hdone, if_neg Bool.false_ne_true] at hsilent
              exact (lockOk_request sha1Base64 callbacks s fd batch conn bytes sent).congr
                hsilent.symm

theorem lockOk_nil {r : Reaction} (h : r.actions = []) : LockOk r True where
  outside := by rw [h]; exact iff_of_true (along_nil _) trivial
  noRelock := by rw [h]; exact along_nil _
  released _ := by rw [h]; rfl

/-- System calls under the lock. -/
theorem lockOk_calls {r : Reaction} (actions : List LoopAction) (h : Quiet actions)
    (hno : ∀ a ∈ actions, isCallback a = false) (hr : r.actions = .lock :: actions ++ [.unlock]) :
    LockOk r True where
  outside := by
    rw [hr, outside_section h]
    exact iff_of_true ⟨hno, along_nil _⟩ trivial
  noRelock := by
    rw [hr, noRelock_section h]
    exact along_nil _
  released _ := by rw [hr, run_section, run_nil]

/-- Writes and closes are neither callbacks nor operations on the mutex. -/
theorem quiet_map {α : Type*} (l : List α) {f : α → LoopAction}
    (hf : ∀ x, (∃ fd bytes, f x = .write fd bytes) ∨ ∃ fd, f x = .close fd) :
    Quiet (l.map f) ∧ ∀ a ∈ l.map f, isCallback a = false := by
  constructor
  · intro a ha
    obtain ⟨x, _, rfl⟩ := List.mem_map.1 ha
    rcases hf x with ⟨fd, bytes, hx⟩ | ⟨fd, hx⟩
    · rw [hx]
      exact ⟨LoopAction.noConfusion, LoopAction.noConfusion⟩
    · rw [hx]
      exact ⟨LoopAction.noConfusion, LoopAction.noConfusion⟩
  · intro a ha
    obtain ⟨x, _, rfl⟩ := List.mem_map.1 ha
    rcases hf x with ⟨fd, bytes, hx⟩ | ⟨fd, hx⟩
    · rw [hx]
      rfl
    · rw [hx]
      rfl

theorem silent_of_not_reading {s : Server} {e : Event}
    (h : ∀ fd batch result, s.control = .reading fd batch → e ≠ .read result) :
    Silent sha1Base64 callbacks s e := by
  cases e with
  | read result =>
      cases result with
      | data bytes sent =>
          intro fd batch conn hcontrol
          exact absurd rfl (h fd batch _ hcontrol)
      | _ => trivial
  | _ => trivial

/-- What the loop does with an event it handles. -/
theorem lockOk_of_handles {s : Server} {e : Event} {r : Reaction}
    (h : Handles sha1Base64 order callbacks s e r) :
    LockOk r (Silent sha1Base64 callbacks s e) := by
  cases h with
  | ignored hnot => exact (lockOk_nil rfl).of_true (silent_of_not_reading sha1Base64 callbacks hnot)
  | wait hcontrol hnodup hopen => exact lockOk_nil rfl
  | server hcontrol => exact lockOk_nil rfl
  | client hcontrol =>
      refine ⟨iff_of_true ?_ trivial, ?_, fun _ => rfl⟩
      · simp [Outside, isCallback]
      · simp [NoRelock]
  | noClient hcontrol => exact lockOk_nil rfl
  | newClient hcontrol hfd =>
      refine ⟨iff_of_true ?_ trivial, ?_, fun _ => rfl⟩
      · simp [Outside, lockStep, isCallback]
      · simp [NoRelock, lockStep]
  | read result hcontrol => exact lockOk_handleRead sha1Base64 callbacks s _ _ hcontrol result
  | stop hcontrol =>
      -- `stop` closes every descriptor under the lock and calls nobody back
      obtain ⟨hquiet, hno⟩ := quiet_map (order s.conns).visits
        (f := fun entry => .close entry.1) (fun entry => Or.inr ⟨entry.1, rfl⟩)
      exact lockOk_calls _ hquiet hno rfl
  | send connId frame hcontrol =>
      split
      · exact lockOk_calls [.write connId frame] (by simp [Quiet]) (by simp [isCallback]) rfl
      · exact lockOk_calls [] (by simp [Quiet]) (by simp) rfl
  | broadcast frame hcontrol =>
      obtain ⟨hquiet, hno⟩ := quiet_map
        ((order s.conns).visits.filter fun entry => entry.2.handshakeDone)
        (f := fun entry => .write entry.1 frame) (fun entry => Or.inl ⟨entry.1, frame, rfl⟩)
      exact lockOk_calls _ hquiet hno rfl

theorem lockOk_react (s : Server) (e : Event) :
    LockOk (react sha1Base64 order callbacks s e) (Silent sha1Base64 callbacks s e) :=
  lockOk_of_handles sha1Base64 order callbacks (handles_react sha1Base64 order callbacks s e)

/-! ## Whole runs -/

/-- A loop that was left by an exception does nothing more. -/
theorem react_crashed {s : Server} (h : s.control = .crashed) (e : Event) :
    react sha1Base64 order callbacks s e = ignored s := by
  cases e with
  | wait batch => simp [react, h]
  | next => simp [react, h]
  | accept result => simp [react, h]
  | read result => simp [react, h]
  | stop => simp [react, h]
  | send connId frame => simp [react, h]
  | broadcast frame => simp [react, h]

/-- The mutex is free between the events, until an exception ends the thread. -/
def Free (s : Server) (held : Bool) : Prop := s.control = .crashed ∨ held = false

/-- Between events the mutex is free, unless the loop crashed. -/
theorem free_step {s : Server} {held : Bool} (h : Free s held) (e : Event) :
    Free (step sha1Base64 order callbacks s e)
      (run lockStep held (actions sha1Base64 order callbacks s e)) := by
  rcases h with hcrashed | rfl
  · left
    rw [step, react_crashed sha1Base64 order callbacks hcrashed]
    exact hcrashed
  · have hok := lockOk_react sha1Base64 order callbacks s e
    by_cases hcrashed : (react sha1Base64 order callbacks s e).control = .crashed
    · exact Or.inl hcrashed
    · exact Or.inr (hok.released hcrashed)

/-- The callbacks of an event are outside the lock exactly if it is silent. -/
theorem outside_actions_iff {s : Server} {held : Bool} (h : Free s held) (e : Event) :
    Along lockStep Outside held (actions sha1Base64 order callbacks s e) ↔
      Silent sha1Base64 callbacks s e := by
  rcases h with hcrashed | rfl
  · rw [actions, react_crashed sha1Base64 order callbacks hcrashed]
    refine iff_of_true (along_nil held) (silent_of_not_reading sha1Base64 callbacks ?_)
    intro fd batch result hcontrol
    rw [hcrashed] at hcontrol
    cases hcontrol
  · exact (lockOk_react sha1Base64 order callbacks s e).outside

/-- The thread itself never locks the mutex twice. -/
theorem noRelock_trace (events : List Event) :
    Along lockStep NoRelock false (trace (step sha1Base64 order callbacks)
      (actions sha1Base64 order callbacks) {} events) := by
  refine (along_trace_iff (R := Free) (Q := fun _ _ => True) ?_ ?_ (Or.inr rfl) events).2
    (along_of_forall (fun _ _ => trivial) _ _)
  · intro s held e hfree
    rcases hfree with hcrashed | rfl
    · rw [actions, react_crashed sha1Base64 order callbacks hcrashed]
      exact iff_of_true (along_nil held) trivial
    · exact iff_of_true (lockOk_react sha1Base64 order callbacks s e).noRelock trivial
  · intro s held e hfree _
    exact free_step sha1Base64 order callbacks hfree e

/-- Any number of calls of `send` and `broadcast`, made with the mutex free. -/
theorem noRelock_calls (calls : List (List (ℤ × List UInt8))) (rest : List LoopAction) :
    Along lockStep NoRelock false (calls.flatMap (fun frames =>
      .lock :: frames.map (fun f => .write f.1 f.2) ++ [.unlock]) ++ rest) ↔
        Along lockStep NoRelock false rest := by
  induction calls with
  | nil => rfl
  | cons frames calls ih =>
      have hquiet := (quiet_map frames (f := fun f => .write f.1 f.2)
        (fun f => Or.inl ⟨f.1, f.2, rfl⟩)).1
      rw [List.flatMap_cons, List.append_assoc, List.append_assoc]
      exact (noRelock_section hquiet _).trans ih

/-- Callbacks that are called outside the lock can send. -/
theorem noRelock_withCalls (calls : LoopAction → List (List (ℤ × List UInt8))) {held : Bool}
    {tr : List LoopAction} (houtside : Along lockStep Outside held tr)
    (hno : Along lockStep NoRelock held tr) :
    Along lockStep NoRelock held (tr.flatMap (withCalls calls)) := by
  induction tr generalizing held with
  | nil => exact along_nil held
  | cons a tr ih =>
      obtain ⟨hfree, houtside⟩ := houtside
      obtain ⟨hlock, hno⟩ := hno
      have hrest := ih houtside hno
      rw [List.flatMap_cons, withCalls]
      split
      · -- the callback is called with the mutex free, and its calls leave it free
        rename_i hcallback
        obtain rfl := hfree hcallback
        have hkeep : lockStep false a = false := by cases a <;> first | rfl | cases hcallback
        rw [List.cons_append, along_cons, hkeep, noRelock_calls]
        rw [hkeep] at hrest
        exact ⟨hlock, hrest⟩
      · exact ⟨hlock, hrest⟩

/-- In a run of the event loop the callbacks are called outside the lock, so that they can send,
exactly when no read completes a handshake while `on_connect_` is installed and none completes a
text frame while `on_message_` is installed. -/
theorem callbacks_outside_lock_iff (sha1Base64 : List UInt8 → List UInt8)
    (order : IterOrder ℤ WsConnection) (callbacks : Callbacks) (events : List Event) :
    LockFree (trace (step sha1Base64 order callbacks) (actions sha1Base64 order callbacks) {}
      events) ↔
        Along (step sha1Base64 order callbacks) (Silent sha1Base64 callbacks) {} events := by
  have hstart : Free {} false := Or.inr rfl
  have hout : ∀ s held e, Free s held →
      (Along lockStep Outside held (actions sha1Base64 order callbacks s e) ↔
        Silent sha1Base64 callbacks s e) :=
    fun _ _ e h => outside_actions_iff sha1Base64 order callbacks h e
  have hstep : ∀ s held e, Free s held → Silent sha1Base64 callbacks s e →
      Free (step sha1Base64 order callbacks s e)
        (run lockStep held (actions sha1Base64 order callbacks s e)) :=
    fun _ _ e h _ => free_step sha1Base64 order callbacks h e
  have hiff := along_trace_iff hout hstep hstart events
  -- callbacks outside the lock are enough for the calls they make
  rw [LockFree, hiff]
  refine and_iff_left_of_imp fun hsilent calls => ?_
  exact noRelock_withCalls calls (hiff.2 hsilent) (noRelock_trace sha1Base64 order callbacks events)

/-- A server with all callbacks installed calls `on_connect_` with the mutex held when it has
answered its first request. -/
theorem on_connect_under_lock :
    ¬LockFree (trace (step firstHash someVisits ⟨true, true, true⟩)
      (actions firstHash someVisits ⟨true, true, true⟩) {} firstEvents) := by
  intro hfree
  exact absurd hfree.1 (by decide +kernel)

end CppMeet.Signaling.CallbackLocks
