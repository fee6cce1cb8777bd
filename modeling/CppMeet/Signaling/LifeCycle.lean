import CppMeet.Signaling.Connection

/-!
# The life cycle of connections

The event loop does to the connection it reads what the connection is served, and nothing to the
others (`Serves`). As `conns_` has every descriptor that is read (`Covered`), also after a Close
frame, a whole run calls the callbacks of each connection in order, and `on_disconnect_` after the
handshake only, exactly when all its reads are timely (`life_cycle_iff`).
-/

set_option autoImplicit false

namespace CppMeet.Signaling.LifeCycle

open CppMeet.Lib.HashMap CppMeet.Lib.Run CppMeet.Signaling.CallbackLocks
open CppMeet.Signaling.Connection CppMeet.Signaling.Descriptors CppMeet.Signaling.EventLoop
open CppMeet.Signaling.WsFrames

variable (sha1Base64 : List UInt8 → List UInt8) (order : IterOrder ℤ WsConnection)
  (callbacks : Callbacks)

/-! ## The loop serves connections -/

/-- A reaction does to one connection what it is served, and nothing to the others. -/
structure Serves (s : Server) (fd : ℤ) (batch : List Source) (served : Served) (r : Reaction) :
    Prop where
  lookup : ∀ fd', r.conns.lookup fd' = if fd' = fd then served.conn else s.conns.lookup fd'
  control : r.control = .reading fd batch ∧ served.conn.isSome = true ∨
    r.control = .serving batch ∨ r.control = .crashed
  closes : served.conn = none → .close fd ∈ r.actions
  signals : ∀ fd', r.actions.filterMap (signal fd') = if fd' = fd then served.calls else []

section Serving

variable {s : Server} {fd : ℤ} {batch : List Source} {conn : WsConnection}

/-- The label `disconnect`, reached after some other actions. -/
theorem serves_dropped {s' : Server} (front : List LoopAction)
    (hconns : ∀ fd', fd' ≠ fd → s'.conns.lookup fd' = s.conns.lookup fd')
    (hfront : ∀ fd', front.filterMap (signal fd') = []) :
    Serves s fd batch (dropped callbacks)
      { disconnect callbacks s' fd batch with
        actions := front ++ (disconnect callbacks s' fd batch).actions } where
  lookup fd' := by
    rw [disconnect, lookup_erase_ite]
    by_cases hfd : fd' = fd
    · rw [if_pos hfd, if_pos hfd, dropped]
    · rw [if_neg hfd, if_neg hfd, hconns fd' hfd]
  control := Or.inr (Or.inl rfl)
  closes _ := by
    refine List.mem_append_right _ (List.mem_append_left _ ?_)
    simp
  signals fd' := by
    rw [List.filterMap_append, hfront, List.nil_append, disconnect, dropped]
    by_cases hfd : fd' = fd
    · cases callbacks.onDisconnect <;> simp [List.filterMap_cons, signal, hfd]
    · cases callbacks.onDisconnect <;> simp [List.filterMap_cons, signal, hfd, Ne.symm hfd]

/-- The read of the request does to the connection what `serve` says. -/
theorem serves_request (hdone : conn.handshakeDone = false) (bytes : List UInt8) (sent : Bool) :
    Serves s fd batch (serve sha1Base64 callbacks conn (.data bytes sent))
      (handleRequest sha1Base64 callbacks s fd batch conn bytes sent) := by
  have hconns (conn' : WsConnection) (fd' : ℤ) (hfd : fd' ≠ fd) :
      (s.conns.insert fd conn').lookup fd' = s.conns.lookup fd' := by
    rw [lookup_insert_ite, if_neg hfd]
  have hnot : ¬conn.handshakeDone = true := by rw [hdone]; exact Bool.false_ne_true
  rw [serve, if_neg hnot, handleRequest]
  dsimp only
  split
  · cases hresponse : handshakeResponse sha1Base64 (conn.recvBuf ++ bytes) with
    | none =>
        -- the request has no key
        rw [if_neg (by simp)]
        exact serves_dropped callbacks [.lock, .unlock] (hconns _)
          (by simp [List.filterMap_cons, signal])
    | some response =>
        cases sent with
        | false =>
            rw [if_neg (by simp)]
            exact serves_dropped callbacks [.lock, .write conn.fd response, .unlock] (hconns _)
              (by simp [List.filterMap_cons, signal])
        | true =>
            rw [if_pos (by simp)]
            refine ⟨fun fd' => ?_, Or.inl ⟨rfl, rfl⟩, fun h => (Option.some_ne_none _ h).elim,
              fun fd' => ?_⟩
            · dsimp only
              rw [if_pos rfl, lookup_insert_ite]
              by_cases hfd : fd' = fd
              · rw [if_pos hfd, if_pos hfd]
              · rw [if_neg hfd, if_neg hfd, hconns _ fd' hfd]
            · by_cases hfd : fd' = fd
              · cases callbacks.onConnect <;> simp [List.filterMap_cons, signal, hfd]
              · cases callbacks.onConnect <;> simp [List.filterMap_cons, signal, hfd, Ne.symm hfd]
  · refine ⟨fun fd' => ?_, Or.inl ⟨rfl, rfl⟩, fun h => (Option.some_ne_none _ h).elim,
      fun fd' => ?_⟩
    · exact lookup_insert_ite s.conns fd fd' _
    · simp [List.filterMap_cons, signal]

/-- The text frames of a connection are told to its own descriptor. -/
theorem signals_frames (conn : WsConnection) (bytes : List UInt8) (fd' : ℤ) :
    ((readBytes conn bytes).events.flatMap (toActions callbacks)).filterMap (signal fd') =
      if fd' = conn.fd then messages callbacks (readBytes conn bytes).events else [] := by
  -- the messages of a read are those of its connection
  have hown : ∀ event ∈ (readBytes conn bytes).events, ∀ k msg,
      event = .onMessage k msg → k = conn.fd := by
    rintro event hevent k msg rfl
    obtain ⟨f, -, hdispatch⟩ := mem_events.1 hevent
    exact (mem_dispatch.1 hdispatch).1
  generalize (readBytes conn bytes).events = events at hown
  rw [List.filterMap_flatMap]
  induction events with
  | nil => simp [messages]
  | cons event events ih =>
      obtain ⟨hevent, hevents⟩ := List.forall_mem_cons.1 hown
      rw [List.flatMap_cons, ih hevents]
      cases event with
      | onMessage k msg =>
          rw [hevent k msg rfl]
          by_cases hfd : fd' = conn.fd
          · cases hinstalled : callbacks.onMessage <;>
              simp [toActions, messages, signal, hinstalled, hfd]
          · cases hinstalled : callbacks.onMessage <;>
              simp [toActions, signal, hinstalled, hfd, Ne.symm hfd]
      | write k bytes' => simp [toActions, messages, signal, List.filterMap_cons]
      | close k => simp [toActions, messages, signal, List.filterMap_cons]
      | lengthError => simp [toActions, messages, signal, List.filterMap_cons]

/-- The read of frames does to the connection what `serve` says. -/
theorem serves_frames (hown : conn.fd = fd) (hdone : conn.handshakeDone = true)
    (bytes : List UInt8) (sent : Bool) :
    Serves s fd batch (serve sha1Base64 callbacks conn (.data bytes sent))
      (handleFrames callbacks s fd batch conn bytes) := by
  have hsignals := signals_frames callbacks conn bytes
  rw [hown] at hsignals
  rw [serve, if_pos hdone, handleFrames]
  dsimp only
  have hlookups (fd' : ℤ) := lookup_insert_ite s.conns fd fd' (readBytes conn bytes).conn
  split
  · refine ⟨hlookups, Or.inr (Or.inr rfl), fun h => (Option.some_ne_none _ h).elim, fun fd' => ?_⟩
    exact hsignals fd'
  · refine ⟨hlookups, Or.inl ⟨rfl, rfl⟩, fun h => (Option.some_ne_none _ h).elim, fun fd' => ?_⟩
    rw [List.filterMap_append, List.filterMap_cons_none rfl, hsignals]
    exact List.append_nil _

/-- What the loop does with a read is what the connection is served. -/
theorem serves_handleRead (hlookup : s.conns.lookup fd = some conn) (hown : conn.fd = fd)
    (result : ReadResult) :
    Serves s fd batch (serve sha1Base64 callbacks conn result)
      (handleRead sha1Base64 callbacks s fd batch result) := by
  cases result with
  | wouldBlock =>
      refine ⟨fun fd' => ?_, Or.inr (Or.inl rfl), fun h => (Option.some_ne_none _ h).elim,
        fun fd' => (ite_self _).symm⟩
      by_cases hfd : fd' = fd
      · rw [if_pos hfd, hfd]
        exact hlookup
      · rw [if_neg hfd]
        rfl
  | error => exact serves_dropped callbacks [] (fun _ _ => rfl) fun _ => rfl
  | endOfStream => exact serves_dropped callbacks [] (fun _ _ => rfl) fun _ => rfl
  | data bytes sent =>
      simp only [handleRead, hlookup]
      cases hdone : conn.handshakeDone with
      | true => exact serves_frames sha1Base64 callbacks hown hdone bytes sent
      | false => exact serves_request sha1Base64 callbacks hdone bytes sent

end Serving

/-! ## One event -/

/-- `conns_` has the open descriptors and those the loop still has to handle. After a Close frame
it also has a closed one. -/
structure Covered (s : Server) : Prop where
  opened : s.opened ⊆ s.conns.keys
  own : ∀ fd conn, s.conns.lookup fd = some conn → conn.fd = fd
  placed : Placed s.conns.keys s.control

theorem covered_start : Covered {} where
  opened := Finset.empty_subset _
  own fd conn h := by
    rw [Finmap.lookup_empty] at h
    cases h
  placed := ⟨List.nodup_nil, List.forall_mem_nil _⟩

/-- The server after a reaction. -/
def after (s : Server) (r : Reaction) : Server :=
  { conns := r.conns, control := r.control, opened := run openedStep s.opened r.actions }

/-- The stage is that of the connection that `conns_` has for the descriptor. -/
def At (conns : UnorderedMap ℤ WsConnection) (fd : ℤ) (stage : Stage) : Prop :=
  ∀ conn, conns.lookup fd = some conn → stage = stageOf callbacks conn

/-- A read of the descriptor is timely for the connection that it serves. -/
def TimelyRead (fd : ℤ) (s : Server) : Event → Prop
  | .read result => ∀ batch conn, s.control = .reading fd batch →
      s.conns.lookup fd = some conn → Timely sha1Base64 callbacks conn result
  | _ => True

section Events

variable {s : Server} {fd : ℤ} {batch : List Source} {r : Reaction} {opened : Finset ℤ}

/-- Without a new connection no more descriptors are open than before. -/
theorem run_subset {actions : List LoopAction}
    (h : ∀ fd, .accepted ∉ actions.filterMap (signal fd)) :
    run openedStep opened actions ⊆ opened := by
  intro fd
  contrapose!
  intro hfd
  refine not_mem_run (fun hmem => h fd ?_) (Or.inl hfd)
  exact List.mem_filterMap.2 ⟨_, hmem, if_pos rfl⟩

/-- An event that signals nothing keeps the cover. -/
theorem covered_quiet (h : Covered s) (hsignals : ∀ fd, r.actions.filterMap (signal fd) = [])
    (hconns : r.conns = s.conns) (hplaced : Placed s.conns.keys r.control) :
    Covered (after s r) where
  opened := by
    have hsub : run openedStep s.opened r.actions ⊆ s.opened :=
      run_subset fun fd => by rw [hsignals]; exact List.not_mem_nil
    rw [after, hconns]
    exact hsub.trans h.opened
  own := by
    rw [after, hconns]
    exact h.own
  placed := by
    rw [after, hconns]
    exact hplaced

/-- A read leaves the other connections in the table. -/
theorem Serves.mem_keys {served : Served} (h : Serves s fd batch served r) (fd' : ℤ) :
    fd' ∈ r.conns.keys ↔ if fd' = fd then served.conn.isSome = true else fd' ∈ s.conns.keys := by
  rw [Finmap.mem_keys, ← Finmap.lookup_isSome, h.lookup, Finmap.mem_keys, ← Finmap.lookup_isSome]
  split <;> rfl

theorem Serves.erase_subset {served : Served} (h : Serves s fd batch served r) :
    s.conns.keys.erase fd ⊆ r.conns.keys := by
  intro fd' hfd'
  obtain ⟨hne, hmem⟩ := Finset.mem_erase.1 hfd'
  rw [h.mem_keys, if_neg hne]
  exact hmem

/-- A read opens no descriptor. -/
theorem Serves.accepted_not_mem {served : Served} (h : Serves s fd batch served r)
    (hcalls : .accepted ∉ served.calls) (fd' : ℤ) :
    .accepted ∉ r.actions.filterMap (signal fd') := by
  rw [h.signals]
  split
  · exact hcalls
  · exact List.not_mem_nil

theorem Serves.opened_subset {served : Served} (h : Serves s fd batch served r)
    (hcalls : .accepted ∉ served.calls) (hopened : s.opened ⊆ s.conns.keys) :
    run openedStep s.opened r.actions ⊆ r.conns.keys := by
  have hno := h.accepted_not_mem hcalls
  intro fd' hfd'
  by_cases hfd : fd' = fd
  · -- a descriptor that is dropped is closed
    rw [h.mem_keys, if_pos hfd, Option.isSome_iff_ne_none]
    intro hnone
    have haccept : .accept fd' ∉ r.actions :=
      fun hmem => hno fd' (List.mem_filterMap.2 ⟨_, hmem, if_pos rfl⟩)
    exact not_mem_run haccept (Or.inr (hfd ▸ h.closes hnone)) hfd'
  · exact h.erase_subset (Finset.mem_erase.2 ⟨hfd, hopened (run_subset hno hfd')⟩)

theorem Serves.covered {conn : WsConnection} {result : ReadResult}
    (h : Serves s fd batch (serve sha1Base64 callbacks conn result) r) (hcovered : Covered s)
    (hcontrol : s.control = .reading fd batch) (hown : conn.fd = fd) : Covered (after s r) := by
  have hcase := serveCase_serve sha1Base64 callbacks conn result
  have hplaced : Placed s.conns.keys (.reading fd batch) := hcontrol ▸ hcovered.placed
  obtain ⟨-, hnot, hreported⟩ := hplaced
  have hbatch : Reported r.conns.keys batch := (hreported.erase hnot).mono h.erase_subset
  refine ⟨?_, fun fd' conn' hlookup => ?_, ?_⟩
  · exact h.opened_subset (hcase.accepted_not_mem sha1Base64 callbacks) hcovered.opened
  · change r.conns.lookup fd' = some conn' at hlookup
    -- the connection that was read keeps its descriptor, the others their entries
    rw [h.lookup] at hlookup
    split at hlookup
    · rename_i hfd
      rw [hcase.fd_eq sha1Base64 callbacks hlookup, hown, hfd]
    · exact hcovered.own fd' conn' hlookup
  · change Placed r.conns.keys r.control
    -- the loop reads on, goes on with its batch, or has crashed
    rcases h.control with ⟨hreading, hsome⟩ | hserving | hcrashed
    · rw [hreading]
      have hmem : fd ∈ r.conns.keys := by
        rw [h.mem_keys, if_pos rfl]
        exact hsome
      exact ⟨hmem, hnot, hbatch⟩
    · rw [hserving]
      exact hbatch
    · rw [hcrashed]
      trivial

/-- `on_disconnect_` is called for connections whose handshake is done. -/
def DisconnectsDone (s : Server) (actions : List LoopAction) : Prop :=
  ∀ fd, .onDisconnect fd ∈ actions →
    ∃ conn, s.conns.lookup fd = some conn ∧ conn.handshakeDone = true

/-- What is to be known of the reaction to an event. -/
structure LifeOk (s : Server) (e : Event) (r : Reaction) : Prop where
  covered : Covered (after s r)
  calls : ∀ fd stage, At callbacks s.conns fd stage →
    (Along Stage.next Stage.Allows stage (r.actions.filterMap (signal fd)) ↔
      TimelyRead sha1Base64 callbacks fd s e)
  stages : ∀ fd stage, At callbacks s.conns fd stage →
    At callbacks r.conns fd (run Stage.next stage (r.actions.filterMap (signal fd)))
  done : (∀ fd, TimelyRead sha1Base64 callbacks fd s e) → DisconnectsDone s r.actions

/-- A disconnection that is reported is a signal. -/
theorem mem_signals_disconnect {actions : List LoopAction} (h : .onDisconnect fd ∈ actions) :
    .disconnect ∈ actions.filterMap (signal fd) :=
  List.mem_filterMap.2 ⟨_, h, if_pos rfl⟩

/-- An event that is no read of this connection is timely. -/
theorem timelyRead_of_not_reading {e : Event}
    (h : ∀ batch result, s.control = .reading fd batch → e ≠ .read result) :
    TimelyRead sha1Base64 callbacks fd s e := by
  cases e with
  | read result =>
      intro batch conn hcontrol
      exact absurd rfl (h batch result hcontrol)
  | _ => trivial

/-- An event that calls nothing and takes no connection in. -/
theorem lifeOk_quiet {e : Event} (hcovered : Covered (after s r))
    (hsignals : ∀ fd, r.actions.filterMap (signal fd) = [])
    (hconns : ∀ fd conn, r.conns.lookup fd = some conn → s.conns.lookup fd = some conn)
    (hnot : ∀ fd batch result, s.control = .reading fd batch → e ≠ .read result) :
    LifeOk sha1Base64 callbacks s e r where
  covered := hcovered
  calls fd stage _ := by
    rw [hsignals]
    exact iff_of_true (along_nil _) (timelyRead_of_not_reading sha1Base64 callbacks (hnot fd))
  stages fd stage hat conn hlookup := by
    rw [hsignals]
    exact hat conn (hconns fd conn hlookup)
  done _ fd hmem := by
    have hsignal := mem_signals_disconnect hmem
    rw [hsignals] at hsignal
    cases hsignal

/-- An event that calls nothing and leaves `conns_` alone. -/
theorem lifeOk_same {e : Event} (h : Covered s)
    (hsignals : ∀ fd, r.actions.filterMap (signal fd) = []) (hconns : r.conns = s.conns)
    (hplaced : Placed s.conns.keys r.control)
    (hnot : ∀ fd batch result, s.control = .reading fd batch → e ≠ .read result) :
    LifeOk sha1Base64 callbacks s e r := by
  have hcovered := covered_quiet h hsignals hconns hplaced
  refine lifeOk_quiet sha1Base64 callbacks hcovered hsignals (fun fd conn hlookup => ?_) hnot
  exact hconns ▸ hlookup

/-- An accepted connection begins its life. -/
theorem lifeOk_accept (h : Covered s) (hcontrol : s.control = .accepting batch) (fd : ℤ) :
    LifeOk sha1Base64 callbacks s (.accept (some fd))
      { conns := s.conns.insert fd { fd := fd }
        control := .accepting batch
        actions := [.accept fd, .setNonblocking fd, .epollAdd fd, .lock, .unlock] } := by
  have hplaced : Reported s.conns.keys batch := by
    simpa only [hcontrol, Placed] using h.placed
  have hkeys : (s.conns.insert fd { fd := fd }).keys = insert fd s.conns.keys := by
    ext fd'
    rw [Finmap.mem_keys, Finmap.mem_insert, Finset.mem_insert, Finmap.mem_keys]
  refine ⟨⟨?_, fun fd' conn hlookup => ?_, ?_⟩, fun fd' stage hat => ?_, fun fd' stage hat => ?_,
    fun _ fd' hmem => ?_⟩
  · rw [after, hkeys]
    exact Finset.insert_subset_insert fd h.opened
  · -- the new connection has the descriptor as its own
    rw [after, lookup_insert_ite] at hlookup
    split at hlookup
    · rename_i hfd
      cases hlookup
      exact hfd.symm
    · exact h.own fd' conn hlookup
  · rw [after, hkeys]
    exact hplaced.insert fd
  · refine iff_of_true ?_ trivial
    -- the only signal of the actions is that the descriptor was accepted
    by_cases hfd : fd = fd'
    · simp [List.filterMap_cons, signal, hfd, Stage.Allows]
    · simp [List.filterMap_cons, signal, hfd]
  · intro conn hlookup
    rw [lookup_insert_ite] at hlookup
    split at hlookup
    · rename_i hfd
      cases hlookup
      simp [List.filterMap_cons, signal, hfd, Stage.next, stageOf]
    · rename_i hfd
      simpa [List.filterMap_cons, signal, Ne.symm hfd] using hat conn hlookup
  · simp at hmem

/-- A read goes on with the life of its connection, exactly if it is timely. -/
theorem lifeOk_read (h : Covered s) (hcontrol : s.control = .reading fd batch)
    (result : ReadResult) :
    LifeOk sha1Base64 callbacks s (.read result)
      (handleRead sha1Base64 callbacks s fd batch result) := by
  have hplaced : Placed s.conns.keys (.reading fd batch) := hcontrol ▸ h.placed
  obtain ⟨conn, hlookup⟩ := Finmap.mem_iff.1 (Finmap.mem_keys.1 hplaced.1)
  have hown := h.own fd conn hlookup
  have hcase := serveCase_serve sha1Base64 callbacks conn result
  have hserves : Serves s fd batch _ _ :=
    serves_handleRead sha1Base64 callbacks hlookup hown result
  refine ⟨hserves.covered sha1Base64 callbacks h hcontrol hown, fun fd' stage hat => ?_,
    fun fd' stage hat conn' hlookup' => ?_, fun htimely fd' hmem => ?_⟩
  · rw [hserves.signals]
    by_cases hfd : fd' = fd
    · rw [if_pos hfd, hat conn (hfd ▸ hlookup), hcase.along_iff, hfd]
      constructor
      · intro htimely batch' conn' hcontrol' hlookup'
        -- the connection that reads is the one that was looked up
        cases hlookup.symm.trans hlookup'
        exact htimely
      · exact fun htimely => htimely batch conn hcontrol hlookup
    · rw [if_neg hfd]
      -- a read of another connection says nothing of this one
      refine iff_of_true (along_nil _) fun batch' conn' hcontrol' _ => absurd ?_ hfd
      cases hcontrol.symm.trans hcontrol'
      rfl
  · rw [hserves.lookup] at hlookup'
    rw [hserves.signals]
    by_cases hfd : fd' = fd
    · rw [if_pos hfd] at hlookup' ⊢
      rw [hat conn (hfd ▸ hlookup)]
      exact hcase.run_eq sha1Base64 callbacks hlookup'
    · rw [if_neg hfd] at hlookup' ⊢
      exact hat conn' hlookup'
  · have hsignal := mem_signals_disconnect hmem
    rw [hserves.signals] at hsignal
    split at hsignal
    · -- only the connection that reads is dropped, and it was announced
      rename_i hfd
      obtain ⟨hinstalled, hdrops⟩ := hcase.drops_of_disconnect sha1Base64 callbacks hsignal
      have hannounced := (htimely fd batch conn hcontrol hlookup).drops hinstalled hdrops
      exact ⟨conn, hfd ▸ hlookup, hannounced.1⟩
    · cases hsignal

/-- Some actions under the lock that are no callbacks. -/
theorem signals_section {α : Type*} (l : List α) {f : α → LoopAction}
    (hf : ∀ x, signal fd (f x) = none) :
    (LoopAction.lock :: l.map f ++ [LoopAction.unlock]).filterMap (signal fd) = [] := by
  refine List.filterMap_eq_nil_iff.2 fun a ha => ?_
  rcases List.mem_append.1 ha with ha | ha
  · rcases List.mem_cons.1 ha with rfl | ha
    · rfl
    · obtain ⟨x, -, rfl⟩ := List.mem_map.1 ha
      exact hf x
  · obtain rfl := List.mem_singleton.1 ha
    rfl

theorem lifeOk_stop (h : Covered s) (it : Iteration s.conns) :
    LifeOk sha1Base64 callbacks s .stop
      { conns := ∅
        control := .ended
        actions := .lock :: it.visits.map (fun entry => .close entry.1) ++ [.unlock] } := by
  have hsignals (fd : ℤ) :
      (LoopAction.lock :: it.visits.map (fun entry => LoopAction.close entry.1) ++
        [LoopAction.unlock]).filterMap (signal fd) = [] := signals_section it.visits fun _ => rfl
  refine lifeOk_quiet sha1Base64 callbacks ⟨fun fd hfd => ?_, covered_start.own, Finmap.keys_empty⟩
    hsignals (fun fd conn hlookup => ?_) fun _ _ _ _ => Event.noConfusion
  · -- every open descriptor is closed
    have hopen := run_subset (fun k => by rw [hsignals]; exact List.not_mem_nil) hfd
    obtain ⟨conn, hlookup⟩ := Finmap.mem_iff.1 (Finmap.mem_keys.1 (h.opened hopen))
    have hclose : .close fd ∈ it.visits.map (fun entry => LoopAction.close entry.1) :=
      List.mem_map.2 ⟨⟨fd, conn⟩, it.mem_iff.2 hlookup, rfl⟩
    refine absurd hfd (not_mem_run ?_ (Or.inr ?_))
    · simp
    · exact List.mem_append_left _ (List.mem_cons_of_mem _ hclose)
  · rw [Finmap.lookup_empty] at hlookup
    cases hlookup

/-- What the loop does with an event it handles. -/
theorem lifeOk_of_handles (hcovered : Covered s) {e : Event}
    (h : Handles sha1Base64 order callbacks s e r) : LifeOk sha1Base64 callbacks s e r := by
  have hplaced := hcovered.placed
  cases h with
  | ignored hnot => exact lifeOk_same sha1Base64 callbacks hcovered (fun _ => rfl) rfl hplaced hnot
  | wait hcontrol hnodup hopen =>
      have hreported : Reported s.opened _ := ⟨hnodup, hopen⟩
      exact lifeOk_same sha1Base64 callbacks hcovered (fun _ => rfl) rfl
        (hreported.mono hcovered.opened) fun _ _ _ _ => Event.noConfusion
  | server hcontrol =>
      rw [hcontrol] at hplaced
      refine lifeOk_same sha1Base64 callbacks hcovered (fun _ => rfl) rfl ?_
        fun _ _ _ _ => Event.noConfusion
      -- the descriptors that remain in the batch are those behind the first one
      exact ⟨(List.nodup_cons.1 hplaced.1).2, (List.forall_mem_cons.1 hplaced.2).2⟩
  | client hcontrol =>
      rw [hcontrol] at hplaced
      obtain ⟨hnot, hnodup⟩ := List.nodup_cons.1 hplaced.1
      obtain ⟨hopen, hrest⟩ := List.forall_mem_cons.1 hplaced.2
      exact lifeOk_same sha1Base64 callbacks hcovered (fun _ => rfl) rfl
        ⟨of_decide_eq_true hopen, hnot, hnodup, hrest⟩ fun _ _ _ _ => Event.noConfusion
  | noClient hcontrol =>
      rw [hcontrol] at hplaced
      exact lifeOk_same sha1Base64 callbacks hcovered (fun _ => rfl) rfl hplaced
        fun _ _ _ _ => Event.noConfusion
  | newClient hcontrol hfd => exact lifeOk_accept sha1Base64 callbacks hcovered hcontrol _
  | read result hcontrol => exact lifeOk_read sha1Base64 callbacks hcovered hcontrol result
  | stop hcontrol => exact lifeOk_stop sha1Base64 callbacks hcovered (order s.conns)
  | send connId frame hcontrol =>
      refine lifeOk_same sha1Base64 callbacks hcovered (fun fd => ?_) rfl hplaced
        fun _ _ _ _ => Event.noConfusion
      dsimp only
      -- a message is written, which is no signal
      split <;> rfl
  | broadcast frame hcontrol =>
      refine lifeOk_same sha1Base64 callbacks hcovered (fun fd => ?_) rfl hplaced
        fun _ _ _ _ => Event.noConfusion
      exact signals_section (f := fun entry : Σ _ : ℤ, WsConnection => .write entry.1 frame) _
        fun _ => rfl

end Events

/-! ## Whole runs -/

theorem lifeOk_react {s : Server} (h : Covered s) (e : Event) :
    LifeOk sha1Base64 callbacks s e (react sha1Base64 order callbacks s e) :=
  lifeOk_of_handles sha1Base64 order callbacks h (handles_react sha1Base64 order callbacks s e)

/-- In a run of the server the callbacks of each accepted connection are nothing, or `on_connect_`,
then any number of `on_message_`, then at most one `on_disconnect_`, and `on_disconnect_` is called
for connections whose handshake is done only, exactly when no read drops a connection, with
`on_disconnect_` installed, that has not been announced by `on_connect_`, and none completes a text
frame of such a connection with `on_message_` installed. -/
theorem life_cycle_iff (sha1Base64 : List UInt8 → List UInt8) (order : IterOrder ℤ WsConnection)
    (callbacks : Callbacks) (events : List Event) :
    ((∀ fd, LifeCycles ((trace (step sha1Base64 order callbacks)
        (actions sha1Base64 order callbacks) {} events).filterMap (signal fd))) ∧
      Along (step sha1Base64 order callbacks)
        (fun s e => DisconnectsDone s (actions sha1Base64 order callbacks s e)) {} events) ↔
    Along (step sha1Base64 order callbacks)
      (fun s e => ∀ fd, TimelyRead sha1Base64 callbacks fd s e) {} events := by
  -- one descriptor: its signals follow the stages of its connection
  have hcycles (fd : ℤ) : LifeCycles ((trace (step sha1Base64 order callbacks)
        (actions sha1Base64 order callbacks) {} events).filterMap (signal fd)) ↔
      Along (step sha1Base64 order callbacks) (TimelyRead sha1Base64 callbacks fd) {} events := by
    rw [lifeCycles_iff, filterMap_trace]
    refine along_trace_iff (R := fun s stage => Covered s ∧ At callbacks s.conns fd stage)
      (fun s stage e h => ?_) (fun s stage e h _ => ?_) ⟨covered_start, ?_⟩ events
    · exact (lifeOk_react sha1Base64 order callbacks h.1 e).calls fd stage h.2
    · have hok := lifeOk_react sha1Base64 order callbacks h.1 e
      exact ⟨hok.covered, hok.stages fd stage h.2⟩
    · intro conn hlookup
      rw [Finmap.lookup_empty] at hlookup
      cases hlookup
  rw [along_forall_iff]
  constructor
  · exact fun h fd => (hcycles fd).1 (h.1 fd)
  · intro h
    refine ⟨fun fd => (hcycles fd).2 (h fd), ?_⟩
    -- and every `on_disconnect_` comes after the handshake of its connection
    refine along_of_inv (I := Covered) (fun s e hs _ => ?_) (fun s e hs htimely => ?_)
      covered_start (along_forall_iff.2 h)
    · exact (lifeOk_react sha1Base64 order callbacks hs e).covered
    · exact (lifeOk_react sha1Base64 order callbacks hs e).done htimely

/-- A client connects and goes away again before it has sent its request. -/
def portScan : List Event :=
  [.wait [.server], .next, .accept (some 5), .accept none, .wait [.client 5], .next,
    .read .endOfStream]

/-- The server calls `on_disconnect_` for it. -/
theorem disconnect_unannounced :
    ¬((∀ fd, LifeCycles ((trace (step firstHash someVisits ⟨true, true, true⟩)
        (actions firstHash someVisits ⟨true, true, true⟩) {} portScan).filterMap (signal fd))) ∧
      Along (step firstHash someVisits ⟨true, true, true⟩)
        (fun s e => DisconnectsDone s (actions firstHash someVisits ⟨true, true, true⟩ s e)) {}
        portScan) := by
  rintro ⟨hcycles, -⟩
  have hsignals : (trace (step firstHash someVisits ⟨true, true, true⟩)
      (actions firstHash someVisits ⟨true, true, true⟩) {} portScan).filterMap (signal 5) =
        [.accepted, .disconnect] := by decide +kernel
  have hspan := (hcycles 5).connections [.disconnect] (by rw [hsignals])
  rcases hspan with heq | ⟨msgs, fin, heq, -⟩
  · cases heq
  · cases heq

end CppMeet.Signaling.LifeCycle
