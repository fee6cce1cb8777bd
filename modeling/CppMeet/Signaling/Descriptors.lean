import CppMeet.Signaling.EventLoop
import Mathlib.Data.Finset.Insert

/-!
# The descriptors of the signaling server

Every operation on a client descriptor names one that is open at the time (`Uses`), so that a
descriptor is closed once and not used afterwards, and when the loop has ended none is open.

Except in the parser, the server keeps `conns_` and the open descriptors in step (`Inv`). On a Close
frame `parse_ws_frames` closes the descriptor and leaves the connection in `conns_`, and
`handle_client` reads the descriptor again. The two properties hold in exactly the runs without such
a frame (`closed_once_iff`).
-/

set_option autoImplicit false

namespace CppMeet.Signaling.Descriptors

open CppMeet.Lib.Frames CppMeet.Lib.HashMap CppMeet.Lib.Run CppMeet.Signaling.EventLoop
open CppMeet.Signaling.WsFrames

/-! ## Operations on descriptors -/

/-- The descriptor an action names is open, and `accept` opens one that is not. -/
def Uses (opened : Finset ℤ) : LoopAction → Prop
  | .accept fd => fd ∉ opened
  | .setNonblocking fd => fd ∈ opened
  | .epollAdd fd => fd ∈ opened
  | .epollDel fd => fd ∈ opened
  | .read fd => fd ∈ opened
  | .write fd _ => fd ∈ opened
  | .close fd => fd ∈ opened
  | _ => True

instance (opened : Finset ℤ) : (a : LoopAction) → Decidable (Uses opened a)
  | .accept fd => inferInstanceAs (Decidable (fd ∉ opened))
  | .setNonblocking fd => inferInstanceAs (Decidable (fd ∈ opened))
  | .epollAdd fd => inferInstanceAs (Decidable (fd ∈ opened))
  | .epollDel fd => inferInstanceAs (Decidable (fd ∈ opened))
  | .read fd => inferInstanceAs (Decidable (fd ∈ opened))
  | .write fd _ => inferInstanceAs (Decidable (fd ∈ opened))
  | .close fd => inferInstanceAs (Decidable (fd ∈ opened))
  | .lock => isTrue trivial
  | .unlock => isTrue trivial
  | .onConnect _ => isTrue trivial
  | .onMessage _ _ => isTrue trivial
  | .onDisconnect _ => isTrue trivial
  | .terminate => isTrue trivial

/-- No descriptor is used or closed after it was closed, and if the loop has ended then all of them
are closed. -/
structure ClosedOnce (actions : List LoopAction) (control : Control) : Prop where
  uses : Along openedStep Uses ∅ actions
  all : control = .ended → run openedStep ∅ actions = ∅

/-- An action that may be done and opens or closes nothing. -/
def Plain (opened : Finset ℤ) (a : LoopAction) : Prop :=
  openedStep opened a = opened ∧ Uses opened a

section Kernel

variable {opened : Finset ℤ} {fd : ℤ}

theorem run_plain {actions : List LoopAction} (h : ∀ a ∈ actions, Plain opened a) :
    run openedStep opened actions = opened := run_eq_self fun a ha => (h a ha).1

/-- Plain actions use open descriptors only. -/
theorem uses_plain {actions : List LoopAction} (h : ∀ a ∈ actions, Plain opened a) :
    Along openedStep Uses opened actions :=
  (along_iff_of_eq_self fun a ha => (h a ha).1).2 fun a ha => (h a ha).2

theorem plain_lock {actions : List LoopAction} (h : ∀ a ∈ actions, Plain opened a) :
    ∀ a ∈ .lock :: actions, Plain opened a :=
  List.forall_mem_cons.2 ⟨⟨rfl, trivial⟩, h⟩

/-- A descriptor that is closed, or closed by these actions, and not accepted again. -/
theorem not_mem_run {actions : List LoopAction} (haccept : .accept fd ∉ actions)
    (h : fd ∉ opened ∨ .close fd ∈ actions) : fd ∉ run openedStep opened actions := by
  induction actions generalizing opened with
  | nil =>
      rcases h with h | h
      · exact h
      · cases h
  | cons a actions ih =>
      obtain ⟨hne, hrest⟩ := not_or.1 (mt List.mem_cons.2 haccept)
      rw [run_cons]
      apply ih hrest
      by_cases hclose : a = .close fd
      · -- closed by this action
        left
        rw [hclose]
        exact Finset.notMem_erase fd opened
      · rcases h with h | h
        · left
          cases a with
          | accept fd' =>
              intro hmem
              rcases Finset.mem_insert.1 hmem with rfl | hmem
              · exact hne rfl
              · exact h hmem
          | close fd' => exact fun hmem => h (Finset.mem_of_mem_erase hmem)
          | _ => exact h
        · rcases List.mem_cons.1 h with h | h
          · exact absurd h.symm hclose
          · exact Or.inr h

/-- Closing some open descriptors, each of them once. -/
theorem uses_map_close {fds : List ℤ} (hnodup : fds.Nodup) (hopen : ∀ fd ∈ fds, fd ∈ opened) :
    Along openedStep Uses opened (fds.map .close) := by
  induction fds generalizing opened with
  | nil => exact along_nil opened
  | cons fd fds ih =>
      obtain ⟨hfd, hfds⟩ := List.forall_mem_cons.1 hopen
      obtain ⟨hnot, hnodup⟩ := List.nodup_cons.1 hnodup
      refine ⟨hfd, ih hnodup fun fd' hfd' => ?_⟩
      refine Finset.mem_erase.2 ⟨?_, hfds fd' hfd'⟩
      rintro rfl
      exact hnot hfd'

/-- Closing all of them. -/
theorem run_map_close {fds : List ℤ} (hall : ∀ fd ∈ opened, fd ∈ fds) :
    run openedStep opened (fds.map .close) = ∅ := by
  refine Finset.eq_empty_of_forall_notMem fun fd => ?_
  apply not_mem_run
  · simp
  · by_cases hfd : fd ∈ opened
    · exact Or.inr (List.mem_map_of_mem (hall fd hfd))
    · exact Or.inl hfd

end Kernel

/-! ## The invariant -/

/-- `conns_` holds the open descriptors, each under its own number. -/
structure Tracks (conns : UnorderedMap ℤ WsConnection) (opened : Finset ℤ) : Prop where
  mem_iff : ∀ fd, fd ∈ opened ↔ fd ∈ conns
  own : ∀ fd conn, conns.lookup fd = some conn → conn.fd = fd

/-- The sources of a batch are different and can still be handled. -/
def Reported (opened : Finset ℤ) (batch : List Source) : Prop :=
  batch.Nodup ∧ ∀ source ∈ batch, source.isOpen opened = true

/-- The place in the loop fits the open descriptors. -/
def Placed (opened : Finset ℤ) : Control → Prop
  | .serving batch => Reported opened batch
  | .accepting batch => Reported opened batch
  | .reading fd batch => fd ∈ opened ∧ .client fd ∉ batch ∧ Reported opened batch
  | .ended => opened = ∅
  | .crashed => True

/-- The table holds exactly the open descriptors, and the loop stands at one of them. -/
structure Inv (s : Server) : Prop where
  tracks : Tracks s.conns s.opened
  placed : Placed s.opened s.control

theorem inv_start : Inv {} where
  tracks := ⟨fun fd => iff_of_false (Finset.notMem_empty fd) Finmap.notMem_empty,
    fun fd conn h => by rw [Finmap.lookup_empty] at h; cases h⟩
  placed := ⟨List.nodup_nil, List.forall_mem_nil _⟩

section Tracks

variable {conns : UnorderedMap ℤ WsConnection} {opened : Finset ℤ} {fd : ℤ} {conn : WsConnection}
  {batch : List Source}

/-- A new connection on its own descriptor. -/
theorem Tracks.insert (h : Tracks conns opened) (hconn : conn.fd = fd) :
    Tracks (conns.insert fd conn) (insert fd opened) where
  mem_iff fd' := by rw [Finset.mem_insert, Finmap.mem_insert, h.mem_iff]
  own fd' conn' hlookup := by
    rw [lookup_insert_ite] at hlookup
    split at hlookup
    · rename_i heq
      cases hlookup
      rw [heq, hconn]
    · exact h.own fd' conn' hlookup

theorem Tracks.replace (h : Tracks conns opened) (hfd : fd ∈ opened) (hconn : conn.fd = fd) :
    Tracks (conns.insert fd conn) opened := by
  have hinsert := h.insert hconn
  rwa [Finset.insert_eq_of_mem hfd] at hinsert

theorem Tracks.erase (h : Tracks conns opened) (fd : ℤ) :
    Tracks (conns.erase fd) (opened.erase fd) where
  mem_iff fd' := by rw [Finset.mem_erase, Finmap.mem_erase, h.mem_iff]
  own fd' conn' hlookup := by
    rw [lookup_erase_ite] at hlookup
    split at hlookup
    · cases hlookup
    · exact h.own fd' conn' hlookup

/-- The visited keys are the open descriptors, each of them once. -/
theorem Tracks.visits (h : Tracks conns opened) (it : Iteration conns) (fd : ℤ) :
    fd ∈ opened ↔ fd ∈ it.visits.map Sigma.fst := by
  rw [h.mem_iff, List.mem_map, Finmap.mem_iff]
  constructor
  · rintro ⟨conn, hlookup⟩
    exact ⟨⟨fd, conn⟩, it.mem_iff.2 hlookup, rfl⟩
  · rintro ⟨⟨fd', conn⟩, hmem, rfl⟩
    exact ⟨conn, it.mem_iff.1 hmem⟩

/-- A batch may be handled while more descriptors are open. -/
theorem Reported.mono {known : Finset ℤ} (h : Reported opened batch) (hsub : opened ⊆ known) :
    Reported known batch := by
  refine ⟨h.1, fun source hsource => ?_⟩
  have hopen := h.2 source hsource
  cases source with
  | server => rfl
  | client fd => exact decide_eq_true (hsub (of_decide_eq_true hopen))

theorem Reported.insert (h : Reported opened batch) (fd : ℤ) :
    Reported (insert fd opened) batch := h.mono (Finset.subset_insert fd opened)

/-- A batch without the descriptor may be handled after it is closed. -/
theorem Reported.erase (h : Reported opened batch) (hnot : .client fd ∉ batch) :
    Reported (opened.erase fd) batch := by
  refine ⟨h.1, fun source hsource => ?_⟩
  have hopen := h.2 source hsource
  cases source with
  | server => rfl
  | client fd' =>
      refine decide_eq_true (Finset.mem_erase.2 ⟨?_, of_decide_eq_true hopen⟩)
      rintro rfl
      exact hnot hsource

end Tracks

/-! ## One event -/

/-- What a reaction does, seen from the kernel: its operations are allowed exactly if `fine`, and
then the invariant holds afterwards. -/
structure UseOk (opened : Finset ℤ) (r : Reaction) (fine : Prop) : Prop where
  uses : Along openedStep Uses opened r.actions ↔ fine
  tracks : fine → Tracks r.conns (run openedStep opened r.actions)
  placed : fine → Placed (run openedStep opened r.actions) r.control

/-- Reading the bytes completes a Close frame. -/
def Closes (conn : WsConnection) (bytes : List UInt8) : Prop :=
  ∃ payloadLen payload,
    .frame 0x8 payloadLen payload ∈ (drain wsFraming (conn.wsBuf ++ bytes)).frames

/-- No read completes a Close frame on a connection whose handshake is done. -/
def NoClose (s : Server) : Event → Prop
  | .read (.data bytes _) => ∀ fd batch conn, s.control = .reading fd batch →
      s.conns.lookup fd = some conn → conn.handshakeDone = true → ¬Closes conn bytes
  | _ => True

variable {sha1Base64 : List UInt8 → List UInt8} {order : IterOrder ℤ WsConnection}
  {callbacks : Callbacks} {opened : Finset ℤ} {r : Reaction}

theorem useOk_plain (h : ∀ a ∈ r.actions, Plain opened a) (htracks : Tracks r.conns opened)
    (hplaced : Placed opened r.control) : UseOk opened r True where
  uses := iff_of_true (uses_plain h) trivial
  tracks _ := by rwa [run_plain h]
  placed _ := by rwa [run_plain h]

/-- The condition may be replaced by an equivalent one. -/
theorem UseOk.congr {fine fine' : Prop} (h : UseOk opened r fine) (hiff : fine ↔ fine') :
    UseOk opened r fine' where
  uses := h.uses.trans hiff
  tracks hfine := h.tracks (hiff.2 hfine)
  placed hfine := h.placed (hiff.2 hfine)

theorem UseOk.of_true (h : UseOk opened r True) {fine : Prop} (hfine : fine) :
    UseOk opened r fine := h.congr (iff_of_true trivial hfine)

/-- Plain actions in front. -/
theorem UseOk.plain_append (h : UseOk opened r True) (actions : List LoopAction)
    (hplain : ∀ a ∈ actions, Plain opened a) :
    UseOk opened { r with actions := actions ++ r.actions } True where
  uses := by
    rw [along_append, run_plain hplain]
    exact iff_of_true ⟨uses_plain hplain, h.uses.2 trivial⟩ trivial
  tracks _ := by
    rw [run_append, run_plain hplain]
    exact h.tracks trivial
  placed _ := by
    rw [run_append, run_plain hplain]
    exact h.placed trivial

section Reading

variable {s : Server} {fd : ℤ} {batch : List Source} {conn : WsConnection}

variable (sha1Base64 callbacks)

/-- A connection is dropped: taken out of the table, out of `epoll` and closed. -/
theorem useOk_disconnect (htracks : Tracks s.conns s.opened)
    (hplaced : Placed s.opened (.reading fd batch)) :
    UseOk s.opened (disconnect callbacks s fd batch) True := by
  obtain ⟨hfd, hnot, hreported⟩ := hplaced
  have hrun : run openedStep s.opened (disconnect callbacks s fd batch).actions =
      s.opened.erase fd := by
    rw [disconnect]
    cases callbacks.onDisconnect <;> rfl
  refine ⟨iff_of_true ?_ trivial, fun _ => ?_, fun _ => ?_⟩
  · rw [disconnect]
    cases callbacks.onDisconnect <;> simp [Uses, openedStep, hfd]
  · rw [hrun]
    exact htracks.erase fd
  · rw [hrun]
    exact hreported.erase hnot

theorem useOk_request (htracks : Tracks s.conns s.opened)
    (hplaced : Placed s.opened (.reading fd batch)) (hlookup : s.conns.lookup fd = some conn)
    (bytes : List UInt8) (sent : Bool) :
    UseOk s.opened (handleRequest sha1Base64 callbacks s fd batch conn bytes sent) True := by
  have hfd := hplaced.1
  have hown := htracks.own fd conn hlookup
  -- the connection with the bytes appended, in its old place
  have hreplace : Tracks (s.conns.insert fd { conn with recvBuf := conn.recvBuf ++ bytes })
      s.opened := htracks.replace hfd hown
  have hdisconnect := useOk_disconnect callbacks
    (s := { s with conns := s.conns.insert fd { conn with recvBuf := conn.recvBuf ++ bytes } })
    hreplace hplaced
  rw [handleRequest]
  dsimp only
  split
  · split
    · -- the request has no key
      refine hdisconnect.plain_append [.lock, .unlock] ?_
      simp [Plain, openedStep, Uses]
    · rename_i response hresponse
      cases sent with
      | false =>
          rw [if_neg Bool.false_ne_true]
          refine hdisconnect.plain_append [.lock, .write conn.fd response, .unlock] ?_
          simp [Plain, openedStep, Uses, hown, hfd]
      | true =>
          rw [if_pos rfl]
          refine useOk_plain ?_ (hreplace.replace hfd hown) hplaced
          cases callbacks.onConnect <;> simp [Plain, openedStep, Uses, hown, hfd]
  · refine useOk_plain ?_ hreplace hplaced
    simp [Plain, openedStep, Uses, hfd]

/-! ### Frames -/

/-- The events of a read are those of its frames. -/
theorem mem_events {event : WsEvent} {bytes : List UInt8} :
    event ∈ (readBytes conn bytes).events ↔
      ∃ f ∈ (drain wsFraming (conn.wsBuf ++ bytes)).frames, event ∈ f.dispatch conn.fd := by
  rw [readBytes, parse_eq_drain]
  exact List.mem_flatMap

/-- Without a Close frame the parser only writes. -/
theorem plain_events {bytes : List UInt8} (hfd : conn.fd ∈ opened) (hclose : ¬Closes conn bytes) :
    ∀ a ∈ (readBytes conn bytes).events.flatMap (toActions callbacks), Plain opened a := by
  intro a ha
  obtain ⟨event, hevent, ha⟩ := List.mem_flatMap.1 ha
  obtain ⟨f, hf, hdispatch⟩ := mem_events.1 hevent
  rcases dispatch_cases hdispatch with ⟨_, _, _, rfl⟩ | ⟨payloadLen, payload, rfl, _⟩ |
    ⟨_, _, bytes, _, rfl⟩ | ⟨_, rfl⟩
  · rw [toActions] at ha
    split at ha
    · obtain rfl := List.mem_singleton.1 ha
      exact ⟨rfl, trivial⟩
    · cases ha
  · exact absurd ⟨payloadLen, payload, hf⟩ hclose
  · obtain rfl := List.mem_singleton.1 ha
    exact ⟨rfl, hfd⟩
  · obtain rfl := List.mem_singleton.1 ha
    exact ⟨rfl, trivial⟩

/-- A Close frame closes the descriptor; as the parser stops there, it does not throw. -/
theorem closes_events {bytes : List UInt8} (hclose : Closes conn bytes) :
    .close conn.fd ∈ (readBytes conn bytes).events ∧
      .lengthError ∉ (readBytes conn bytes).events := by
  obtain ⟨payloadLen, payload, hf⟩ := hclose
  constructor
  · exact mem_events.2 ⟨_, hf, List.mem_singleton_self _⟩
  · intro herror
    obtain ⟨g, hg, hdispatch⟩ := mem_events.1 herror
    rcases dispatch_cases hdispatch with ⟨_, _, _, heq⟩ | ⟨_, _, _, heq⟩ | ⟨_, _, _, _, heq⟩ |
      ⟨rfl, _⟩
    · cases heq
    · cases heq
    · cases heq
    · cases final_unique hf hg rfl rfl

theorem accept_notMem_toActions (fd : ℤ) (events : List WsEvent) :
    .accept fd ∉ events.flatMap (toActions callbacks) := by
  intro hmem
  obtain ⟨event, _, hmem⟩ := List.mem_flatMap.1 hmem
  cases event with
  | onMessage fd' msg =>
      rw [toActions] at hmem
      split at hmem
      · cases List.mem_singleton.1 hmem
      · cases hmem
  | write fd' bytes => cases List.mem_singleton.1 hmem
  | close fd' => cases List.mem_singleton.1 hmem
  | lengthError => cases List.mem_singleton.1 hmem

/-- Parsing keeps the descriptor of the connection. -/
theorem fd_readBytes (bytes : List UInt8) : (readBytes conn bytes).conn.fd = conn.fd := by
  rw [readBytes, parse_eq_drain]

/-- A read of frames uses open descriptors exactly if no Close frame comes. -/
theorem useOk_frames (htracks : Tracks s.conns s.opened)
    (hplaced : Placed s.opened (.reading fd batch)) (hlookup : s.conns.lookup fd = some conn)
    (bytes : List UInt8) :
    UseOk s.opened (handleFrames callbacks s fd batch conn bytes) (¬Closes conn bytes) := by
  have hfd := hplaced.1
  have hown := htracks.own fd conn hlookup
  by_cases hclose : Closes conn bytes
  · obtain ⟨hmem, herror⟩ := closes_events hclose
    refine ⟨iff_of_false ?_ (not_not.2 hclose), (absurd hclose ·), (absurd hclose ·)⟩
    intro huses
    rw [handleFrames, if_neg herror] at huses
    -- the parser leaves the descriptor closed, and it is read again
    have hclosed : fd ∉ run openedStep s.opened
        ((readBytes conn bytes).events.flatMap (toActions callbacks)) := by
      apply not_mem_run (accept_notMem_toActions callbacks fd _)
      rw [← hown]
      exact Or.inr (List.mem_flatMap.2 ⟨_, hmem, List.mem_singleton_self _⟩)
    obtain ⟨_, hread, _⟩ := ((along_append _ _ _).1 huses).2
    exact hclosed hread
  · have hplain := plain_events callbacks (hown ▸ hfd : conn.fd ∈ s.opened) hclose
    have hreplace : Tracks (s.conns.insert fd (readBytes conn bytes).conn) s.opened :=
      htracks.replace hfd ((fd_readBytes bytes).trans hown)
    rw [handleFrames]
    split
    · -- the exception ends the thread with the connection still open
      refine UseOk.of_true (useOk_plain ?_ hreplace ?_) hclose
      · exact plain_lock hplain
      · exact trivial
    · refine UseOk.of_true (useOk_plain ?_ hreplace hplaced) hclose
      intro a ha
      rcases List.mem_append.1 ha with ha | ha
      · exact plain_lock hplain a ha
      · rcases List.mem_cons.1 ha with rfl | ha
        · exact ⟨rfl, trivial⟩
        · obtain rfl := List.mem_singleton.1 ha
          exact ⟨rfl, hfd⟩

theorem useOk_handleRead (h : Inv s) (hcontrol : s.control = .reading fd batch)
    (result : ReadResult) :
    UseOk s.opened (handleRead sha1Base64 callbacks s fd batch result)
      (NoClose s (.read result)) := by
  have htracks := h.tracks
  have hplaced : Placed s.opened (.reading fd batch) := hcontrol ▸ h.placed
  cases result with
  | wouldBlock => exact useOk_plain (List.forall_mem_nil _) htracks hplaced.2.2
  | error => exact UseOk.of_true (useOk_disconnect callbacks htracks hplaced) trivial
  | endOfStream => exact UseOk.of_true (useOk_disconnect callbacks htracks hplaced) trivial
  | data bytes sent =>
      obtain ⟨conn, hlookup⟩ := Finmap.mem_iff.1 ((htracks.mem_iff fd).1 hplaced.1)
      -- the condition speaks of this connection, the one that is read
      have hnoClose : NoClose s (.read (.data bytes sent)) ↔
          (conn.handshakeDone = true → ¬Closes conn bytes) :=
        forall_reading_iff hcontrol hlookup fun conn =>
          conn.handshakeDone = true → ¬Closes conn bytes
      simp only [handleRead, hlookup]
      cases hdone : conn.handshakeDone with
      | true =>
          rw [hdone, forall_prop_of_true rfl] at hnoClose
          exact (useOk_frames callbacks htracks hplaced hlookup bytes).congr hnoClose.symm
      | false =>
          rw [hdone] at hnoClose
          -- a request may drop the connection, but closes its descriptor once
          exact (useOk_request sha1Base64 callbacks htracks hplaced hlookup bytes sent).of_true
            (hnoClose.2 fun hfalse => absurd hfalse Bool.false_ne_true)

end Reading

/-- Writes to open descriptors, under the lock. -/
theorem plain_writes {writes : List LoopAction}
    (h : ∀ a ∈ writes, ∃ fd bytes, a = .write fd bytes ∧ fd ∈ opened) :
    ∀ a ∈ .lock :: writes ++ [.unlock], Plain opened a := by
  have hplain : ∀ a ∈ writes, Plain opened a := by
    intro a ha
    obtain ⟨fd, bytes, rfl, hfd⟩ := h a ha
    exact ⟨rfl, hfd⟩
  intro a ha
  rcases List.mem_append.1 ha with ha | ha
  · exact plain_lock hplain a ha
  · obtain rfl := List.mem_singleton.1 ha
    exact ⟨rfl, trivial⟩

theorem useOk_accept {s : Server} (h : Inv s) {batch : List Source}
    (hcontrol : s.control = .accepting batch) {fd : ℤ} (hfd : fd ∉ s.opened) :
    UseOk s.opened
      { conns := s.conns.insert fd { fd := fd }
        control := .accepting batch
        actions := [.accept fd, .setNonblocking fd, .epollAdd fd, .lock, .unlock] } True where
  uses := by simp [Uses, openedStep, hfd]
  tracks _ := h.tracks.insert rfl
  placed _ := by
    have hplaced : Reported s.opened batch := by simpa only [hcontrol, Placed] using h.placed
    exact hplaced.insert fd

theorem useOk_stop {s : Server} (h : Inv s) (it : Iteration s.conns) :
    UseOk s.opened
      { conns := ∅
        control := .ended
        actions := .lock :: it.visits.map (fun entry => .close entry.1) ++ [.unlock] } True := by
  have hmap : it.visits.map (fun entry => LoopAction.close entry.1) =
      (it.visits.map Sigma.fst).map .close := List.map_map.symm
  have hrun : run openedStep s.opened
      (.lock :: it.visits.map (fun entry => .close entry.1) ++ [.unlock]) = ∅ := by
    rw [run_append, run_cons, hmap]
    exact run_map_close fun fd hfd => (h.tracks.visits it fd).1 hfd
  refine ⟨iff_of_true ?_ trivial, fun _ => ?_, fun _ => hrun⟩
  · rw [along_append, along_cons, hmap]
    refine ⟨⟨trivial, uses_map_close it.nodupKeys ?_⟩, by simp [Uses]⟩
    exact fun fd hfd => (h.tracks.visits it fd).2 hfd
  · rw [hrun]
    exact inv_start.tracks

variable (sha1Base64 order callbacks)

/-- An event that is no read completes no Close frame. -/
theorem noClose_of_not_reading {s : Server} {e : Event}
    (h : ∀ fd batch result, s.control = .reading fd batch → e ≠ .read result) : NoClose s e := by
  cases e with
  | read result =>
      cases result with
      | data bytes sent =>
          intro fd batch conn hcontrol
          exact absurd rfl (h fd batch _ hcontrol)
      | _ => trivial
  | _ => trivial

/-- What the loop does with an event it handles. -/
theorem useOk_of_handles {s : Server} (hinv : Inv s) {e : Event} {r : Reaction}
    (h : Handles sha1Base64 order callbacks s e r) : UseOk s.opened r (NoClose s e) := by
  have htracks := hinv.tracks
  have hplaced := hinv.placed
  cases h with
  | ignored hnot =>
      exact (useOk_plain (List.forall_mem_nil _) htracks hplaced).of_true
        (noClose_of_not_reading hnot)
  | wait hcontrol hnodup hopen =>
      exact useOk_plain (List.forall_mem_nil _) htracks ⟨hnodup, hopen⟩
  | server hcontrol =>
      rw [hcontrol] at hplaced
      refine useOk_plain (List.forall_mem_nil _) htracks ?_
      -- the descriptors of the batch are those behind the first one
      exact ⟨(List.nodup_cons.1 hplaced.1).2, (List.forall_mem_cons.1 hplaced.2).2⟩
  | client hcontrol =>
      rw [hcontrol] at hplaced
      obtain ⟨hnot, hnodup⟩ := List.nodup_cons.1 hplaced.1
      obtain ⟨hopen, hrest⟩ := List.forall_mem_cons.1 hplaced.2
      have hfd := of_decide_eq_true hopen
      refine useOk_plain ?_ htracks ⟨hfd, hnot, hnodup, hrest⟩
      exact List.forall_mem_singleton.2 ⟨rfl, hfd⟩
  | noClient hcontrol =>
      rw [hcontrol] at hplaced
      exact useOk_plain (List.forall_mem_nil _) htracks hplaced
  | newClient hcontrol hfd => exact useOk_accept hinv hcontrol hfd
  | read result hcontrol => exact useOk_handleRead sha1Base64 callbacks hinv hcontrol result
  | stop hcontrol => exact useOk_stop hinv (order s.conns)
  | send connId frame hcontrol =>
      refine useOk_plain (plain_writes ?_) htracks hplaced
      -- `send` looks the connection up, so its descriptor is open
      intro a ha
      split at ha
      · rename_i hmem
        exact ⟨connId, frame, List.mem_singleton.1 ha, (htracks.mem_iff connId).2 hmem⟩
      · cases ha
  | broadcast frame hcontrol =>
      refine useOk_plain (plain_writes ?_) htracks hplaced
      intro a ha
      -- `broadcast` visits the connections of the map
      obtain ⟨entry, hentry, rfl⟩ := List.mem_map.1 ha
      have hvisit := (List.mem_filter.1 hentry).1
      exact ⟨entry.1, frame, rfl,
        (htracks.visits (order s.conns) entry.1).2 (List.mem_map_of_mem hvisit)⟩

theorem useOk_react {s : Server} (h : Inv s) (e : Event) :
    UseOk s.opened (react sha1Base64 order callbacks s e) (NoClose s e) :=
  useOk_of_handles sha1Base64 order callbacks h (handles_react sha1Base64 order callbacks s e)

/-! ## Whole runs -/

/-- The kernel's open descriptors are those of the state. -/
def Agrees (s : Server) (opened : Finset ℤ) : Prop := s.opened = opened ∧ Inv s

/-- An event uses open descriptors only, exactly if it completes no Close frame. -/
theorem uses_actions_iff {s : Server} (h : Agrees s opened) (e : Event) :
    Along openedStep Uses opened (actions sha1Base64 order callbacks s e) ↔ NoClose s e := by
  obtain ⟨rfl, hinv⟩ := h
  exact (useOk_react sha1Base64 order callbacks hinv e).uses

/-- The table and the kernel still agree after such an event. -/
theorem agrees_step {s : Server} (h : Agrees s opened) {e : Event} (hno : NoClose s e) :
    Agrees (step sha1Base64 order callbacks s e)
      (run openedStep opened (actions sha1Base64 order callbacks s e)) := by
  obtain ⟨rfl, hinv⟩ := h
  have hok := useOk_react sha1Base64 order callbacks hinv e
  exact ⟨rfl, hok.tracks hno, hok.placed hno⟩

/-- In a run of the server each descriptor is used while it is open only, so that it is closed
once, and all are closed when the loop has ended, exactly when no read completes a Close frame on a
connection whose handshake is done. -/
theorem closed_once_iff (sha1Base64 : List UInt8 → List UInt8) (order : IterOrder ℤ WsConnection)
    (callbacks : Callbacks) (events : List Event) :
    ClosedOnce
        (trace (step sha1Base64 order callbacks) (actions sha1Base64 order callbacks) {} events)
        (run (step sha1Base64 order callbacks) {} events).control ↔
      Along (step sha1Base64 order callbacks) NoClose {} events := by
  -- the open descriptors of the server are those that the actions have left open
  have hstart : Agrees {} ∅ := ⟨rfl, inv_start⟩
  have hout : ∀ s opened e, Agrees s opened →
      (Along openedStep Uses opened (actions sha1Base64 order callbacks s e) ↔ NoClose s e) :=
    fun _ _ e h => uses_actions_iff sha1Base64 order callbacks h e
  have hstep : ∀ s opened e, Agrees s opened → NoClose s e →
      Agrees (step sha1Base64 order callbacks s e)
        (run openedStep opened (actions sha1Base64 order callbacks s e)) :=
    fun _ _ _ h hno => agrees_step sha1Base64 order callbacks h hno
  have hiff := along_trace_iff hout hstep hstart events
  constructor
  · intro h
    exact hiff.1 h.uses
  · intro hno
    obtain ⟨hopened, hinv⟩ := rel_run_trace hstep hstart hno
    refine ⟨hiff.2 hno, fun hended => ?_⟩
    -- at the end nothing is open
    have hplaced := hinv.placed
    rw [hended] at hplaced
    rw [← hopened]
    exact hplaced

/-- The first client is answered and sends an empty Close frame: its descriptor is closed, read
again, passed to `epoll_ctl` and closed a second time. -/
theorem closed_twice :
    ¬ClosedOnce
      (trace (step firstHash someVisits ⟨true, true, true⟩)
        (actions firstHash someVisits ⟨true, true, true⟩) {}
        (firstEvents ++ [.read (.data [0x88, 0x00] true), .read .error]))
      (run (step firstHash someVisits ⟨true, true, true⟩) {}
        (firstEvents ++ [.read (.data [0x88, 0x00] true), .read .error])).control := by
  intro honce
  exact absurd honce.uses (by decide +kernel)

end CppMeet.Signaling.Descriptors
