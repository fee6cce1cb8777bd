import CppMeet.Lib.Run

/-!
# Stopping the io thread

The io thread of the SFU server executes `IoContext::run` step by step, while another thread calls
`SfuServer::stop`, which stores `running_ = false`, writes the event descriptor and joins the io
thread. `drained` records that the wake-up has been read; the source does not keep it.

`run` stores `running_ = true` when it is entered. A stop request that comes earlier is overwritten
and lost (`stop_request_lost`); when every request comes later, none is (`stop_request_heard`).
-/

set_option autoImplicit false

namespace CppMeet.Net.IoContext

open CppMeet.Lib.Run

/-- The two descriptors the SFU server registers. -/
inductive Fd where
  | event
  | udp
  deriving DecidableEq, Repr

/-- Where the io thread stands. -/
inductive IoPc where
  /-- No thread was started. -/
  | absent
  /-- About to store `running_ = true`. -/
  | entry
  /-- About to load `running_`. -/
  | check
  /-- In `epoll_wait`. -/
  | waiting
  /-- In the loop over the events that are left. -/
  | dispatch (events : List Fd)
  | returned
  deriving DecidableEq, Repr

/-- Where the thread that stops the server stands. -/
inductive StopPc where
  | idle
  /-- `running_ = false` is stored and the event descriptor not yet written. -/
  | stored
  /-- Joining the io thread. -/
  | written
  deriving DecidableEq, Repr

/-- The flag, the event descriptor, and where the two threads stand. -/
structure State where
  running : Bool := false
  /-- The counter of the event descriptor. -/
  eventCount : ℕ := 0
  io : IoPc
  stop : StopPc := .idle
  drained : Bool := false
  deriving DecidableEq, Repr

/-- What `epoll_wait` comes back with: `EINTR`, another error, or the descriptors that are ready.
Registration is level-triggered, so the event descriptor is among them when its counter is not 0. -/
inductive WaitResult where
  | interrupted
  | failed
  | ready (udp eventFirst : Bool)

/-- The thread that takes the next step; a wait returns with some descriptors. -/
inductive Event where
  | io (result : WaitResult)
  | stop

/-- `start`: without a bound port no thread is started. -/
def start (bound : Bool) : State where
  io := if bound then .entry else .absent

/-- The descriptors that a wait finds readable, in either order. -/
def readyFds (s : State) (udp eventFirst : Bool) : List Fd :=
  let event := if 0 < s.eventCount then [Fd.event] else []
  let udp := if udp then [Fd.udp] else []
  if eventFirst then event ++ udp else udp ++ event

/-- The next step of `run`. -/
def ioStep (s : State) (result : WaitResult) : State :=
  match s.io with
  | .absent => s
  | .entry => { s with running := true, io := .check }
  -- the condition of the loop
  | .check => { s with io := if s.running then .waiting else .returned }
  | .waiting =>
      match result with
      | .interrupted => { s with io := .check }
      | .failed => { s with io := .returned }
      | .ready udp eventFirst => { s with io := .dispatch (readyFds s udp eventFirst) }
  | .dispatch [] => { s with io := .check }
  | .dispatch (.event :: events) =>
      -- the read resets the counter
      { s with eventCount := 0, drained := s.drained || 0 < s.eventCount, io := .dispatch events }
  | .dispatch (.udp :: events) =>
      -- the callback of the socket touches none of these variables
      { s with io := .dispatch events }
  | .returned => s

/-- The next step of `stop`, a new call of it when none is going on. -/
def stopStep (s : State) : State :=
  match s.stop with
  | .idle => { s with running := false, stop := .stored }
  | .stored => { s with eventCount := s.eventCount + 1, stop := .written }
  | .written => if s.io = .returned ∨ s.io = .absent then { s with stop := .idle } else s

/-- The step of one of the threads. -/
def step (s : State) : Event → State
  | .io result => ioStep s result
  | .stop => stopStep s

/-- After the wake-up has been read, the io thread is on its way out and does not wait again. -/
def Heard (s : State) : Prop := s.drained = true → s.running = false ∧ s.io ≠ .waiting

instance (s : State) : Decidable (Heard s) := inferInstanceAs (Decidable (_ → _))

/-- `stop` does not store `running_ = false` before `run` has stored `running_ = true`. -/
def Ordered (s : State) : Event → Prop
  | .io _ => True
  | .stop => s.stop = .idle → s.io ≠ .entry

instance (s : State) : (e : Event) → Decidable (Ordered s e)
  | .io _ => inferInstanceAs (Decidable True)
  | .stop => inferInstanceAs (Decidable (_ → _))

/-- The steps of a stop request that arrives before the io thread has entered `run`, and of the io
thread up to its second wait. -/
def earlyStop : List Event :=
  [.stop, .stop, .io .interrupted, .io .interrupted, .io (.ready false true), .io .interrupted,
    .io .interrupted, .io .interrupted]

/-- The thread that stops the server joins a thread that has read the wake-up and waits again. -/
theorem stop_request_lost :
    let s := run step (start true) earlyStop
    s.stop = .written ∧ s.running = true ∧ s.drained = true ∧ s.io = .waiting ∧ ¬Heard s := by
  decide

/-! ## Requests that come after the entry -/

/-- From the first store of a stop request on, `running_` stays false, and what belongs to the
wake-up is only there after such a store. -/
structure Inv (s : State) : Prop where
  entry : s.io = .entry → s.stop = .idle ∧ s.eventCount = 0 ∧ s.drained = false
  stored : s.stop ≠ .idle ∨ 0 < s.eventCount ∨ s.drained = true → s.running = false
  pending : ∀ events, s.io = .dispatch events → Fd.event ∈ events → s.running = false
  waiting : s.io = .waiting → s.drained = false

theorem inv_start (bound : Bool) : Inv (start bound) where
  entry _ := ⟨rfl, rfl, rfl⟩
  stored _ := rfl
  pending _ _ _ := rfl
  waiting _ := rfl

/-- The loop finds the event descriptor only after `stop` has cleared the flag. -/
theorem running_of_event {s : State} (h : Inv s) {udp eventFirst : Bool}
    (hmem : Fd.event ∈ readyFds s udp eventFirst) : s.running = false := by
  -- a descriptor with counter 0 is not reported
  have hcount : 0 < s.eventCount := by
    by_contra hzero
    rw [readyFds, if_neg hzero] at hmem
    cases udp <;> cases eventFirst <;> simp at hmem
  exact h.stored (Or.inr (Or.inl hcount))

/-- A loop that goes on has read no wake-up. -/
theorem drained_of_running {s : State} (h : Inv s) (hrunning : s.running = true) :
    s.drained = false := by
  by_contra hdrained
  have hstopped := h.stored (Or.inr (Or.inr (Bool.of_not_eq_false hdrained)))
  rw [hrunning] at hstopped
  cases hstopped

/-- A state of the io thread that is neither at the entry nor in `epoll_wait`. -/
theorem inv_goto {s : State} (h : Inv s) (pc : IoPc) (hentry : pc ≠ .entry)
    (hwaiting : pc = .waiting → s.drained = false)
    (hpending : ∀ events, pc = .dispatch events → Fd.event ∈ events → s.running = false) :
    Inv { s with io := pc } where
  entry hpc := absurd hpc hentry
  stored := h.stored
  pending := hpending
  waiting := hwaiting

/-- The io thread leaves the loop or looks at its condition again. -/
theorem inv_leave {s : State} (h : Inv s) {pc : IoPc} (hpc : pc = .check ∨ pc = .returned) :
    Inv { s with io := pc } := by
  rcases hpc with rfl | rfl
  · exact inv_goto h .check (by decide) IoPc.noConfusion fun _ => IoPc.noConfusion
  · exact inv_goto h .returned (by decide) IoPc.noConfusion fun _ => IoPc.noConfusion

/-- A descriptor is dispatched, and the others are left. -/
theorem inv_dispatch {s : State} (h : Inv s) {fd : Fd} {events : List Fd}
    (hpc : s.io = .dispatch (fd :: events)) (result : WaitResult) : Inv (ioStep s result) := by
  have hrest : ∀ events', IoPc.dispatch events = .dispatch events' → Fd.event ∈ events' →
      s.running = false := by
    intro events' heq hmem
    cases heq
    exact h.pending _ hpc (List.mem_cons_of_mem _ hmem)
  cases fd with
  | udp =>
      simp only [ioStep, hpc]
      exact inv_goto h _ IoPc.noConfusion IoPc.noConfusion hrest
  | event =>
      simp only [ioStep, hpc]
      have hstopped := h.pending _ hpc List.mem_cons_self
      exact ⟨IoPc.noConfusion, fun _ => hstopped, hrest, IoPc.noConfusion⟩

/-- A step of the loop keeps the invariant. -/
theorem inv_ioStep {s : State} (h : Inv s) (result : WaitResult) : Inv (ioStep s result) := by
  cases hpc : s.io with
  | absent =>
      simp only [ioStep, hpc]
      exact h
  | returned =>
      simp only [ioStep, hpc]
      exact h
  | entry =>
      simp only [ioStep, hpc]
      -- no request has come yet, so the store overwrites none
      obtain ⟨hstop, hcount, hdrained⟩ := h.entry hpc
      refine ⟨IoPc.noConfusion, ?_, fun _ => IoPc.noConfusion, IoPc.noConfusion⟩
      rintro (hne | hpos | hread)
      · exact absurd hstop hne
      · exact absurd hcount (Nat.ne_of_gt hpos)
      · rw [hdrained] at hread
        cases hread
  | check =>
      simp only [ioStep, hpc]
      split
      · rename_i hrunning
        apply inv_goto h .waiting (by decide)
        · exact fun _ => drained_of_running h hrunning
        · exact fun _ => IoPc.noConfusion
      · exact inv_leave h (Or.inr rfl)
  | waiting =>
      cases result with
      | interrupted =>
          simp only [ioStep, hpc]
          exact inv_leave h (Or.inl rfl)
      | failed =>
          simp only [ioStep, hpc]
          exact inv_leave h (Or.inr rfl)
      | ready udp eventFirst =>
          simp only [ioStep, hpc]
          apply inv_goto h _ IoPc.noConfusion IoPc.noConfusion
          intro events hdispatch hmem
          cases hdispatch
          exact running_of_event h hmem
  | dispatch events =>
      cases events with
      | nil =>
          simp only [ioStep, hpc]
          exact inv_leave h (Or.inl rfl)
      | cons fd events => exact inv_dispatch h hpc result

/-- A step of `stop` keeps it, if the loop has set the flag before `stop` begins. -/
theorem inv_stopStep {s : State} (h : Inv s) (hordered : s.stop = .idle → s.io ≠ .entry) :
    Inv (stopStep s) := by
  cases hpc : s.stop with
  | idle =>
      simp only [stopStep, hpc]
      exact ⟨fun hio => absurd hio (hordered hpc), fun _ => rfl, fun _ _ _ => rfl, h.waiting⟩
  | stored =>
      simp only [stopStep, hpc]
      have hstopped := h.stored (Or.inl (by rw [hpc]; decide))
      refine ⟨fun hio => ?_, fun _ => hstopped, h.pending, h.waiting⟩
      -- no request is going on while the io thread is at the entry
      have hidle := (h.entry hio).1
      rw [hpc] at hidle
      cases hidle
  | written =>
      simp only [stopStep, hpc]
      have hstopped := h.stored (Or.inl (by rw [hpc]; decide))
      split
      · refine ⟨fun hio => ?_, fun _ => hstopped, h.pending, h.waiting⟩
        exact ⟨rfl, (h.entry hio).2⟩
      · exact h

/-- A loop that has returned has heard the request. -/
theorem heard_of_inv {s : State} (h : Inv s) : Heard s := by
  intro hdrained
  refine ⟨h.stored (Or.inr (Or.inr hdrained)), ?_⟩
  intro hwaiting
  rw [h.waiting hwaiting] at hdrained
  cases hdrained

/-- In a run in which no request precedes the entry into `run`, the io thread does not wait again
after it has read the wake-up. Every state reached is the last one of such a run. -/
theorem stop_request_heard (bound : Bool) (events : List Event)
    (hordered : Along step Ordered (start bound) events) :
    Heard (run step (start bound) events) := by
  apply heard_of_inv
  refine inv_run ?_ (inv_start bound) hordered
  intro s e h hstep
  cases e with
  | io result => exact inv_ioStep h result
  | stop => exact inv_stopStep h hstep

/-- A request that comes during the first wait: the wake-up is read and the thread is joined. -/
theorem stop_request_heard_waiting :
    Heard (run step (start true) [.io .interrupted, .io .interrupted, .stop, .stop,
      .io (.ready true false), .io .interrupted, .io .interrupted, .io .interrupted,
      .io .interrupted, .stop]) :=
  stop_request_heard true _ (by decide)

/-- A request that comes before the entry can always be lost: the io thread overwrites it and then
reads its wake-up. -/
theorem exists_lost_of_entry (s : State) (hio : s.io = .entry) (hstop : s.stop = .idle) :
    ∃ events, ¬Heard (run step s (.stop :: events)) := by
  refine ⟨[.stop, .io .interrupted, .io .interrupted, .io (.ready false true), .io .interrupted,
    .io .interrupted, .io .interrupted], ?_⟩
  obtain ⟨running, count, io, stop, drained⟩ := s
  subst hio hstop
  simp [step, stopStep, ioStep, readyFds, Heard]

end CppMeet.Net.IoContext
