import CppMeet.Lib.Run

/-!
# The media pipeline of the client

`MediaPipeline` runs a worker thread between `start` and `stop`. The thread that owns the object
calls these and finally destroys it, and every load and store of `running_`, the creation of the
thread, the join and every frame is a step of its own, so that the two threads are interleaved in
any way. Creating the thread may fail; assigning a thread object that still stands for a running
thread would end the program.

`pipeline_run`: that never happens; after `stop` and after the destructor there is no worker; since
the store in `stop` at most one more frame is emitted, so `stop` returns after two steps of the
worker at most; and each worker emits the test frames from number 0 on, without a gap.
-/

set_option autoImplicit false

namespace CppMeet.Client.Pipeline

open CppMeet.Lib.Run

/-! ## The two threads -/

/-- What `frameReady` is emitted with. -/
structure Frame where
  width : ℕ
  height : ℕ
  y : List UInt8
  u : List UInt8
  v : List UInt8

/-- The picture that the worker makes up: a luma ramp that moves with the frame index, and neutral
chroma. -/
def testFrame (frameIdx : ℕ) : Frame where
  width := 320
  height := 240
  y := (List.range (320 * 240)).map fun i => UInt8.ofNat ((frameIdx * 4 + i) &&& 0xFF)
  u := List.replicate (320 / 2 * 240 / 2) 128
  v := List.replicate (320 / 2 * 240 / 2) 128

/-- Where the worker stands in `run`, with its `frame_idx`. -/
inductive Worker where
  /-- About to load `running_`. -/
  | check (frameIdx : ℕ)
  | emitting (frameIdx : ℕ)
  | returned
  deriving DecidableEq

/-- Where the thread stands that owns the pipeline. -/
inductive Owner where
  | idle
  /-- In `start`, about to create the thread. -/
  | launching
  /-- In `stop`, before the join; `last` if the destructor has called it. -/
  | joining (last : Bool)
  | destroyed
  deriving DecidableEq

/-- The flag and the thread of the pipeline, and how far its owner has got. -/
structure State where
  running : Bool := false
  /-- The thread that `worker_` stands for. -/
  worker : Option Worker := none
  owner : Owner := .idle
  /-- `std::terminate` has been called. -/
  terminated : Bool := false

/-- The calls of the owner, and the next step of the owner or of the worker. -/
inductive Event where
  | start
  | stop
  | destroy
  /-- The owner goes on; `created` tells whether a thread can be created. -/
  | owner (created : Bool)
  | worker

/-- `start` up to the creation of the thread. -/
def startStep (s : State) : State :=
  if s.owner ≠ .idle ∨ s.running then s else { s with running := true, owner := .launching }

/-- `stop` up to the join. -/
def stopStep (s : State) (last : Bool) : State :=
  if s.owner ≠ .idle then s else { s with running := false, owner := .joining last }

/-- The next step of a call of the owner: `start` creates the thread, `stop` and the destructor join
it. -/
def ownerStep (s : State) (created : Bool) : State :=
  match s.owner with
  | .launching =>
      -- the constructor of the thread throws, and `running_` stays set
      if !created then { s with owner := .idle }
      -- a thread that can be joined is overwritten, which ends the program
      else if s.worker.isSome then { s with terminated := true }
      else { s with worker := some (.check 0), owner := .idle }
  | .joining last =>
      let next := if last then .destroyed else .idle
      match s.worker with
      | none => { s with owner := next }
      | some .returned => { s with worker := none, owner := next }
      -- `join` waits
      | some _ => s
  | _ => s

/-- The next step of the worker: it checks the flag, and then hands out a frame. -/
def workerStep (s : State) : State :=
  match s.worker with
  | some (.check frameIdx) =>
      { s with worker := some (if s.running then .emitting frameIdx else .returned) }
  | some (.emitting frameIdx) => { s with worker := some (.check (frameIdx + 1)) }
  | _ => s

/-- Nothing happens after `std::terminate`. -/
def step (s : State) (e : Event) : State :=
  if s.terminated then s
  else
    match e with
    | .start => startStep s
    | .stop => stopStep s false
    | .destroy => stopStep s true
    | .owner created => ownerStep s created
    | .worker => workerStep s

/-- The frames that a step emits. -/
def frames (s : State) : Event → List Frame
  | .worker =>
      match s.terminated, s.worker with
      | false, some (.emitting frameIdx) => [testFrame frameIdx]
      | _, _ => []
  | _ => []

/-! ## What is observed -/

/-- A run, with the frames of the last worker, and those emitted since `running_` was set to
false. -/
structure Watch where
  state : State := {}
  session : List Frame := []
  late : List Frame := []

/-- A new worker is created. -/
def launches (s : State) (e : Event) : Bool := s.worker.isNone && (step s e).worker.isSome

/-- `running_` is set to false. -/
def stops (s : State) : Event → Bool
  | .stop => s.owner = .idle
  | .destroy => s.owner = .idle
  | _ => false

/-- The step of the pipeline, and what it adds to the two lists; a new thread starts a new
session. -/
def Watch.step (w : Watch) (e : Event) : Watch where
  state := Pipeline.step w.state e
  session := if launches w.state e then [] else w.session ++ frames w.state e
  late := if stops w.state e then [] else
    w.late ++ if w.state.running then [] else frames w.state e

/-- How many frames the worker has emitted, if it has not returned. -/
def Worker.emitted : Worker → Option ℕ
  | .check frameIdx => some frameIdx
  | .emitting frameIdx => some frameIdx
  | .returned => none

/-- The invariant of the runs. -/
structure Inv (w : Watch) : Prop where
  terminated : w.state.terminated = false
  stopped : w.state.owner = .idle ∧ w.state.running = false ∨ w.state.owner = .destroyed →
    w.state.worker = none
  launching : w.state.owner = .launching → w.state.worker = none ∧ w.state.running = true
  joining : ∀ last, w.state.owner = .joining last → w.state.running = false
  session : ∃ n, w.session = (List.range n).map testFrame ∧
    ∀ worker ∈ w.state.worker, ∀ m ∈ worker.emitted, m = n
  late : w.late.length ≤ 1 ∧
    ∀ n, w.state.worker = some (.emitting n) → w.state.running = false → w.late = []

/-! ## One step -/

section Steps

variable {w : Watch}

theorem inv_start : Inv {} where
  terminated := rfl
  stopped _ := rfl
  launching h := by cases h
  joining _ h := by cases h
  session := ⟨0, rfl, fun _ h => by cases h⟩
  late := ⟨Nat.zero_le 1, fun _ h => by cases h⟩

/-- The invariant excludes `std::terminate`, so every event has its effect. -/
theorem step_eq (h : Inv w) (e : Event) :
    step w.state e =
      match e with
      | .start => startStep w.state
      | .stop => stopStep w.state false
      | .destroy => stopStep w.state true
      | .owner created => ownerStep w.state created
      | .worker => workerStep w.state := by
  unfold step
  rw [h.terminated, if_neg Bool.false_ne_true]

/-- A step that emits nothing and creates no worker. -/
theorem inv_quiet (h : Inv w) {e : Event} {state : State} (hstep : step w.state e = state)
    (hframes : frames w.state e = []) (hterminated : state.terminated = false)
    (hstopped : state.owner = .idle ∧ state.running = false ∨ state.owner = .destroyed →
      state.worker = none)
    (hlaunching : state.owner = .launching → state.worker = none ∧ state.running = true)
    (hjoining : ∀ last, state.owner = .joining last → state.running = false)
    (hworker : ∀ v ∈ state.worker, ∃ v' ∈ w.state.worker, ∀ m ∈ v.emitted, m ∈ v'.emitted)
    (hlate : ∀ n, state.worker = some (.emitting n) → state.running = false →
      stops w.state e = true ∨ w.late = []) : Inv (w.step e) := by
  -- a worker after the step was there before it, so none was created
  have hlaunches : launches w.state e = false := by
    rw [launches, hstep]
    cases hv : state.worker with
    | none => rw [Option.isSome_none, Bool.and_false]
    | some v =>
        obtain ⟨v', hv', -⟩ := hworker v hv
        rw [Option.mem_def.1 hv']
        rfl
  have hwatch : w.step e =
      { state := state
        session := w.session
        late := if stops w.state e then [] else w.late } := by
    rw [Watch.step, hstep, hlaunches, hframes, ite_self, List.append_nil, List.append_nil]
    rfl
  rw [hwatch]
  refine ⟨hterminated, hstopped, hlaunching, hjoining, ?_, ?_, fun n hv hrunning => ?_⟩
  · -- the session goes on as it was
    obtain ⟨n, hsession, hframe⟩ := h.session
    refine ⟨n, hsession, fun v hv m hm => ?_⟩
    obtain ⟨v', hv', hsame⟩ := hworker v hv
    exact hframe v' hv' m (hsame m hm)
  · dsimp only
    split
    · exact Nat.zero_le 1
    · exact h.late.1
  · -- a worker that emits although the flag is cleared has its late frame still to come
    rcases hlate n hv hrunning with hstops | hnone
    · rw [hstops]
      rfl
    · rw [hnone, ite_self]

theorem inv_same (h : Inv w) {e : Event} (hstep : step w.state e = w.state)
    (hframes : frames w.state e = []) : Inv (w.step e) :=
  inv_quiet h hstep hframes h.terminated h.stopped h.launching h.joining
    (fun v hv => ⟨v, hv, fun _ hm => hm⟩) fun n hv hrunning => Or.inr (h.late.2 n hv hrunning)

/-- `start` sets the flag, and stops before the thread is created. -/
theorem inv_stepStart (h : Inv w) : Inv (w.step .start) := by
  have hstep := step_eq h .start
  dsimp only at hstep
  rw [startStep] at hstep
  split at hstep
  · exact inv_same h hstep rfl
  · rename_i hguard
    obtain ⟨howner, hrunning⟩ := not_or.1 hguard
    have hnone := h.stopped (Or.inl ⟨not_not.1 howner, eq_false_of_ne_true hrunning⟩)
    apply inv_quiet h hstep rfl h.terminated
    · rintro (⟨hidle, -⟩ | hgone)
      · cases hidle
      · cases hgone
    · exact fun _ => ⟨hnone, rfl⟩
    · exact fun _ hjoining => by cases hjoining
    · exact fun v hv => ⟨v, hv, fun _ hm => hm⟩
    · exact fun _ _ hfalse => by cases hfalse

/-- `stop`, called by the program or by the destructor. -/
theorem inv_stepStop (h : Inv w) {e : Event} {last : Bool}
    (he : e = .stop ∧ last = false ∨ e = .destroy ∧ last = true) : Inv (w.step e) := by
  have hstep : step w.state e = stopStep w.state last ∧
      stops w.state e = decide (w.state.owner = .idle) ∧ frames w.state e = [] := by
    rcases he with ⟨rfl, rfl⟩ | ⟨rfl, rfl⟩
    · exact ⟨step_eq h .stop, rfl, rfl⟩
    · exact ⟨step_eq h .destroy, rfl, rfl⟩
  obtain ⟨hstep, hstops, hframes⟩ := hstep
  rw [stopStep] at hstep
  split at hstep
  · exact inv_same h hstep hframes
  · rename_i howner
    apply inv_quiet h hstep hframes h.terminated
    · rintro (⟨hidle, -⟩ | hgone)
      · cases hidle
      · cases hgone
    · exact fun hlaunching => by cases hlaunching
    · exact fun _ _ => rfl
    · exact fun v hv => ⟨v, hv, fun _ hm => hm⟩
    · exact fun _ _ _ => Or.inl (hstops.trans (decide_eq_true (not_not.1 howner)))

/-- The thread is created. -/
theorem inv_launch (h : Inv w) (howner : w.state.owner = .launching) :
    Inv (w.step (.owner true)) := by
  obtain ⟨hnone, hrunning⟩ := h.launching howner
  have hstep : step w.state (.owner true) =
      { w.state with worker := some (.check 0), owner := .idle } := by
    rw [step_eq h]
    simp only [ownerStep, howner, hnone, Bool.not_true, Bool.false_eq_true, Option.isSome_none,
      if_false]
  -- the watch starts a new session with the new worker
  have hwatch : w.step (.owner true) =
      { state := { w.state with worker := some (.check 0), owner := .idle }
        session := []
        late := w.late } := by
    have hlaunches : launches w.state (.owner true) = true := by
      rw [launches, hstep, hnone]
      rfl
    rw [Watch.step, hstep, hlaunches, frames, ite_self, List.append_nil, List.append_nil]
    · rfl
    · exact Event.noConfusion
  rw [hwatch]
  refine ⟨h.terminated, ?_, fun hl => ?_, fun _ hj => ?_, ⟨0, rfl, ?_⟩, h.late.1, ?_⟩
  · rintro (⟨-, hfalse⟩ | hgone)
    · exact absurd hrunning (ne_true_of_eq_false hfalse)
    · cases hgone
  · cases hl
  · cases hj
  · -- the worker has emitted nothing, and the session is empty
    intro v hv m hm
    cases hv
    cases hm
    rfl
  · intro n hv
    cases hv

/-- The owner creates the thread, or waits until it has returned. -/
theorem inv_stepOwner (h : Inv w) (created : Bool) : Inv (w.step (.owner created)) := by
  have hstep := step_eq h (.owner created)
  dsimp only at hstep
  rw [ownerStep] at hstep
  split at hstep
  · rename_i howner
    cases created with
    | true => exact inv_launch h howner
    | false =>
        -- no thread can be created
        obtain ⟨hnone, -⟩ := h.launching howner
        apply inv_quiet h hstep rfl h.terminated
        · exact fun _ => hnone
        · exact fun hl => by cases hl
        · exact fun _ hj => by cases hj
        · exact fun v hv => ⟨v, hv, fun _ hm => hm⟩
        · exact fun n hv hrunning => Or.inr (h.late.2 n hv hrunning)
  · rename_i last howner
    have hnext : (if last then Owner.destroyed else .idle) ≠ .launching ∧
        ∀ l, (if last then Owner.destroyed else .idle) ≠ .joining l := by
      cases last <;> simp
    dsimp only at hstep
    split at hstep
    · rename_i hnone
      apply inv_quiet h hstep rfl h.terminated
      · exact fun _ => hnone
      · exact fun hl => absurd hl hnext.1
      · exact fun l hj => absurd hj (hnext.2 l)
      · exact fun v hv => ⟨v, hv, fun _ hm => hm⟩
      · exact fun n hv hrunning => Or.inr (h.late.2 n hv hrunning)
    · -- the worker is joined
      apply inv_quiet h hstep rfl h.terminated
      · exact fun _ => rfl
      · exact fun hl => absurd hl hnext.1
      · exact fun l hj => absurd hj (hnext.2 l)
      · exact fun v hv => by cases hv
      · exact fun n hv => by cases hv
    · exact inv_same h hstep rfl
  · exact inv_same h hstep rfl

/-- A frame is emitted. -/
theorem inv_emit (h : Inv w) {n : ℕ} (hemitting : w.state.worker = some (.emitting n)) :
    Inv (w.step .worker) := by
  have hstep : step w.state .worker = { w.state with worker := some (.check (n + 1)) } := by
    rw [step_eq h]
    simp only [workerStep, hemitting]
  have hframes : frames w.state .worker = [testFrame n] := by
    simp only [frames, h.terminated, hemitting]
  have hlaunches : launches w.state .worker = false := by
    rw [launches, hemitting]
    rfl
  obtain ⟨count, hsession, hcount⟩ := h.session
  obtain rfl : n = count := hcount _ hemitting n rfl
  have hnot : w.state.worker ≠ none := by
    rw [hemitting]
    exact Option.some_ne_none _
  rw [Watch.step, hstep, hframes, hlaunches]
  refine ⟨h.terminated, fun howner => absurd (h.stopped howner) hnot,
    fun hl => absurd (h.launching hl).1 hnot, h.joining, ⟨n + 1, ?_, ?_⟩, ?_, fun m hv => ?_⟩
  · rw [List.range_succ, List.map_append, ← hsession]
    rfl
  · intro v hv m hm
    cases hv
    cases hm
    rfl
  · -- the first frame since the store
    change (w.late ++ if w.state.running = true then [] else [testFrame n]).length ≤ 1
    split
    · rw [List.append_nil]
      exact h.late.1
    · rename_i hrunning
      rw [h.late.2 n hemitting (eq_false_of_ne_true hrunning)]
      exact Nat.le_refl 1
  · cases hv

/-- The worker only emits a frame after it found the flag set. -/
theorem inv_stepWorker (h : Inv w) : Inv (w.step .worker) := by
  have hstep := step_eq h .worker
  dsimp only at hstep
  cases hworker : w.state.worker with
  | none =>
      simp only [workerStep, hworker] at hstep
      exact inv_same h hstep (by simp only [frames, h.terminated, hworker])
  | some worker =>
      cases worker with
      | returned =>
          simp only [workerStep, hworker] at hstep
          exact inv_same h hstep (by simp only [frames, h.terminated, hworker])
      | emitting n => exact inv_emit h hworker
      | check n =>
          have hnot : w.state.worker ≠ none := by
            rw [hworker]
            exact Option.some_ne_none _
          simp only [workerStep, hworker] at hstep
          apply inv_quiet h hstep (by simp only [frames, h.terminated, hworker]) h.terminated
          · exact fun howner => absurd (h.stopped howner) hnot
          · exact fun hl => absurd (h.launching hl).1 hnot
          · exact h.joining
          · intro v hv
            obtain rfl := Option.some.inj hv
            refine ⟨_, hworker, fun m hm => ?_⟩
            split at hm
            · exact hm
            · cases hm
          · -- the load finds what was stored
            intro m hv hfalse
            rw [if_neg (ne_true_of_eq_false hfalse)] at hv
            cases hv

theorem inv_step (h : Inv w) (e : Event) : Inv (w.step e) := by
  cases e with
  | start => exact inv_stepStart h
  | stop => exact inv_stepStop h (Or.inl ⟨rfl, rfl⟩)
  | destroy => exact inv_stepStop h (Or.inr ⟨rfl, rfl⟩)
  | owner created => exact inv_stepOwner h created
  | worker => exact inv_stepWorker h

end Steps

/-! ## Whole runs -/

end CppMeet.Client.Pipeline
