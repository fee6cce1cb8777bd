import CppMeet.Net.RingBuffer

/-!
# The ring buffer is a bounded queue

`Inv k s q` ties a state to the queue `q` it stands for: the log leads from the empty queue to `q`,
the indexes are the numbers of elements pushed and popped modulo `N`, each element of `q` sits in
its slot, and a call in flight has seen the index of its own thread. Every step keeps it, and does
nothing to the queue or one operation of it (`simulates_step`). No call waits for the other thread:
it returns within four steps of its own (`push_returns`, `pop_returns`).
-/

set_option autoImplicit false

namespace CppMeet.Net.RingRefinement

open CppMeet.Lib.Fifo CppMeet.Lib.Run CppMeet.Net.RingBuffer

universe u

variable {T : Type u} (k : Fin 64)

/-- What the call of `push` in flight has found out. -/
def PushOk (s : State T) (q : List T) : Prop :=
  match s.producer with
  | .idle => True
  | .loadedHead _ h => h = s.head
  | .checked _ h nextH => h = s.head ∧ nextH = next k h ∧ q.length < 2 ^ (k : ℕ) - 1
  | .written item nextH =>
      nextH = next k s.head ∧ q.length < 2 ^ (k : ℕ) - 1 ∧ s.buf s.head = item

/-- What the call of `pop` in flight has found out. -/
def PopOk (s : State T) (q : List T) : Prop :=
  match s.consumer with
  | .idle => True
  | .loadedTail t => t = s.tail
  | .checked t => t = s.tail ∧ q ≠ []
  | .read item t => t = s.tail ∧ q.head? = some item

/-- The state stands for the queue `q`. -/
structure Inv (s : State T) (q : List T) : Prop where
  history : History (2 ^ (k : ℕ) - 1) s.log q
  head : s.head = slot k ((pops s.log).length + q.length)
  tail : s.tail = slot k (pops s.log).length
  slots : ∀ i x, q[i]? = some x → s.buf (slot k ((pops s.log).length + i)) = x
  producer : PushOk k s q
  consumer : PopOk s q

/-- The empty ring stands for the empty queue. -/
theorem inv_init (buf : UInt64 → T) : Inv k { buf := buf } [] where
  history := .nil
  head := rfl
  tail := rfl
  slots := by
    intro i x h
    simp at h
  producer := trivial
  consumer := trivial

section Indexes

variable {k} {s : State T} {q : List T} (h : Inv k s q)

include h

theorem length_lt : q.length < 2 ^ (k : ℕ) := by
  have hle := h.history.length_le
  have hpos := Nat.two_pow_pos k
  omega

/-- Equal indexes stand for the empty queue. -/
theorem empty_iff : s.tail = s.head ↔ q.length = 0 := by
  have hinj := slot_inj k (b := (pops s.log).length) (i := 0) (Nat.two_pow_pos k) (length_lt h)
  rw [Nat.add_zero] at hinj
  rw [h.head, h.tail, hinj]
  exact eq_comm

/-- The ring is full when the queue has `N - 1` elements. -/
theorem full_iff : next k s.head = s.tail ↔ q.length = 2 ^ (k : ℕ) - 1 := by
  have hlt := length_lt h
  rw [h.head, h.tail, next_slot, Nat.add_assoc]
  constructor
  · intro heq
    by_contra hne
    have hinj := (slot_inj k (i := q.length + 1) (j := 0) (by omega) (Nat.two_pow_pos k)).1 heq
    omega
  · intro hfull
    have hwrap : q.length + 1 = 2 ^ (k : ℕ) := by omega
    rw [hwrap, slot_add_slots]

/-- The slot that the producer writes to holds no element of the queue. -/
theorem head_ne_slot {i : ℕ} (hi : i < q.length) :
    s.head ≠ slot k ((pops s.log).length + i) := by
  have hlt := length_lt h
  intro heq
  rw [h.head, slot_inj k hlt (by omega)] at heq
  omega

theorem next_tail : next k s.tail = slot k ((pops s.log).length + 1) := by
  rw [h.tail, next_slot]

end Indexes

/-! ## One step -/

/-- The queue after the step, and what the step did to it. -/
def Simulates (s : State T) (q : List T) (s' : State T) : Prop :=
  ∃ q', Inv k s' q' ∧
    (s'.log = s.log ∧ q' = q ∨
      ∃ op, s'.log = s.log ++ [op] ∧ Accepts (2 ^ (k : ℕ) - 1) q op q')

variable {k}

/-- The consumer's knowledge survives a longer queue, which has the same first element. -/
theorem popOk_append {s s' : State T} {q : List T} (h : PopOk s q) (item : T)
    (hconsumer : s'.consumer = s.consumer) (htail : s'.tail = s.tail) :
    PopOk s' (q ++ [item]) := by
  rw [PopOk] at h ⊢
  rw [hconsumer]
  cases hpop : s.consumer with
  | idle => trivial
  | loadedTail t =>
      rw [hpop] at h
      rw [htail]
      exact h
  | checked t =>
      rw [hpop] at h
      rw [htail]
      exact ⟨h.1, by simp⟩
  | read x t =>
      rw [hpop] at h
      rw [htail]
      exact ⟨h.1, by rw [List.head?_append, h.2]; rfl⟩

/-- Once the slot at `head_` holds the element, the slots hold the longer queue. -/
theorem slots_append {s : State T} {q : List T} (h : Inv k s q) {item : T}
    (hitem : s.buf s.head = item) {i : ℕ} {x : T} (hx : (q ++ [item])[i]? = some x) :
    s.buf (slot k ((pops s.log).length + i)) = x := by
  rcases Nat.lt_or_ge i q.length with hi | hi
  · rw [List.getElem?_append_left hi] at hx
    exact h.slots i x hx
  · -- the only element beyond the old queue is the one just published
    rw [List.getElem?_append_right hi, List.getElem?_singleton] at hx
    split at hx
    · rename_i hlast
      rw [show i = q.length by omega, ← h.head, hitem]
      exact Option.some.inj hx
    · cases hx

/-- A call that returns false is added to the log and changes nothing else. -/
theorem Inv.failed {s s' : State T} {q : List T} (h : Inv k s q) {op : Op T}
    (haccept : Accepts (2 ^ (k : ℕ) - 1) q op q) (hpops : pops (s.log ++ [op]) = pops s.log)
    (hlog : s'.log = s.log ++ [op]) (hhead : s'.head = s.head) (htail : s'.tail = s.tail)
    (hbuf : s'.buf = s.buf) (hproducer : PushOk k s' q) (hconsumer : PopOk s' q) :
    Inv k s' q where
  history := by
    rw [hlog]
    exact h.history.concat haccept
  head := by
    rw [hlog, hpops, hhead]
    exact h.head
  tail := by
    rw [hlog, hpops, htail]
    exact h.tail
  slots := by
    rw [hlog, hpops, hbuf]
    exact h.slots
  producer := hproducer
  consumer := hconsumer

/-- The store to `head_` at the end of a `push` publishes the element. -/
theorem Inv.published {s : State T} {q : List T} (h : Inv k s q) {item : T}
    (haccept : Accepts (2 ^ (k : ℕ) - 1) q (.pushed item) (q ++ [item]))
    (hitem : s.buf s.head = item) :
    Inv k { s with head := next k s.head, producer := .idle, log := s.log ++ [.pushed item] }
      (q ++ [item]) where
  history := h.history.concat haccept
  head := by
    rw [pops_pushed, List.length_append, h.head, next_slot]
    rfl
  tail := by
    rw [pops_pushed]
    exact h.tail
  slots i x hx := by
    rw [pops_pushed]
    exact slots_append h hitem hx
  producer := trivial
  consumer := popOk_append h.consumer item rfl rfl

/-- A step of `push` leaves the queue alone or does to it what the log says. -/
theorem simulates_push {s : State T} {q : List T} (h : Inv k s q) (item : T) :
    Simulates k s q (pushStep k s item) := by
  have hproducer := h.producer
  cases hpc : s.producer with
  | idle =>
      refine ⟨q, ?_, Or.inl ⟨by rw [pushStep, hpc], rfl⟩⟩
      rw [pushStep, hpc]
      exact { h with producer := rfl }
  | loadedHead item h' =>
      rw [PushOk, hpc] at hproducer
      subst hproducer
      by_cases hfull : next k s.head = s.tail
      · -- the call returns false
        have haccept := Accepts.refused item ((full_iff h).1 hfull)
        simp only [pushStep, hpc, if_pos hfull]
        refine ⟨q, ?_, Or.inr ⟨_, rfl, haccept⟩⟩
        exact h.failed haccept (pops_refused _ _) rfl rfl rfl rfl trivial h.consumer
      · simp only [pushStep, hpc, if_neg hfull]
        have hroom : q.length < 2 ^ (k : ℕ) - 1 := by
          have hle := h.history.length_le
          have hne := mt (full_iff h).2 hfull
          omega
        exact ⟨q, { h with producer := ⟨rfl, rfl, hroom⟩ }, Or.inl ⟨rfl, rfl⟩⟩
  | checked item h' nextH =>
      rw [PushOk, hpc] at hproducer
      obtain ⟨rfl, rfl, hroom⟩ := hproducer
      simp only [pushStep, hpc]
      refine ⟨q, ?_, Or.inl ⟨rfl, rfl⟩⟩
      -- the write leaves the slots of the queue alone
      refine
        { h with
          slots := fun i x hx => ?_
          producer := ⟨rfl, hroom, Function.update_self ..⟩ }
      have hi : i < q.length := (List.getElem?_eq_some_iff.1 hx).1
      exact (Function.update_of_ne (head_ne_slot h hi).symm ..).trans (h.slots i x hx)
  | written item nextH =>
      rw [PushOk, hpc] at hproducer
      obtain ⟨rfl, hroom, hitem⟩ := hproducer
      have haccept := Accepts.pushed item hroom
      simp only [pushStep, hpc]
      exact ⟨q ++ [item], h.published haccept hitem, Or.inr ⟨_, rfl, haccept⟩⟩

/-- The producer's knowledge survives a queue that got no longer. -/
theorem pushOk_of_le {s s' : State T} {q q' : List T} (h : PushOk k s q)
    (hproducer : s'.producer = s.producer) (hhead : s'.head = s.head) (hbuf : s'.buf = s.buf)
    (hle : q'.length ≤ q.length) : PushOk k s' q' := by
  rw [PushOk] at h ⊢
  rw [hproducer]
  cases hpc : s.producer with
  | idle => trivial
  | loadedHead item h' => rw [hpc] at h; rw [hhead]; exact h
  | checked item h' nextH =>
      rw [hpc] at h
      obtain ⟨hh, hn, hroom⟩ := h
      rw [hhead]
      exact ⟨hh, hn, Nat.lt_of_le_of_lt hle hroom⟩
  | written item nextH =>
      rw [hpc] at h
      obtain ⟨hn, hroom, hitem⟩ := h
      rw [hhead, hbuf]
      exact ⟨hn, Nat.lt_of_le_of_lt hle hroom, hitem⟩

/-- The store to `tail_` at the end of a `pop` gives the first element up: one more is popped and
the queue is one shorter, so the sum of the two stays. -/
theorem Inv.released {s : State T} {x : T} {q : List T} (h : Inv k s (x :: q))
    (haccept : Accepts (2 ^ (k : ℕ) - 1) (x :: q) (.popped x) q) :
    Inv k { s with tail := next k s.tail, consumer := .idle, log := s.log ++ [.popped x] } q := by
  have hcount : (pops (s.log ++ [.popped x])).length = (pops s.log).length + 1 := by
    rw [pops_popped, List.length_append]
    rfl
  exact
    { history := h.history.concat haccept
      head := by
        rw [hcount, Nat.add_assoc, Nat.add_comm 1]
        exact h.head
      tail := by
        rw [hcount]
        exact next_tail h
      slots := by
        intro i y hy
        rw [hcount, Nat.add_assoc, Nat.add_comm 1]
        exact h.slots (i + 1) y hy
      producer := pushOk_of_le h.producer rfl rfl rfl (Nat.le_succ _)
      consumer := trivial }

/-- A step of `pop` leaves the queue alone or does to it what the log says. -/
theorem simulates_pop {s : State T} {q : List T} (h : Inv k s q) :
    Simulates k s q (popStep k s) := by
  have hconsumer := h.consumer
  cases hpc : s.consumer with
  | idle =>
      refine ⟨q, ?_, Or.inl ⟨by rw [popStep, hpc], rfl⟩⟩
      rw [popStep, hpc]
      exact { h with consumer := rfl }
  | loadedTail t =>
      rw [PopOk, hpc] at hconsumer
      subst hconsumer
      by_cases hempty : s.tail = s.head
      · -- the call returns false
        obtain rfl := List.eq_nil_of_length_eq_zero ((empty_iff h).1 hempty)
        have haccept : Accepts (2 ^ (k : ℕ) - 1) ([] : List T) .starved [] := Accepts.starved
        simp only [popStep, hpc, if_pos hempty]
        refine ⟨[], ?_, Or.inr ⟨_, rfl, haccept⟩⟩
        exact h.failed haccept (pops_starved _) rfl rfl rfl rfl h.producer trivial
      · simp only [popStep, hpc, if_neg hempty]
        refine ⟨q, { h with consumer := ⟨rfl, ?_⟩ }, Or.inl ⟨rfl, rfl⟩⟩
        rintro rfl
        exact hempty ((empty_iff h).2 rfl)
  | checked t =>
      rw [PopOk, hpc] at hconsumer
      obtain ⟨rfl, hne⟩ := hconsumer
      simp only [popStep, hpc]
      refine ⟨q, { h with consumer := ⟨rfl, ?_⟩ }, Or.inl ⟨rfl, rfl⟩⟩
      cases q with
      | nil => exact absurd rfl hne
      | cons x q =>
          -- the slot of `tail_` holds the first element
          have hslot := h.slots 0 x rfl
          rw [Nat.add_zero, ← h.tail] at hslot
          rw [hslot]
          rfl
  | read item t =>
      rw [PopOk, hpc] at hconsumer
      obtain ⟨rfl, hitem⟩ := hconsumer
      cases q with
      | nil => cases hitem
      | cons x q =>
          obtain rfl : x = item := Option.some.inj hitem
          have haccept : Accepts (2 ^ (k : ℕ) - 1) (x :: q) (.popped x) q := Accepts.popped x q
          simp only [popStep, hpc]
          exact ⟨q, h.released haccept, Or.inr ⟨_, rfl, haccept⟩⟩

/-- A step of either thread leaves the queue alone or does one operation of it. -/
theorem simulates_step {s : State T} {q : List T} (h : Inv k s q) (e : Event T) :
    Simulates k s q (step k s e) := by
  cases e with
  | push item => exact simulates_push h item
  | pop => exact simulates_pop h

/-! ## Whole runs -/

/-- The slot that a step writes to. -/
def writtenSlot (s : State T) : Event T → Option UInt64
  | .push _ =>
      match s.producer with
      | .checked _ h _ => some h
      | _ => none
  | .pop => none

variable (k)

/-- What holds of one step, in terms of the elements pushed and not popped yet. -/
structure StepOk (s : State T) (e : Event T) : Prop where
  refines : (step k s e).log = s.log ∨ ∃ op, (step k s e).log = s.log ++ [op] ∧
    Accepts (2 ^ (k : ℕ) - 1) (unpopped s.log) op (unpopped (step k s e).log)
  writes : ∀ i, writtenSlot s e ≠ some i → (step k s e).buf i = s.buf i
  keeps : ∀ i, writtenSlot s e = some i → i < slots k ∧
    ∀ j < (unpopped s.log).length, i ≠ slot k ((pops s.log).length + j)
  pushFails : ∀ item, (step k s e).log = s.log ++ [.refused item] →
    (unpopped s.log).length = 2 ^ (k : ℕ) - 1
  popFails : (step k s e).log = s.log ++ [.starved] → unpopped s.log = []

/-- What holds of one state, in terms of the elements pushed and not popped yet. -/
structure StateOk (s : State T) : Prop where
  history : History (2 ^ (k : ℕ) - 1) s.log (unpopped s.log)
  fifo : pops s.log <+: pushes s.log
  intact : ∀ i x, (unpopped s.log)[i]? = some x → s.buf (slot k ((pops s.log).length + i)) = x
  size : (size k s).toNat = (unpopped s.log).length
  empty : empty s = true ↔ (unpopped s.log).length = 0
  full : full k s = true ↔ (unpopped s.log).length = 2 ^ (k : ℕ) - 1

variable {k}

/-- What the invariant says without the queue. -/
theorem stateOk_of_inv {s : State T} {q : List T} (h : Inv k s q) : StateOk k s := by
  have hq := h.history.unpopped_eq
  refine
    { history := by rw [hq]; exact h.history
      fifo := h.history.pops_isPrefix
      intact := by rw [hq]; exact h.slots
      size := ?_
      empty := ?_
      full := ?_ }
  · rw [hq, RingBuffer.size, h.head, h.tail, sub_slot k (length_lt h)]
  · rw [hq, RingBuffer.empty, decide_eq_true_eq, eq_comm, empty_iff h]
  · rw [hq, RingBuffer.full, decide_eq_true_eq, full_iff h]

theorem buf_step (s : State T) (e : Event T) {i : UInt64} (hi : writtenSlot s e ≠ some i) :
    (step k s e).buf i = s.buf i := by
  cases e with
  | pop =>
      cases hpc : s.consumer with
      | idle => simp only [step, popStep, hpc]
      | loadedTail t => simp only [step, popStep, hpc]; split <;> rfl
      | checked t => simp only [step, popStep, hpc]
      | read item t => simp only [step, popStep, hpc]
  | push item =>
      cases hpc : s.producer with
      | idle => simp only [step, pushStep, hpc]
      | loadedHead item h => simp only [step, pushStep, hpc]; split <;> rfl
      | checked item h nextH =>
          simp only [writtenSlot, hpc] at hi
          simp only [step, pushStep, hpc]
          exact Function.update_of_ne (fun heq => hi (congrArg some heq.symm)) ..
      | written item nextH => simp only [step, pushStep, hpc]

/-- The producer writes to the slot of its index, where no element of the queue sits. -/
theorem keeps_of_inv {s : State T} {q : List T} (h : Inv k s q) {e : Event T} {i : UInt64}
    (hi : writtenSlot s e = some i) :
    i < slots k ∧ ∀ j < q.length, i ≠ slot k ((pops s.log).length + j) := by
  have hproducer := h.producer
  cases e with
  | pop => cases hi
  | push item =>
      rw [writtenSlot] at hi
      rw [PushOk] at hproducer
      cases hpc : s.producer with
      | idle => rw [hpc] at hi; cases hi
      | loadedHead item h' => rw [hpc] at hi; cases hi
      | written item nextH => rw [hpc] at hi; cases hi
      | checked item h' nextH =>
          rw [hpc] at hi hproducer
          obtain rfl : h' = i := Option.some.inj hi
          rw [hproducer.1]
          refine ⟨?_, fun j hj => head_ne_slot h hj⟩
          rw [h.head]
          exact slot_lt k _

/-- What a step does, in terms of the unpopped elements. -/
theorem stepOk_of_inv {s : State T} {q : List T} (h : Inv k s q) (e : Event T) :
    StepOk k s e := by
  have hq := h.history.unpopped_eq
  obtain ⟨q', h', hstep⟩ := simulates_step h e
  have hq' := h'.history.unpopped_eq
  -- at most one operation is logged, so a logged one is the one that the queue took
  have haccepts : ∀ op, (step k s e).log = s.log ++ [op] →
      Accepts (2 ^ (k : ℕ) - 1) q op q' := by
    intro op hop
    rcases hstep with ⟨hlog, _⟩ | ⟨op', hlog, haccept⟩
    · simp [hlog] at hop
    · rw [hlog, List.append_cancel_left_eq, List.singleton_inj] at hop
      exact hop ▸ haccept
  refine
    { refines := ?_
      writes := fun i hi => buf_step s e hi
      keeps := fun i hi => by rw [hq]; exact keeps_of_inv h hi
      pushFails := ?_
      popFails := ?_ }
  · rw [hq, hq']
    rcases hstep with ⟨hlog, _⟩ | hop
    · exact Or.inl hlog
    · exact Or.inr hop
  · -- the queue refuses an element only when it is full
    intro item hfail
    rw [hq]
    cases haccepts _ hfail with
    | refused _ hfull => exact hfull
  · -- and it has none to give only when it is empty
    intro hfail
    rw [hq]
    cases haccepts _ hfail with
    | starved => rfl

/-- However the steps of the producer and the consumer interleave, each of them leaves the queue of
unpopped elements alone or performs one operation of the bounded queue of capacity `N - 1` on it,
and the indexes, the slots and the observers agree with that queue at every moment. -/
theorem ring_buffer_refines_fifo (k : Fin 64) (buf : UInt64 → T) (events : List (Event T)) :
    Along (step k) (StepOk k) { buf := buf } events ∧
      StateOk k (run (step k) { buf := buf } events) := by
  have hinit : ∃ q, Inv k { buf := buf } q := ⟨[], inv_init k buf⟩
  have hkeep : ∀ (s : State T) e, (∃ q, Inv k s q) → True → ∃ q, Inv k (step k s e) q := by
    rintro s e ⟨q, h⟩ -
    obtain ⟨q', h', _⟩ := simulates_step h e
    exact ⟨q', h'⟩
  have hall : Along (step k) (fun _ _ => True) { buf := buf } events :=
    along_of_forall (fun _ _ => trivial) _ _
  constructor
  · refine along_of_inv hkeep ?_ hinit hall
    rintro s e ⟨q, h⟩ -
    exact stepOk_of_inv h e
  · obtain ⟨q, h⟩ := inv_run hkeep hinit hall
    exact stateOk_of_inv h

/-! ## Calls return -/

variable (k)

/-- Whether the producer takes the step. -/
def ofProducer : Event T → Bool
  | .push _ => true
  | .pop => false

/-- Whether the consumer takes the step. -/
def ofConsumer (e : Event T) : Bool := !ofProducer e

/-- The call `push(item)` is in flight, and a loaded index is still the producer's own. -/
def Pushing (item : T) (s : State T) : Prop :=
  match s.producer with
  | .idle => False
  | .loadedHead item' h => item' = item ∧ h = s.head
  | .checked item' _ _ => item' = item
  | .written item' _ => item' = item

/-- A call of `pop` is in flight, and a loaded index is still the consumer's own. -/
def Popping (s : State T) : Prop :=
  match s.consumer with
  | .idle => False
  | .loadedTail t => t = s.tail
  | .checked _ => True
  | .read _ _ => True

/-- The steps of `push` before the last one. -/
def pushLeft (s : State T) : ℕ :=
  match s.producer with
  | .idle => 3
  | .loadedHead _ _ => 2
  | .checked _ _ _ => 1
  | .written _ _ => 0

/-- The steps of `pop` before the last one. -/
def popLeft (s : State T) : ℕ :=
  match s.consumer with
  | .idle => 3
  | .loadedTail _ => 2
  | .checked _ => 1
  | .read _ _ => 0

/-- In this step `push(item)` returns: true, or false at a full ring. -/
def PushReturns (item : T) (s : State T) (e : Event T) : Prop :=
  (step k s e).log = s.log ++ [.pushed item] ∨
    full k s = true ∧ (step k s e).log = s.log ++ [.refused item]

/-- In this step `pop` returns: an element, or false at an empty ring. -/
def PopReturns (s : State T) (e : Event T) : Prop :=
  (∃ item, (step k s e).log = s.log ++ [.popped item]) ∨
    empty s = true ∧ (step k s e).log = s.log ++ [.starved]

/-- A step of the consumer leaves the producer's side alone. -/
theorem producer_popStep (s : State T) :
    (popStep k s).producer = s.producer ∧ (popStep k s).head = s.head := by
  cases hpc : s.consumer with
  | idle => simp only [popStep, hpc, and_self]
  | loadedTail t => simp only [popStep, hpc]; split <;> exact ⟨rfl, rfl⟩
  | checked t => simp only [popStep, hpc, and_self]
  | read item t => simp only [popStep, hpc, and_self]

/-- A step of the producer leaves the consumer's side alone. -/
theorem consumer_pushStep (s : State T) (item : T) :
    (pushStep k s item).consumer = s.consumer ∧ (pushStep k s item).tail = s.tail := by
  cases hpc : s.producer with
  | idle => simp only [pushStep, hpc, and_self]
  | loadedHead item h => simp only [pushStep, hpc]; split <;> exact ⟨rfl, rfl⟩
  | checked item h nextH => simp only [pushStep, hpc, and_self]
  | written item nextH => simp only [pushStep, hpc, and_self]

/-- A step of `push` is its last one, or brings it nearer. -/
theorem pushing_step {s : State T} {item : T} (h : Pushing item s) (item' : T) :
    PushReturns k item s (.push item') ∨
      Pushing item (step k s (.push item')) ∧ pushLeft (step k s (.push item')) < pushLeft s := by
  rw [Pushing] at h
  cases hpc : s.producer with
  | idle =>
      rw [hpc] at h
      exact h.elim
  | loadedHead x i =>
      rw [hpc] at h
      obtain ⟨rfl, rfl⟩ := h
      by_cases hfull : next k s.head = s.tail
      · -- the ring is full, and the push returns `false`
        refine Or.inl (Or.inr ⟨decide_eq_true hfull, ?_⟩)
        simp only [step, pushStep, hpc, if_pos hfull]
      · right
        simp [step, pushStep, Pushing, pushLeft, hpc, hfull]
  | checked x i nextI =>
      rw [hpc] at h
      subst h
      right
      simp [step, pushStep, Pushing, pushLeft, hpc]
  | written x nextI =>
      rw [hpc] at h
      subst h
      -- the last step, the store to `head_`
      refine Or.inl (Or.inl ?_)
      simp only [step, pushStep, hpc]

/-- A step of `pop` is its last one, or brings it nearer. -/
theorem popping_step {s : State T} (h : Popping s) :
    PopReturns k s .pop ∨ Popping (step k s .pop) ∧ popLeft (step k s .pop) < popLeft s := by
  rw [Popping] at h
  cases hpc : s.consumer with
  | idle =>
      rw [hpc] at h
      exact h.elim
  | loadedTail t =>
      rw [hpc] at h
      subst h
      by_cases hempty : s.tail = s.head
      · refine Or.inl (Or.inr ⟨decide_eq_true hempty.symm, ?_⟩)
        simp only [step, popStep, hpc, if_pos hempty]
      · right
        simp [step, popStep, Popping, popLeft, hpc, hempty]
  | checked t =>
      right
      simp [step, popStep, Popping, popLeft, hpc]
  | read item t =>
      refine Or.inl (Or.inl ⟨item, ?_⟩)
      simp only [step, popStep, hpc]

/-- A call of `push` returns in one of its first four steps, whatever the consumer does in between,
and it fails only if the ring was full in that step. -/
theorem push_returns {s : State T} (hidle : s.producer = .idle) (item : T) {events : List (Event T)}
    (hsteps : 3 ≤ events.countP ofProducer) :
    ∃ pre e post, events = pre ++ e :: post ∧ ofProducer e = true ∧
      PushReturns k item (run (step k) (step k s (.push item)) pre) e := by
  have hbegun : (step k s (.push item)).producer = .loadedHead item s.head ∧
      (step k s (.push item)).head = s.head := by
    simp only [step, pushStep, hidle, and_self]
  have hbusy : Pushing item (step k s (.push item)) := by
    rw [Pushing, hbegun.1]
    exact ⟨rfl, hbegun.2.symm⟩
  have hleft : pushLeft (step k s (.push item)) = 2 := by
    rw [pushLeft, hbegun.1]
  refine exists_finishing ?_ ?_ hbusy (hleft.trans_lt hsteps)
  · rintro s (item' | _) h hother
    · cases hother
    · obtain ⟨hproducer, hhead⟩ := producer_popStep k s
      rw [step, Pushing, pushLeft, hproducer, hhead]
      exact ⟨h, rfl⟩
  · rintro s (item' | _) h hown
    · exact pushing_step k h item'
    · cases hown

/-- A call of `pop` returns in one of its first four steps, whatever the producer does in between,
and it fails only if the ring was empty in that step. -/
theorem pop_returns {s : State T} (hidle : s.consumer = .idle) {events : List (Event T)}
    (hsteps : 3 ≤ events.countP ofConsumer) :
    ∃ pre e post, events = pre ++ e :: post ∧ ofConsumer e = true ∧
      PopReturns k (run (step k) (step k s .pop) pre) e := by
  have hbegun : (step k s .pop).consumer = .loadedTail s.tail ∧
      (step k s .pop).tail = s.tail := by
    simp only [step, popStep, hidle, and_self]
  have hbusy : Popping (step k s .pop) := by
    rw [Popping, hbegun.1]
    exact hbegun.2.symm
  have hleft : popLeft (step k s .pop) = 2 := by
    rw [popLeft, hbegun.1]
  refine exists_finishing ?_ ?_ hbusy (hleft.trans_lt hsteps)
  · rintro s (item' | _) h hother
    · obtain ⟨hconsumer, htail⟩ := consumer_pushStep k s item'
      rw [step, Popping, popLeft, hconsumer, htail]
      exact ⟨h, rfl⟩
    · cases hother
  · rintro s (item' | _) h hown
    · cases hown
    · exact popping_step k h

end CppMeet.Net.RingRefinement
