import CppMeet.Lib.HashMap
import CppMeet.Lib.Ownership
import CppMeet.Lib.Run

/-!
# Who closes a socket's descriptor

A `UdpSocket` opens a descriptor in its constructor and closes it in its destructor; moving it hands
the descriptor on and leaves the other object without one. A process creates, moves, assigns, uses
and destroys such objects in any order, and the system calls of a constructor may fail at any place.
The kernel knows which descriptors the objects have opened and not closed (`own`), and which belong
to other code.

`ownership_run`: every descriptor that is closed is one of the own ones, so none is closed twice and
none of another owner is; every descriptor that is used is an own one, or the -1 of an object that
was moved from; and an own descriptor is held by exactly one object, so none is left behind.
-/

set_option autoImplicit false

namespace CppMeet.Net.Sockets

open CppMeet.Lib.HashMap CppMeet.Lib.Ownership CppMeet.Lib.Run

/-! ## The class -/

/-- A socket object owns the descriptor it holds, -1 for none. -/
structure UdpSocket where
  fd : ℤ := -1
  deriving DecidableEq

/-- The system calls of the class, and what other code does to the descriptors of the process. -/
inductive SysCall where
  | socket (fd : ℤ)
  | close (fd : ℤ)
  /-- `setsockopt`, `bind`, `sendto` and `recvfrom`. -/
  | operate (fd : ℤ)
  /-- Other code of the process opens or closes a descriptor. -/
  | otherOpen (fd : ℤ)
  | otherClose (fd : ℤ)
  deriving DecidableEq

/-- How the system calls of the constructor end. -/
inductive Opening where
  | noSocket
  /-- `fcntl(F_GETFL)` fails. -/
  | noFlags (fd : ℤ)
  /-- `fcntl(F_SETFL)` fails. -/
  | notSet (fd : ℤ)
  | opened (fd : ℤ)

/-- The descriptor that `socket` returns, if it does not fail. -/
def Opening.fd : Opening → Option ℤ
  | .noSocket => none
  | .noFlags fd => some fd
  | .notSet fd => some fd
  | .opened fd => some fd

namespace UdpSocket

/-- `valid()`: the object holds a descriptor. -/
def valid (s : UdpSocket) : Bool := 0 ≤ s.fd

/-- The constructor; there is no object if it throws. -/
def construct : Opening → Option UdpSocket × List SysCall
  | .noSocket => (none, [])
  | .noFlags fd => (none, [.socket fd, .close fd])
  | .notSet fd => (none, [.socket fd, .close fd])
  | .opened fd => (some { fd := fd }, [.socket fd])

/-- The calls of the destructor. -/
def destroy (s : UdpSocket) : List SysCall := if s.valid then [.close s.fd] else []

/-- The move constructor: the new object, and what is left of the other. -/
def moveConstruct (other : UdpSocket) : UdpSocket × UdpSocket := ({ fd := other.fd }, { fd := -1 })

/-- The move assignment from a different object. -/
def moveAssign (s other : UdpSocket) : UdpSocket × UdpSocket × List SysCall :=
  ({ fd := other.fd }, { fd := -1 }, if s.valid then [.close s.fd] else [])

/-- The descriptor that an object holds. -/
def handle (s : UdpSocket) : Option ℤ := if s.valid then some s.fd else none

end UdpSocket

/-! ## A process -/

/-- The open descriptors of the process, those of the sockets and the others. -/
structure Kernel where
  own : Finset ℤ := ∅
  other : Finset ℤ := ∅

/-- A call opens or closes a descriptor, and nothing else. -/
def Kernel.step (k : Kernel) : SysCall → Kernel
  | .socket fd => { k with own := insert fd k.own }
  | .close fd => { k with own := k.own.erase fd }
  | .operate _ => k
  | .otherOpen fd => { k with other := insert fd k.other }
  | .otherClose fd => { k with other := k.other.erase fd }

/-- The kernel gives out a descriptor that nobody has. -/
def Kernel.Fresh (k : Kernel) (fd : ℤ) : Prop := 0 ≤ fd ∧ fd ∉ k.own ∧ fd ∉ k.other

instance (k : Kernel) (fd : ℤ) : Decidable (k.Fresh fd) := inferInstanceAs (Decidable (_ ∧ _))

/-- The socket objects that are alive, and the descriptors. -/
structure Process where
  objects : UnorderedMap ℕ UdpSocket := ∅
  kernel : Kernel := {}

/-- What a process does; objects are told apart by a number. -/
inductive Event where
  | construct (id : ℕ) (result : Opening)
  | destroy (id : ℕ)
  | moveConstruct (id other : ℕ)
  | moveAssign (id other : ℕ)
  /-- `bind`, `send_to` or `recv_from`. -/
  | operate (id : ℕ)
  | otherOpen (fd : ℤ)
  | otherClose (fd : ℤ)

/-- The objects after an event, and the system calls it made. -/
structure Reaction where
  objects : UnorderedMap ℕ UdpSocket
  calls : List SysCall

/-- An event that cannot happen: an object that is not there, or is there already, or a descriptor
that somebody has. -/
def ignored (p : Process) : Reaction := { objects := p.objects, calls := [] }

/-- What an event does. Events on objects that do not exist are ignored. -/
def react (p : Process) : Event → Reaction
  | .construct id result =>
      if id ∈ p.objects ∨ ¬∀ fd ∈ result.fd, p.kernel.Fresh fd then ignored p
      else
        match UdpSocket.construct result with
        | (none, calls) => { objects := p.objects, calls := calls }
        | (some s, calls) => { objects := p.objects.insert id s, calls := calls }
  | .destroy id =>
      match p.objects.lookup id with
      | none => ignored p
      | some s => { objects := p.objects.erase id, calls := s.destroy }
  | .moveConstruct id other =>
      match p.objects.lookup other with
      | none => ignored p
      | some o =>
          if id ∈ p.objects then ignored p
          else
            let (s, o) := o.moveConstruct
            { objects := (p.objects.insert id s).insert other o, calls := [] }
  | .moveAssign id other =>
      match p.objects.lookup id, p.objects.lookup other with
      | some s, some o =>
          -- `this != &other`
          if id = other then ignored p
          else
            let (s, o, calls) := s.moveAssign o
            { objects := (p.objects.insert id s).insert other o, calls := calls }
      | _, _ => ignored p
  | .operate id =>
      match p.objects.lookup id with
      | none => ignored p
      | some s => { objects := p.objects, calls := [.operate s.fd] }
  | .otherOpen fd =>
      if p.kernel.Fresh fd then { objects := p.objects, calls := [.otherOpen fd] } else ignored p
  | .otherClose fd =>
      if fd ∈ p.kernel.other then { objects := p.objects, calls := [.otherClose fd] }
      else ignored p

/-- The system calls of an event. -/
def calls (p : Process) (e : Event) : List SysCall := (react p e).calls

/-- An event, and what its system calls do to the descriptors. -/
def Process.step (p : Process) (e : Event) : Process :=
  let r := react p e
  { objects := r.objects, kernel := run Kernel.step p.kernel r.calls }

/-- A call that does no harm: nothing is closed but an own descriptor, and nothing used but an own
descriptor or -1. -/
def Proper (k : Kernel) : SysCall → Prop
  | .close fd => fd ∈ k.own
  | .operate fd => fd ∈ k.own ∨ fd = -1
  | _ => True

/-- The descriptors that the objects hold. -/
def slots (objects : UnorderedMap ℕ UdpSocket) (id : ℕ) : Option ℤ :=
  (objects.lookup id).bind UdpSocket.handle

/-- The invariant of a process. -/
structure Inv (p : Process) : Prop where
  owned : Owned (slots p.objects) p.kernel.own
  moved : ∀ id s, p.objects.lookup id = some s → s.valid = false → s.fd = -1
  apart : Disjoint p.kernel.own p.kernel.other

/-! ## Single events -/

section Slots

variable {objects : UnorderedMap ℕ UdpSocket} {id : ℕ} {s : UdpSocket}

theorem slots_insert (objects : UnorderedMap ℕ UdpSocket) (id : ℕ) (s : UdpSocket) :
    slots (objects.insert id s) = Function.update (slots objects) id s.handle := by
  funext id'
  rw [slots, lookup_insert_ite, Function.update_apply]
  split
  · rfl
  · rfl

theorem slots_erase (objects : UnorderedMap ℕ UdpSocket) (id : ℕ) :
    slots (objects.erase id) = Function.update (slots objects) id none := by
  funext id'
  rw [slots, lookup_erase_ite, Function.update_apply]
  split
  · rfl
  · rfl

theorem slots_of_lookup (h : objects.lookup id = some s) : slots objects id = s.handle := by
  rw [slots, h]
  rfl

theorem slots_of_notMem (h : id ∉ objects) : slots objects id = none := by
  rw [slots, Finmap.lookup_eq_none.2 h]
  rfl

theorem handle_moved : ({ fd := -1 } : UdpSocket).handle = none := rfl

theorem handle_of_valid (h : s.valid = true) : s.handle = some s.fd := if_pos h

theorem handle_of_not_valid (h : s.valid = false) : s.handle = none := by
  rw [UdpSocket.handle, h]
  rfl

end Slots

section Events

variable {p : Process}

/-- What has to be known of the reaction to an event. -/
structure StepOk (p : Process) (r : Reaction) : Prop where
  proper : Along Kernel.step Proper p.kernel r.calls
  inv : Inv { objects := r.objects, kernel := run Kernel.step p.kernel r.calls }

/-- An event on a missing object changes nothing. -/
theorem stepOk_ignored (h : Inv p) : StepOk p (ignored p) where
  proper := along_nil _
  inv := h

/-- Objects that stand for others come with a descriptor or with -1. -/
theorem moved_insert {objects : UnorderedMap ℕ UdpSocket} {id : ℕ} {s : UdpSocket}
    (h : ∀ id s, objects.lookup id = some s → s.valid = false → s.fd = -1)
    (hs : s.valid = false → s.fd = -1) :
    ∀ id' s', (objects.insert id s).lookup id' = some s' → s'.valid = false → s'.fd = -1 := by
  intro id' s' hlookup
  rw [lookup_insert_ite] at hlookup
  split at hlookup
  · rw [← Option.some.inj hlookup]
    exact hs
  · exact h id' s' hlookup

/-- A construction that succeeds owns a fresh descriptor, one that fails leaves none open. -/
theorem stepOk_construct (h : Inv p) {id : ℕ} {result : Opening} (hid : id ∉ p.objects)
    (hfresh : ∀ fd ∈ result.fd, p.kernel.Fresh fd) :
    StepOk p (react p (.construct id result)) := by
  have hguard : ¬(id ∈ p.objects ∨ ¬∀ fd ∈ result.fd, p.kernel.Fresh fd) :=
    fun hnot => hnot.elim hid fun hnot => hnot hfresh
  -- the constructor throws and closes what it has opened
  have hthrows (fd : ℤ) (hfd : p.kernel.Fresh fd) :
      StepOk p { objects := p.objects, calls := [.socket fd, .close fd] } := by
    have hback : run Kernel.step p.kernel [.socket fd, .close fd] = p.kernel := by
      rw [run_cons, run_cons, run_nil, Kernel.step, Kernel.step, Finset.erase_insert hfd.2.1]
    refine ⟨⟨trivial, Finset.mem_insert_self fd _, trivial⟩, ?_⟩
    rw [hback]
    exact h
  rw [react, if_neg hguard]
  cases result with
  | noSocket => exact stepOk_ignored h
  | noFlags fd => exact hthrows fd (hfresh fd rfl)
  | notSet fd => exact hthrows fd (hfresh fd rfl)
  | opened fd =>
      obtain ⟨hpos, hown, hother⟩ := hfresh fd rfl
      have hvalid : ({ fd := fd } : UdpSocket).valid = true := decide_eq_true hpos
      refine ⟨⟨trivial, trivial⟩, ⟨?_, moved_insert h.moved fun hnot => ?_, ?_⟩⟩
      · -- the new object is the only holder of the new descriptor
        change Owned (slots (p.objects.insert id { fd := fd })) (insert fd p.kernel.own)
        rw [slots_insert, handle_of_valid hvalid]
        exact h.owned.take (slots_of_notMem hid) hown
      · rw [hvalid] at hnot
        cases hnot
      · exact Finset.disjoint_insert_left.2 ⟨hother, h.apart⟩

/-- An object gives up its descriptor. -/
theorem destroy_ok (h : Inv p) {id : ℕ} {s : UdpSocket} (hs : p.objects.lookup id = some s) :
    Along Kernel.step Proper p.kernel s.destroy ∧
      Owned (Function.update (slots p.objects) id none)
        (run Kernel.step p.kernel s.destroy).own ∧
      Disjoint (run Kernel.step p.kernel s.destroy).own
        (run Kernel.step p.kernel s.destroy).other := by
  have hslot := slots_of_lookup hs
  rw [UdpSocket.destroy]
  cases hvalid : s.valid with
  | true =>
      rw [handle_of_valid hvalid] at hslot
      rw [if_pos rfl]
      refine ⟨⟨h.owned.held id s.fd hslot, trivial⟩, h.owned.drop hslot, ?_⟩
      exact h.apart.mono_left (Finset.erase_subset s.fd p.kernel.own)
  | false =>
      rw [handle_of_not_valid hvalid] at hslot
      rw [if_neg Bool.false_ne_true, ← hslot, Function.update_eq_self]
      exact ⟨along_nil _, h.owned, h.apart⟩

/-- The destructor closes the descriptor of its object. -/
theorem stepOk_destroy (h : Inv p) {id : ℕ} {s : UdpSocket} (hs : p.objects.lookup id = some s) :
    StepOk p { objects := p.objects.erase id, calls := s.destroy } := by
  obtain ⟨hproper, howned, hapart⟩ := destroy_ok h hs
  refine ⟨hproper, ⟨?_, fun id' s' hlookup => ?_, hapart⟩⟩
  · rw [slots_erase]
    exact howned
  · rw [lookup_erase_ite] at hlookup
    split at hlookup
    · cases hlookup
    · exact h.moved id' s' hlookup

/-- An object without a descriptor takes over that of another one. -/
theorem inv_move {objects : UnorderedMap ℕ UdpSocket} {kernel : Kernel} {id other : ℕ}
    {o : UdpSocket} (hne : id ≠ other) (ho : objects.lookup other = some o)
    (howned : Owned (Function.update (slots objects) id none) kernel.own)
    (hmoved : ∀ id s, objects.lookup id = some s → s.valid = false → s.fd = -1)
    (hapart : Disjoint kernel.own kernel.other) :
    Inv { objects := (objects.insert id { fd := o.fd }).insert other { fd := -1 }
          kernel := kernel } := by
  refine ⟨?_, moved_insert (moved_insert hmoved (hmoved other o ho)) fun _ => rfl, hapart⟩
  have hhandle : ({ fd := o.fd } : UdpSocket).handle = slots objects other :=
    (slots_of_lookup ho).symm
  have hempty : Function.update (slots objects) id none id = none := by
    rw [Function.update_self]
  have htransfer := howned.transfer hempty hne
  rw [Function.update_of_ne hne.symm, Function.update_idem] at htransfer
  change Owned (slots ((objects.insert id { fd := o.fd }).insert other { fd := -1 })) kernel.own
  rw [slots_insert, slots_insert, hhandle, handle_moved]
  exact htransfer

/-- Every event keeps each descriptor in one object. -/
theorem stepOk_react (h : Inv p) (e : Event) : StepOk p (react p e) := by
  cases e with
  | construct id result =>
      by_cases hguard : id ∈ p.objects ∨ ¬∀ fd ∈ result.fd, p.kernel.Fresh fd
      · rw [react, if_pos hguard]
        exact stepOk_ignored h
      · obtain ⟨hid, hfresh⟩ := not_or.1 hguard
        exact stepOk_construct h hid (not_not.1 hfresh)
  | destroy id =>
      rw [react]
      split
      · exact stepOk_ignored h
      · rename_i s hs
        exact stepOk_destroy h hs
  | moveConstruct id other =>
      rw [react]
      split
      · exact stepOk_ignored h
      · rename_i o ho
        split
        · exact stepOk_ignored h
        · rename_i hid
          -- the new object has no descriptor yet, so nothing is released
          have hne : id ≠ other := by
            rintro rfl
            exact hid (Finmap.mem_iff.2 ⟨o, ho⟩)
          have hsame : Function.update (slots p.objects) id none = slots p.objects := by
            rw [← slots_of_notMem hid, Function.update_eq_self]
          refine ⟨along_nil _, inv_move hne ho ?_ h.moved h.apart⟩
          rw [hsame]
          exact h.owned
  | moveAssign id other =>
      rw [react]
      split
      · rename_i s o hs ho
        split
        · exact stepOk_ignored h
        · rename_i hne
          -- the target is released first, and takes the descriptor over then
          obtain ⟨hproper, howned, hapart⟩ := destroy_ok h hs
          exact ⟨hproper, inv_move hne ho howned h.moved hapart⟩
      · exact stepOk_ignored h
  | operate id =>
      rw [react]
      split
      · exact stepOk_ignored h
      · rename_i s hs
        refine ⟨⟨?_, trivial⟩, h⟩
        -- a moved-from object passes -1, which is no descriptor
        cases hvalid : s.valid with
        | true =>
            have hslot := (slots_of_lookup hs).trans (handle_of_valid hvalid)
            exact Or.inl (h.owned.held id s.fd hslot)
        | false => exact Or.inr (h.moved id s hs hvalid)
  | otherOpen fd =>
      rw [react]
      split
      · rename_i hfresh
        -- the kernel does not hand out a descriptor that a socket holds
        refine ⟨⟨trivial, trivial⟩, ⟨h.owned, h.moved, ?_⟩⟩
        exact Finset.disjoint_insert_right.2 ⟨hfresh.2.1, h.apart⟩
      · exact stepOk_ignored h
  | otherClose fd =>
      rw [react]
      split
      · refine ⟨⟨trivial, trivial⟩, ⟨h.owned, h.moved, ?_⟩⟩
        exact h.apart.mono_right (Finset.erase_subset fd p.kernel.other)
      · exact stepOk_ignored h

end Events

/-! ## Whole runs -/

theorem inv_start : Inv {} where
  owned := by
    have hnone : slots (∅ : UnorderedMap ℕ UdpSocket) = fun _ => none := by
      funext id
      rw [slots, Finmap.lookup_empty]
      rfl
    rw [hnone]
    exact owned_empty
  moved id s hs := by
    rw [Finmap.lookup_empty] at hs
    cases hs
  apart := Finset.disjoint_empty_left _

/-- In every run, whatever is constructed, moved, assigned, used and destroyed, and whichever system
calls fail: a descriptor that is closed was opened by a constructor and not closed since, and one
that is used likewise, or it is -1. The descriptors opened and not closed are those the objects
hold, each of them by exactly one object; when no object is left, none is open. -/
theorem ownership_run (events : List Event) :
    let p := run Process.step {} events
    Along Kernel.step Proper {} (trace Process.step calls {} events) ∧
      (∀ fd, fd ∈ p.kernel.own ↔ ∃ id, slots p.objects id = some fd) ∧
      (∀ id id' fd, slots p.objects id = some fd → slots p.objects id' = some fd → id = id') ∧
      Disjoint p.kernel.own p.kernel.other ∧ (p.objects = ∅ → p.kernel.own = ∅) := by
  intro p
  have hall : Along Process.step (fun _ _ => True) {} events :=
    along_of_forall (fun _ _ => trivial) _ _
  have hinv : Inv (run Process.step {} events) :=
    inv_run (I := Inv) (fun _ e hs _ => (stepOk_react hs e).inv) inv_start hall
  refine ⟨?_, fun fd => ⟨hinv.owned.holder fd, ?_⟩, hinv.owned.alone, hinv.apart, fun hempty => ?_⟩
  · -- the calls of each event are proper for the kernel of that moment
    refine (along_trace_iff (R := fun (p : Process) (k : Kernel) => p.kernel = k ∧ Inv p) ?_ ?_
      ⟨rfl, inv_start⟩ events).2 hall
    · rintro p _ e ⟨rfl, h⟩
      exact iff_of_true (stepOk_react h e).proper trivial
    · rintro p _ e ⟨rfl, h⟩ -
      exact ⟨rfl, (stepOk_react h e).inv⟩
  · rintro ⟨id, hid⟩
    exact hinv.owned.held id fd hid
  · rw [Finset.eq_empty_iff_forall_notMem]
    -- an open descriptor has a holder, and there is none
    intro fd hfd
    obtain ⟨id, hid⟩ := hinv.owned.holder fd hfd
    rw [slots, hempty, Finmap.lookup_empty] at hid
    cases hid

end CppMeet.Net.Sockets
