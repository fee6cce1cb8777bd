import CppMeet.Lib.Fifo
import CppMeet.Lib.Run
import Mathlib.Data.Nat.ModEq

/-!
# The ring buffer of the network core

A single-producer single-consumer ring buffer of `2 ^ k` slots. `push` and `pop` are broken into
their loads, stores and slot accesses, and a run interleaves the steps of one thread that pushes
with those of one thread that pops. The log records what the calls return, a successful call when it
publishes its index and a failing one when it loads the other thread's index; the source does not
keep it.
-/

set_option autoImplicit false

namespace CppMeet.Net.RingBuffer

open CppMeet.Lib.Fifo

universe u

variable {T : Type u}

section Indexes

variable (k : Fin 64)

/-- `N`, a power of two. -/
def slots : UInt64 := 1 <<< UInt64.ofNat k

/-- `(h + 1) & (N - 1)`. -/
def next (h : UInt64) : UInt64 := (h + 1) &&& (slots k - 1)

end Indexes

/-- Where `push(item)` stands: the next step is to load `head_`, to load `tail_` and compare, to
write the slot, or to store `head_`. -/
inductive PushPc (T : Type u) where
  | idle
  | loadedHead (item : T) (h : UInt64)
  | checked (item : T) (h nextH : UInt64)
  | written (item : T) (nextH : UInt64)

/-- Where `pop` stands: the next step is to load `tail_`, to load `head_` and compare, to read the
slot, or to store `tail_`. -/
inductive PopPc (T : Type u) where
  | idle
  | loadedTail (t : UInt64)
  | checked (t : UInt64)
  | read (item : T) (t : UInt64)

/-- The indexes and the slots, where the two calls stand, and the log. -/
structure State (T : Type u) where
  head : UInt64 := 0
  tail : UInt64 := 0
  buf : UInt64 → T
  producer : PushPc T := .idle
  consumer : PopPc T := .idle
  log : List (Op T) := []

/-- The thread that takes the next step; `item` is the argument of the call of `push` that the step
begins, if it begins one. -/
inductive Event (T : Type u) where
  | push (item : T)
  | pop

variable (k : Fin 64)

/-- The next step of `push`. -/
def pushStep (s : State T) (item : T) : State T :=
  match s.producer with
  | .idle => { s with producer := .loadedHead item s.head }
  | .loadedHead item h =>
      -- the load of `tail_` and the comparison with it are one step
      if next k h = s.tail then { s with producer := .idle, log := s.log ++ [.refused item] }
      else { s with producer := .checked item h (next k h) }
  | .checked item h nextH =>
      { s with buf := Function.update s.buf h item, producer := .written item nextH }
  | .written item nextH =>
      { s with head := nextH, producer := .idle, log := s.log ++ [.pushed item] }

/-- The next step of `pop`. -/
def popStep (s : State T) : State T :=
  match s.consumer with
  | .idle => { s with consumer := .loadedTail s.tail }
  | .loadedTail t =>
      -- the load of `head_` and the comparison with it are one step
      if t = s.head then { s with consumer := .idle, log := s.log ++ [.starved] }
      else { s with consumer := .checked t }
  | .checked t => { s with consumer := .read (s.buf t) t }
  | .read item t =>
      { s with tail := next k t, consumer := .idle, log := s.log ++ [.popped item] }

/-- The step of one of the threads. -/
def step (s : State T) : Event T → State T
  | .push item => pushStep k s item
  | .pop => popStep k s

/-- `empty()`: the indexes are equal. -/
def empty (s : State T) : Bool := s.head = s.tail

/-- `full()`: the next slot of the producer is the consumer's. -/
def full (s : State T) : Bool := next k s.head = s.tail

/-- `size()`: how far the producer is ahead, modulo `N`. -/
def size (s : State T) : UInt64 := (s.head - s.tail + slots k) &&& (slots k - 1)

/-! ## Indexes as numbers -/

/-- The number of slots fits the index type. -/
theorem pow_lt : 2 ^ (k : ℕ) < 2 ^ 64 := Nat.pow_lt_pow_right (by decide) k.isLt

theorem slots_toNat : (slots k).toNat = 2 ^ (k : ℕ) := by
  have hk : (k : ℕ) % 2 ^ 64 = k := Nat.mod_eq_of_lt (Nat.lt_trans k.isLt (by decide))
  have hk' : (k : ℕ) % 64 = k := Nat.mod_eq_of_lt k.isLt
  rw [slots, UInt64.toNat_shiftLeft, UInt64.toNat_ofNat', hk, hk', UInt64.toNat_one,
    Nat.one_shiftLeft, Nat.mod_eq_of_lt (pow_lt k)]

/-- Masking with `N - 1` is reducing modulo `N`. -/
theorem and_mask_toNat (v : UInt64) : (v &&& (slots k - 1)).toNat = v.toNat % 2 ^ (k : ℕ) := by
  have hpos : 1 ≤ (slots k).toNat := by
    rw [slots_toNat]
    exact Nat.one_le_two_pow
  have hmask : (slots k - 1).toNat = 2 ^ (k : ℕ) - 1 := by
    have hle : 1 ≤ slots k := UInt64.le_iff_toNat_le.2 (by rwa [UInt64.toNat_one])
    rw [UInt64.toNat_sub_of_le _ _ hle, slots_toNat, UInt64.toNat_one]
  rw [UInt64.toNat_and, hmask, Nat.and_two_pow_sub_one_eq_mod]

/-- The slot of the `i`-th element, counting from the first one ever pushed. -/
def slot (i : ℕ) : UInt64 := UInt64.ofNat (i % 2 ^ (k : ℕ))

theorem slot_toNat (i : ℕ) : (slot k i).toNat = i % 2 ^ (k : ℕ) := by
  have hlt : i % 2 ^ (k : ℕ) < 2 ^ 64 := Nat.lt_trans (Nat.mod_lt i (Nat.two_pow_pos k)) (pow_lt k)
  rw [slot, UInt64.toNat_ofNat', Nat.mod_eq_of_lt hlt]

theorem slot_lt (i : ℕ) : slot k i < slots k := by
  rw [UInt64.lt_iff_toNat_lt, slot_toNat, slots_toNat]
  exact Nat.mod_lt i (Nat.two_pow_pos k)

/-- The slot behind the one of element `i` is the one of element `i + 1`. -/
theorem next_slot (i : ℕ) : next k (slot k i) = slot k (i + 1) := by
  have hk : 2 ^ (k : ℕ) ≤ 2 ^ 63 := Nat.pow_le_pow_right (by decide) (Nat.le_of_lt_succ k.isLt)
  have hlt : i % 2 ^ (k : ℕ) + 1 < 2 ^ 64 := by
    have hmod := Nat.mod_lt i (Nat.two_pow_pos k)
    omega
  rw [← UInt64.toNat_inj, next, and_mask_toNat, UInt64.toNat_add, slot_toNat, slot_toNat,
    UInt64.toNat_one, Nat.mod_eq_of_lt hlt, Nat.mod_add_mod]

/-- Elements less than `N` apart have different slots. -/
theorem slot_inj {b i j : ℕ} (hi : i < 2 ^ (k : ℕ)) (hj : j < 2 ^ (k : ℕ)) :
    slot k (b + i) = slot k (b + j) ↔ i = j := by
  rw [← UInt64.toNat_inj, slot_toNat, slot_toNat]
  constructor
  · intro h
    exact (Nat.ModEq.add_left_cancel' b h).eq_of_lt_of_lt hi hj
  · rintro rfl
    rfl

theorem slot_add_slots (b : ℕ) : slot k (b + 2 ^ (k : ℕ)) = slot k b := by
  rw [slot, slot, Nat.add_mod_right]

/-- The distance between two indexes is the number of elements between them. -/
theorem sub_slot {b d : ℕ} (hd : d < 2 ^ (k : ℕ)) :
    ((slot k (b + d) - slot k b + slots k) &&& (slots k - 1)).toNat = d := by
  have hk : 2 ^ (k : ℕ) ≤ 2 ^ 63 := Nat.pow_le_pow_right (by decide) (Nat.le_of_lt_succ k.isLt)
  have ht := Nat.mod_lt b (Nat.two_pow_pos k)
  rw [and_mask_toNat, UInt64.toNat_add, UInt64.toNat_sub, slot_toNat, slot_toNat, slots_toNat]
  rcases Nat.lt_or_ge (b % 2 ^ (k : ℕ) + d) (2 ^ (k : ℕ)) with hlt | hge
  · -- the indexes lie in order
    have hhead : (b + d) % 2 ^ (k : ℕ) = b % 2 ^ (k : ℕ) + d := by
      rw [Nat.add_mod, Nat.mod_eq_of_lt hd, Nat.mod_eq_of_lt hlt]
    have hsum :
        ((2 ^ 64 - b % 2 ^ (k : ℕ) + (b + d) % 2 ^ (k : ℕ)) % 2 ^ 64 + 2 ^ (k : ℕ)) % 2 ^ 64 =
          d + 2 ^ (k : ℕ) := by
      rw [hhead]
      omega
    rw [hsum, Nat.add_mod_right, Nat.mod_eq_of_lt hd]
  · -- the index of the producer has wrapped and the subtraction wraps with it
    have hhead : (b + d) % 2 ^ (k : ℕ) = b % 2 ^ (k : ℕ) + d - 2 ^ (k : ℕ) := by
      rw [Nat.add_mod, Nat.mod_eq_of_lt hd, Nat.mod_eq_sub_mod hge, Nat.mod_eq_of_lt (by omega)]
    have hsum :
        ((2 ^ 64 - b % 2 ^ (k : ℕ) + (b + d) % 2 ^ (k : ℕ)) % 2 ^ 64 + 2 ^ (k : ℕ)) % 2 ^ 64 =
          d := by
      rw [hhead]
      omega
    rw [hsum, Nat.mod_eq_of_lt hd]

end CppMeet.Net.RingBuffer
