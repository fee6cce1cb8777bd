import Mathlib.Data.List.Basic

/-!
# Bounded queues

A queue of a given capacity takes an element at its back unless it is full and gives up the one at
its front unless it is empty. `History` are the operations that lead from the empty queue to a
queue. What was taken out and what is left, in this order, is what was put in
(`History.pops_append`), and the queue never exceeds its capacity (`History.length_le`).
-/

set_option autoImplicit false

namespace CppMeet.Lib.Fifo

universe u

variable {T : Type u}

/-- A finished operation: an element put in, an element refused, an element taken out, and a
failed attempt to take one. -/
inductive Op (T : Type u) where
  | pushed (x : T)
  | refused (x : T)
  | popped (x : T)
  | starved
  deriving DecidableEq, Repr

/-- What one operation does to the queue. -/
inductive Accepts (capacity : ℕ) : List T → Op T → List T → Prop
  | pushed {q : List T} (x : T) : q.length < capacity → Accepts capacity q (.pushed x) (q ++ [x])
  | refused {q : List T} (x : T) : q.length = capacity → Accepts capacity q (.refused x) q
  | popped (x : T) (q : List T) : Accepts capacity (x :: q) (.popped x) q
  | starved : Accepts capacity [] .starved []

/-- The operations that lead from the empty queue to `q`. -/
inductive History (capacity : ℕ) : List (Op T) → List T → Prop
  | nil : History capacity [] []
  | concat {ops : List (Op T)} {q q' : List T} {op : Op T} :
      History capacity ops q → Accepts capacity q op q' → History capacity (ops ++ [op]) q'

/-- The elements put in, in order. -/
def pushes (ops : List (Op T)) : List T :=
  ops.filterMap fun
    | .pushed x => some x
    | _ => none

/-- The elements taken out, in order. -/
def pops (ops : List (Op T)) : List T :=
  ops.filterMap fun
    | .popped x => some x
    | _ => none

/-- The elements put in and not taken out yet. -/
def unpopped (ops : List (Op T)) : List T := (pushes ops).drop (pops ops).length

section Concat

variable (ops : List (Op T)) (x : T)

@[simp] theorem pushes_nil : pushes ([] : List (Op T)) = [] := rfl

@[simp] theorem pops_nil : pops ([] : List (Op T)) = [] := rfl

@[simp] theorem pushes_pushed : pushes (ops ++ [.pushed x]) = pushes ops ++ [x] := by
  simp [pushes]

@[simp] theorem pushes_refused : pushes (ops ++ [.refused x]) = pushes ops := by simp [pushes]

@[simp] theorem pushes_popped : pushes (ops ++ [.popped x]) = pushes ops := by simp [pushes]

@[simp] theorem pushes_starved : pushes (ops ++ [.starved]) = pushes ops := by simp [pushes]

@[simp] theorem pops_pushed : pops (ops ++ [.pushed x]) = pops ops := by simp [pops]

@[simp] theorem pops_refused : pops (ops ++ [.refused x]) = pops ops := by simp [pops]

@[simp] theorem pops_popped : pops (ops ++ [.popped x]) = pops ops ++ [x] := by simp [pops]

@[simp] theorem pops_starved : pops (ops ++ [.starved]) = pops ops := by simp [pops]

end Concat

variable {capacity : ℕ} {ops : List (Op T)} {q : List T}

/-- What was popped and what is queued is what was pushed. -/
theorem History.pops_append (h : History capacity ops q) : pops ops ++ q = pushes ops := by
  induction h with
  | nil => rfl
  | concat _ haccept ih =>
      cases haccept with
      | pushed x _ => rw [pops_pushed, pushes_pushed, ← ih, List.append_assoc]
      | refused x _ => rw [pops_refused, pushes_refused, ih]
      | popped x q => rw [pops_popped, pushes_popped, ← ih, List.append_assoc]; rfl
      | starved => rw [pops_starved, pushes_starved, ih]

/-- The queue is what was pushed and not popped. -/
theorem History.unpopped_eq (h : History capacity ops q) : unpopped ops = q := by
  rw [unpopped, ← h.pops_append, List.drop_left]

theorem History.length_le (h : History capacity ops q) : q.length ≤ capacity := by
  induction h with
  | nil => exact Nat.zero_le _
  | concat _ haccept ih =>
      cases haccept with
      | pushed x hroom =>
          rw [List.length_append]
          exact hroom
      | refused x _ => exact ih
      | popped x q => exact Nat.le_of_succ_le ih
      | starved => exact ih

/-- What was taken out comes first in what was put in. -/
theorem History.pops_isPrefix (h : History capacity ops q) : pops ops <+: pushes ops :=
  ⟨q, h.pops_append⟩

end CppMeet.Lib.Fifo
