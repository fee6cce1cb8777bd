import Mathlib.Data.List.Basic

/-!
# Runs of a deterministic machine

A machine is a transition function `step : σ → ι → σ` on states `σ` and inputs `ι`. `run` folds it
over an input list. `Along P s l` says that `P` holds of every step of the run from `s` over `l`,
where a step is the pair of the state before it and its input; `P` may mention `step` and so the
state after the step as well.

The rules below reduce a statement about whole runs to one about a single step: `inv_run` and
`along_of_inv` carry an invariant through a run, and `along_congr` exchanges a condition on the
steps for another one that is equivalent to it wherever the invariant holds.

`trace` is what a machine puts out along a run, and `along_trace_iff` reduces a property of the
trace that a monitor decides to one of the single steps. A monitor that some output resets judges
the stretches between these one by one (`along_restart_iff`).
-/

set_option autoImplicit false

namespace CppMeet.Lib.Run

universe u v

variable {σ : Type u} {ι : Type v} (step : σ → ι → σ)

/-- The state after the inputs `l`, in order. -/
def run (s : σ) (l : List ι) : σ := l.foldl step s

@[simp] theorem run_nil (s : σ) : run step s [] = s := rfl

@[simp] theorem run_cons (s : σ) (i : ι) (l : List ι) :
    run step s (i :: l) = run step (step s i) l := rfl

theorem run_append (s : σ) (l l' : List ι) :
    run step s (l ++ l') = run step (run step s l) l' := List.foldl_append

theorem run_concat (s : σ) (l : List ι) (i : ι) :
    run step s (l ++ [i]) = step (run step s l) i := run_append step s l [i]

/-- Every step of the run from `s` over the inputs satisfies `P`. -/
def Along (P : σ → ι → Prop) : σ → List ι → Prop
  | _, [] => True
  | s, i :: l => P s i ∧ Along P (step s i) l

variable {step} {P Q : σ → ι → Prop} {I : σ → Prop}

@[simp] theorem along_nil (s : σ) : Along step P s [] := trivial

@[simp] theorem along_cons (s : σ) (i : ι) (l : List ι) :
    Along step P s (i :: l) ↔ P s i ∧ Along step P (step s i) l := Iff.rfl

theorem along_append (s : σ) (l l' : List ι) :
    Along step P s (l ++ l') ↔ Along step P s l ∧ Along step P (run step s l) l' := by
  induction l generalizing s with
  | nil => simp
  | cons i l ih => simp only [List.cons_append, along_cons, run_cons, ih, and_assoc]

/-- A condition along a run with one more input. -/
theorem along_concat (s : σ) (l : List ι) (i : ι) :
    Along step P s (l ++ [i]) ↔ Along step P s l ∧ P (run step s l) i := by
  rw [along_append, along_cons]
  exact and_congr_right fun _ => and_iff_left (along_nil _)

/-- `Along` speaks of the steps one by one: the step on `i` is made in the state that the inputs
before it lead to. -/
theorem along_iff_split (s : σ) (l : List ι) :
    Along step P s l ↔ ∀ pre i post, l = pre ++ i :: post → P (run step s pre) i := by
  constructor
  · rintro h pre i post rfl
    rw [along_append] at h
    exact h.2.1
  · intro h
    induction l generalizing s with
    | nil => exact along_nil s
    | cons i l ih =>
        refine ⟨h [] i l rfl, ih (step s i) fun pre j post hl => ?_⟩
        exact h (i :: pre) j post (by rw [hl]; rfl)

/-- An invariant of the steps that satisfy `P` holds at the end of a run along `P`. -/
theorem inv_run (hstep : ∀ s i, I s → P s i → I (step s i)) {s : σ} {l : List ι}
    (hs : I s) (hl : Along step P s l) : I (run step s l) := by
  induction l generalizing s with
  | nil => exact hs
  | cons i l ih => exact ih (hstep s i hs hl.1) hl.2

/-- A property of the single steps that start in an invariant state holds along the run. -/
theorem along_of_inv (hstep : ∀ s i, I s → P s i → I (step s i))
    (hQ : ∀ s i, I s → P s i → Q s i) {s : σ} {l : List ι}
    (hs : I s) (hl : Along step P s l) : Along step Q s l := by
  induction l generalizing s with
  | nil => exact along_nil s
  | cons i l ih => exact ⟨hQ s i hs hl.1, ih (hstep s i hs hl.1) hl.2⟩

/-- Progress of one party among several. What it has begun goes on through the steps of the others,
which do not change the number of own steps left before the last one; an own step finishes it or
lowers that number. So among more own steps than were left there is the one that finishes it. -/
theorem exists_finishing {own : ι → Bool} {Busy : σ → Prop} {left : σ → ℕ} {Finishes : σ → ι → Prop}
    (hother : ∀ s i, Busy s → own i = false → Busy (step s i) ∧ left (step s i) = left s)
    (hown : ∀ s i, Busy s → own i = true →
      Finishes s i ∨ Busy (step s i) ∧ left (step s i) < left s)
    {s : σ} {l : List ι} (hs : Busy s) (hl : left s < l.countP own) :
    ∃ pre i post, l = pre ++ i :: post ∧ own i = true ∧ Finishes (run step s pre) i := by
  induction l generalizing s with
  | nil => exact absurd hl (Nat.not_lt_zero _)
  | cons i l ih =>
      -- what the rest of the run finishes, the whole run finishes
      have hrest (hbusy : Busy (step s i)) (hleft : left (step s i) < l.countP own) :
          ∃ pre j post, i :: l = pre ++ j :: post ∧ own j = true ∧
            Finishes (run step s pre) j := by
        obtain ⟨pre, j, post, rfl, hj, hfin⟩ := ih hbusy hleft
        exact ⟨i :: pre, j, post, rfl, hj, hfin⟩
      cases hi : own i with
      | false =>
          rw [List.countP_cons_of_neg (by rw [hi]; exact Bool.false_ne_true)] at hl
          obtain ⟨hbusy, hsame⟩ := hother s i hs hi
          exact hrest hbusy (hsame ▸ hl)
      | true =>
          rw [List.countP_cons_of_pos hi] at hl
          rcases hown s i hs hi with hfin | ⟨hbusy, hless⟩
          · exact ⟨[], i, l, rfl, hi, hfin⟩
          · exact hrest hbusy (by omega)

/-- Two step conditions that agree in invariant states, the first of which keeps the invariant,
agree along every run from an invariant state. -/
theorem along_congr (hstep : ∀ s i, I s → P s i → I (step s i))
    (hPQ : ∀ s i, I s → (P s i ↔ Q s i)) {s : σ} (hs : I s) (l : List ι) :
    Along step P s l ↔ Along step Q s l := by
  constructor
  · exact along_of_inv hstep (fun s i hs => (hPQ s i hs).1) hs
  · intro hl
    refine along_of_inv (I := I) (P := Q) ?_ (fun s i hs => (hPQ s i hs).2) hs hl
    exact fun s i hs hQ => hstep s i hs ((hPQ s i hs).2 hQ)

theorem along_and_iff {s : σ} {l : List ι} :
    Along step (fun s i => P s i ∧ Q s i) s l ↔ Along step P s l ∧ Along step Q s l := by
  induction l generalizing s with
  | nil => exact iff_of_true (along_nil s) ⟨along_nil s, along_nil s⟩
  | cons i l ih =>
      rw [along_cons, along_cons, along_cons, ih]
      exact and_and_and_comm

theorem along_forall_iff {κ : Sort*} {P : κ → σ → ι → Prop} {s : σ} {l : List ι} :
    Along step (fun s i => ∀ k, P k s i) s l ↔ ∀ k, Along step (P k) s l := by
  induction l generalizing s with
  | nil => exact iff_of_true (along_nil s) fun _ => along_nil s
  | cons i l ih =>
      simp only [along_cons, ih]
      exact forall_and.symm

/-- Every run satisfies a condition that always holds. -/
theorem along_of_forall (h : ∀ s i, P s i) (s : σ) (l : List ι) : Along step P s l := by
  induction l generalizing s with
  | nil => exact along_nil s
  | cons i l ih => exact ⟨h s i, ih _⟩

/-- A condition on the inputs alone. -/
theorem along_inputs_iff {A : ι → Prop} (s : σ) (l : List ι) :
    Along step (fun _ => A) s l ↔ ∀ i ∈ l, A i := by
  induction l generalizing s with
  | nil => exact iff_of_true (along_nil s) (List.forall_mem_nil A)
  | cons i l ih => rw [along_cons, ih, List.forall_mem_cons]

/-- Inputs that leave a state alone. -/
theorem run_eq_self {s : σ} {l : List ι} (h : ∀ i ∈ l, step s i = s) : run step s l = s := by
  induction l with
  | nil => rfl
  | cons i l ih =>
      obtain ⟨hi, hl⟩ := List.forall_mem_cons.1 h
      rw [run_cons, hi]
      exact ih hl

/-- Inputs that do nothing can be looked at one by one. -/
theorem along_iff_of_eq_self {s : σ} {l : List ι} (h : ∀ i ∈ l, step s i = s) :
    Along step P s l ↔ ∀ i ∈ l, P s i := by
  induction l with
  | nil => exact iff_of_true (along_nil s) (List.forall_mem_nil _)
  | cons i l ih =>
      obtain ⟨hi, hl⟩ := List.forall_mem_cons.1 h
      rw [along_cons, hi, ih hl, List.forall_mem_cons]

/-- A machine that an input puts back into one state, whatever it did before: the stretches of a run
between these inputs can be judged one by one. -/
theorem along_restart_iff [DecidableEq ι] {r : ι} {t : σ} (hstep : ∀ s, step s r = t)
    (hP : ∀ s, P s r) (s : σ) (l : List ι) :
    Along step P s l ↔ Along step P s (l.takeWhile (· ≠ r)) ∧
      ∀ rest, r :: rest <:+ l → Along step P t (rest.takeWhile (· ≠ r)) := by
  induction l generalizing s with
  | nil =>
      refine iff_of_true (along_nil s) ⟨along_nil s, fun rest hrest => ?_⟩
      cases List.suffix_nil.1 hrest
  | cons i l ih =>
      simp only [List.suffix_cons_iff, or_imp, forall_and, along_cons, ih (step s i)]
      by_cases hi : i = r
      · rw [List.takeWhile_cons_of_neg (by simpa using hi), hi, hstep]
        have hhead : (∀ rest, r :: rest = r :: l → Along step P t (rest.takeWhile (· ≠ r))) ↔
            Along step P t (l.takeWhile (· ≠ r)) := by
          simp only [List.cons.injEq, true_and, forall_eq]
        rw [hhead, and_iff_right (hP s), and_iff_right (along_nil s)]
      · have hhead : ∀ rest, r :: rest = i :: l → Along step P t (rest.takeWhile (· ≠ r)) :=
          fun rest heq => absurd (List.cons.inj heq).1.symm hi
        rw [List.takeWhile_cons_of_pos (by simpa using hi), along_cons, and_iff_right hhead,
          and_assoc]

variable (step P Q) in
/-- At some step of the run `P` held, and at every later step `Q` did. -/
def Since (s : σ) (l : List ι) : Prop :=
  ∃ pre i post, l = pre ++ i :: post ∧ P (run step s pre) i ∧
    Along step Q (run step s (pre ++ [i])) post

/-- One more step starts anew or goes on. -/
theorem since_concat (s : σ) (l : List ι) (j : ι) :
    Since step P Q s (l ++ [j]) ↔
      P (run step s l) j ∨ Since step P Q s l ∧ Q (run step s l) j := by
  constructor
  · rintro ⟨pre, i, post, hl, hi, hpost⟩
    rcases List.eq_nil_or_concat post with rfl | ⟨post, j', rfl⟩
    · obtain ⟨rfl, hij⟩ := List.append_inj' hl rfl
      obtain rfl := List.singleton_inj.1 hij
      exact Or.inl hi
    · rw [List.concat_eq_append, ← List.cons_append, ← List.append_assoc] at hl
      obtain ⟨rfl, hij⟩ := List.append_inj' hl rfl
      obtain rfl := List.singleton_inj.1 hij
      rw [List.concat_eq_append, along_concat, ← run_append, List.append_assoc,
        List.singleton_append] at hpost
      exact Or.inr ⟨⟨pre, i, post, rfl, hi, hpost.1⟩, hpost.2⟩
  · rintro (hj | ⟨⟨pre, i, post, rfl, hi, hpost⟩, hj⟩)
    · exact ⟨l, j, [], rfl, hj, along_nil _⟩
    · refine ⟨pre, i, post ++ [j], by simp, hi, ?_⟩
      rw [along_concat, ← run_append, List.append_assoc, List.singleton_append]
      exact ⟨hpost, hj⟩

instance [∀ s i, Decidable (P s i)] : ∀ (s : σ) (l : List ι), Decidable (Along step P s l)
  | _, [] => isTrue trivial
  | s, i :: l =>
      have : Decidable (Along step P (step s i) l) := instDecidableAlong (step s i) l
      inferInstanceAs (Decidable (_ ∧ _))

/-! ## Machines that can fail -/

/-- A machine with exceptions, of whose states a view `v` is enough to tell which steps succeed,
gets through exactly the inputs whose steps all do. -/
theorem exists_foldlM_iff {β ε : Type*} {f : β → ι → Except ε β} {v : β → σ}
    (hok : ∀ b i, (∃ b', f b i = .ok b') ↔ P (v b) i)
    (hview : ∀ b i b', f b i = .ok b' → v b' = step (v b) i) (b : β) (l : List ι) :
    (∃ b', l.foldlM f b = .ok b') ↔ Along step P (v b) l := by
  induction l generalizing b with
  | nil => exact iff_of_true ⟨b, rfl⟩ (along_nil _)
  | cons i l ih =>
      rw [List.foldlM_cons, along_cons, ← hok]
      cases hstep : f b i with
      | error e =>
          refine iff_of_false ?_ ?_
          · rintro ⟨b', h⟩
            cases h
          · rintro ⟨⟨b', h⟩, -⟩
            cases h
      | ok b' =>
          rw [← hview b i b' hstep, ← ih, and_iff_right ⟨b', rfl⟩]
          rfl

/-! ## Machines with output -/

section Trace

universe w x

variable (step) {α : Type w} (out : σ → ι → List α)

/-- Everything that is put out along the run from `s` over the inputs. -/
def trace : σ → List ι → List α
  | _, [] => []
  | s, i :: l => out s i ++ trace (step s i) l

variable {step out} {μ : Type x} {mon : μ → α → μ} {O : μ → α → Prop} {R : σ → μ → Prop}

/-- A monitor `mon` reads the output. If at each step it accepts what is put out exactly when `Q`
holds of the step, and follows the machine as long as it accepts, then it accepts the output of a
run exactly when `Q` holds along it. -/
theorem along_trace_iff
    (hout : ∀ s m i, R s m → (Along mon O m (out s i) ↔ Q s i))
    (hstep : ∀ s m i, R s m → Q s i → R (step s i) (run mon m (out s i)))
    {s : σ} {m : μ} (h : R s m) (l : List ι) :
    Along mon O m (trace step out s l) ↔ Along step Q s l := by
  induction l generalizing s m with
  | nil => exact iff_of_true (along_nil m) (along_nil s)
  | cons i l ih =>
      rw [trace, along_append, along_cons, hout s m i h]
      exact and_congr_right fun hq => ih (hstep s m i h hq)

theorem trace_append (s : σ) (l l' : List ι) :
    trace step out s (l ++ l') = trace step out s l ++ trace step out (run step s l) l' := by
  induction l generalizing s with
  | nil => rfl
  | cons i l ih => rw [List.cons_append, trace, trace, run_cons, ih, List.append_assoc]

/-- The output of a run with one more input. -/
theorem trace_concat (s : σ) (l : List ι) (i : ι) :
    trace step out s (l ++ [i]) = trace step out s l ++ out (run step s l) i := by
  rw [trace_append, trace, trace, List.append_nil]

/-- Everything that is put out is put out by some step. -/
theorem mem_trace_iff {s : σ} {l : List ι} {a : α} :
    a ∈ trace step out s l ↔ ∃ pre i post, l = pre ++ i :: post ∧ a ∈ out (run step s pre) i := by
  constructor
  · induction l generalizing s with
    | nil => exact fun ha => absurd ha List.not_mem_nil
    | cons i l ih =>
        intro ha
        rcases List.mem_append.1 ha with hfirst | hrest
        · exact ⟨[], i, l, rfl, hfirst⟩
        · obtain ⟨pre, j, post, rfl, hout⟩ := ih hrest
          exact ⟨i :: pre, j, post, rfl, hout⟩
  · rintro ⟨pre, i, post, rfl, hout⟩
    rw [trace_append, trace]
    exact List.mem_append_right _ (List.mem_append_left _ hout)

/-- Looking at a part of the output. -/
theorem filterMap_trace {β : Type*} (f : α → Option β) (s : σ) (l : List ι) :
    (trace step out s l).filterMap f = trace step (fun s i => (out s i).filterMap f) s l := by
  induction l generalizing s with
  | nil => rfl
  | cons i l ih => rw [trace, List.filterMap_append, ih, trace]

/-- Two outputs that agree in invariant states are the same along a run. -/
theorem trace_congr {out' : σ → ι → List α} (hstep : ∀ s i, I s → P s i → I (step s i))
    (hout : ∀ s i, I s → P s i → out' s i = out s i) {s : σ} {l : List ι} (hs : I s)
    (hl : Along step P s l) : trace step out' s l = trace step out s l := by
  induction l generalizing s with
  | nil => rfl
  | cons i l ih => rw [trace, trace, hout s i hs hl.1, ih (hstep s i hs hl.1) hl.2]

/-- What holds of the output of every step that starts in an invariant state holds of the trace. -/
theorem forall_mem_trace {A : α → Prop} (hstep : ∀ s i, I s → P s i → I (step s i))
    (hout : ∀ s i, I s → P s i → ∀ a ∈ out s i, A a) {s : σ} {l : List ι} (hs : I s)
    (hl : Along step P s l) : ∀ a ∈ trace step out s l, A a := by
  induction l generalizing s with
  | nil => exact fun a ha => absurd ha List.not_mem_nil
  | cons i l ih =>
      intro a ha
      rcases List.mem_append.1 ha with hfirst | hrest
      · exact hout s i hs hl.1 a hfirst
      · exact ih (hstep s i hs hl.1) hl.2 a hrest

theorem filter_trace (p : α → Bool) (s : σ) (l : List ι) :
    (trace step out s l).filter p = trace step (fun s i => (out s i).filter p) s l := by
  induction l generalizing s with
  | nil => rfl
  | cons i l ih => rw [trace, List.filter_append, ih, trace]

theorem map_trace {β : Type*} (f : α → β) (s : σ) (l : List ι) :
    (trace step out s l).map f = trace step (fun s i => (out s i).map f) s l := by
  induction l generalizing s with
  | nil => rfl
  | cons i l ih => rw [trace, List.map_append, ih, trace]

theorem flatMap_trace {β : Type*} (f : α → List β) (s : σ) (l : List ι) :
    (trace step out s l).flatMap f = trace step (fun s i => (out s i).flatMap f) s l := by
  induction l generalizing s with
  | nil => rfl
  | cons i l ih => rw [trace, List.flatMap_append, ih, trace]

/-- What goes into a buffer at its end and comes out at its front passes through in order. -/
theorem trace_buffer {buffer : σ → List α} {into : σ → ι → List α}
    (h : ∀ s i, P s i → buffer s ++ into s i = out s i ++ buffer (step s i)) {s : σ} {l : List ι}
    (hl : Along step P s l) :
    buffer s ++ trace step into s l = trace step out s l ++ buffer (run step s l) := by
  induction l generalizing s with
  | nil => exact List.append_nil _
  | cons i l ih =>
      calc buffer s ++ (into s i ++ trace step into (step s i) l)
          = out s i ++ (buffer (step s i) ++ trace step into (step s i) l) := by
            rw [← List.append_assoc, h s i hl.1, List.append_assoc]
        _ = out s i ++ trace step out (step s i) l ++ buffer (run step s (i :: l)) := by
            rw [ih hl.2, List.append_assoc, run_cons]

/-- Two machines of which the second does on the images of states and inputs what the first does,
and puts out the same, cannot be told apart by their output. -/
theorem trace_map {τ κ : Type*} {step' : τ → κ → τ} {out' : τ → κ → List α} (f : σ → τ)
    (g : ι → κ) (hstep : ∀ s i, step' (f s) (g i) = f (step s i))
    (hout : ∀ s i, out' (f s) (g i) = out s i) (s : σ) (l : List ι) :
    trace step' out' (f s) (l.map g) = trace step out s l := by
  induction l generalizing s with
  | nil => rfl
  | cons i l ih => rw [List.map_cons, trace, hout, hstep, ih, trace]

/-- The monitor follows the machine to the end of such a run. -/
theorem rel_run_trace (hstep : ∀ s m i, R s m → Q s i → R (step s i) (run mon m (out s i)))
    {s : σ} {m : μ} (h : R s m) {l : List ι} (hl : Along step Q s l) :
    R (run step s l) (run mon m (trace step out s l)) := by
  induction l generalizing s m with
  | nil => exact h
  | cons i l ih =>
      rw [trace, run_cons, run_append]
      exact ih (hstep s m i h hl.1) hl.2

end Trace

end CppMeet.Lib.Run
