import Mathlib.Data.List.Basic

/-!
# Framing a byte stream that arrives in pieces

A `Framing` splits one frame off the front of a buffer, or reports that the buffer does not hold a
whole one yet. The one thing it promises is prefix stability: bytes that arrive later do not change
a frame that is already complete. `drain` splits off frames until none is complete or a final one
was met, and `feedAll` appends each piece of the stream to what the one before left over and drains
again.

Whatever the pieces, the frames are those of the whole stream drained at once, and so is the rest
unless a final frame was met (`feedAll_eq_drain`).
-/

set_option autoImplicit false

namespace CppMeet.Lib.Frames

universe u v

/-- A way to split one frame off the front of a buffer, which later bytes do not change. -/
structure Framing (α : Type u) (β : Type v) where
  /-- One complete frame and the bytes behind it. -/
  next : List α → Option (β × List α)
  /-- Nothing is read behind such a frame. -/
  final : β → Bool
  next_nil : next [] = none
  stable : ∀ {buf more rest : List α} {f : β}, next buf = some (f, rest) →
    next (buf ++ more) = some (f, rest ++ more)
  shrinks : ∀ {buf rest : List α} {f : β}, next buf = some (f, rest) → final f = false →
    rest.length < buf.length

/-- The frames split off so far, the bytes left over, and whether a final frame was met. -/
structure Drained (α : Type u) (β : Type v) where
  frames : List β
  rest : List α
  ended : Bool

variable {α : Type u} {β : Type v}

/-- One more frame in front. -/
def Drained.cons (f : β) (d : Drained α β) : Drained α β := { d with frames := f :: d.frames }

variable (F : Framing α β)

/-- Frames are split off until none is complete, or one is final. -/
def drain (buf : List α) : Drained α β :=
  match h : F.next buf with
  | none => ⟨[], buf, false⟩
  | some (f, rest) =>
      if hf : F.final f then ⟨[f], rest, true⟩
      else
        have := F.shrinks h (by simpa using hf)
        (drain rest).cons f
termination_by buf.length

/-- The pieces of the stream behind the bytes `rest`. After a final frame no piece is read. -/
def feedAll (rest : List α) : List (List α) → Drained α β
  | [] => ⟨[], rest, false⟩
  | piece :: pieces =>
      let d := drain F (rest ++ piece)
      if d.ended then d
      else
        let d' := feedAll d.rest pieces
        ⟨d.frames ++ d'.frames, d'.rest, d'.ended⟩

variable {F}

/-- The turns of `drain`: no complete frame, a final one, or one with other bytes to drain behind
it. -/
@[elab_as_elim]
theorem Framing.drain_induction (F : Framing α β) {motive : List α → Prop}
    (stuck : ∀ buf, F.next buf = none → motive buf)
    (last : ∀ buf f rest, F.next buf = some (f, rest) → F.final f = true → motive buf)
    (step : ∀ buf f rest, F.next buf = some (f, rest) → F.final f = false → motive rest →
      motive buf) (buf : List α) : motive buf := by
  induction hn : buf.length using Nat.strongRecOn generalizing buf with
  | ind n ih =>
      cases hnext : F.next buf with
      | none => exact stuck buf hnext
      | some fr =>
          obtain ⟨f, rest⟩ := fr
          cases hf : F.final f with
          | true => exact last buf f rest hnext hf
          | false =>
              have hlt : rest.length < n := hn ▸ F.shrinks hnext hf
              exact step buf f rest hnext hf (ih rest.length hlt rest rfl)

theorem drain_eq (buf : List α) :
    drain F buf =
      match F.next buf with
      | none => ⟨[], buf, false⟩
      | some (f, rest) => if F.final f then ⟨[f], rest, true⟩ else (drain F rest).cons f := by
  rw [drain]
  split
  · rename_i hnext
    rw [hnext]
  · rename_i f rest hnext
    conv_rhs => rw [hnext]
    exact dite_eq_ite

/-- Without a complete frame nothing happens. -/
theorem drain_of_none {buf : List α} (h : F.next buf = none) : drain F buf = ⟨[], buf, false⟩ := by
  rw [drain_eq, h]

theorem drain_of_final {buf rest : List α} {f : β} (h : F.next buf = some (f, rest))
    (hf : F.final f = true) : drain F buf = ⟨[f], rest, true⟩ := by
  rw [drain_eq, h]
  exact if_pos hf

theorem drain_of_some {buf rest : List α} {f : β} (h : F.next buf = some (f, rest))
    (hf : F.final f = false) : drain F buf = (drain F rest).cons f := by
  rw [drain_eq, h]
  exact if_neg (Bool.eq_false_iff.1 hf)

/-- Draining a longer buffer: the frames of the first part come first, and unless one of them is
final the left-over bytes are drained together with the second part. -/
theorem drain_append (buf more : List α) :
    drain F (buf ++ more) =
      if (drain F buf).ended then { drain F buf with rest := (drain F buf).rest ++ more }
      else
        let d := drain F ((drain F buf).rest ++ more)
        ⟨(drain F buf).frames ++ d.frames, d.rest, d.ended⟩ := by
  induction buf using F.drain_induction with
  | stuck buf hnext =>
      rw [drain_of_none hnext]
      rfl
  | last buf f rest hnext hf =>
      rw [drain_of_final hnext hf, drain_of_final (F.stable hnext) hf]
      rfl
  | step buf f rest hnext hf ih =>
      rw [drain_of_some hnext hf, drain_of_some (F.stable hnext) hf, ih]
      cases hend : (drain F rest).ended with
      | true => simp [Drained.cons, hend]
      | false => simp [Drained.cons, hend]

/-- A stream that was written frame by frame is read frame by frame, where `next` reads back each
frame in front of whatever follows. -/
theorem drain_flatMap {γ : Type*} {encode : γ → List α} {frame : γ → β} {l : List γ}
    (hnext : ∀ x ∈ l, ∀ more, F.next (encode x ++ more) = some (frame x, more))
    (hfinal : ∀ x ∈ l, F.final (frame x) = false) :
    drain F (l.flatMap encode) = ⟨l.map frame, [], false⟩ := by
  induction l with
  | nil => exact drain_of_none F.next_nil
  | cons x l ih =>
      obtain ⟨hx, hl⟩ := List.forall_mem_cons.1 hnext
      obtain ⟨hfx, hfl⟩ := List.forall_mem_cons.1 hfinal
      rw [List.flatMap_cons, drain_of_some (hx (l.flatMap encode)) hfx, ih hl hfl]
      rfl

/-- A frame that is there in part is not read. -/
theorem next_of_cut {code stream : List α} {f : β} (hnext : F.next code = some (f, []))
    (h : stream <+: code) (hshort : stream.length < code.length) : F.next stream = none := by
  obtain ⟨more, rfl⟩ := h
  rw [Option.eq_none_iff_forall_ne_some]
  rintro ⟨g, rest⟩ hread
  have hwhole : F.next (stream ++ more) = some (g, rest ++ more) := F.stable hread
  rw [hnext] at hwhole
  have hnil : rest ++ more = [] := (Prod.mk.inj (Option.some.inj hwhole)).2.symm
  rw [(List.append_eq_nil_iff.1 hnil).2, List.append_nil] at hshort
  exact Nat.lt_irrefl _ hshort

/-- A stream that was written frame by frame and is there in part: its whole frames are read, and
what is left over is shorter than the frame that comes next. -/
theorem exists_drain_of_cut {γ : Type*} {encode : γ → List α} {frame : γ → β} {l : List γ}
    (hnext : ∀ x ∈ l, ∀ more, F.next (encode x ++ more) = some (frame x, more))
    (hfinal : ∀ x ∈ l, F.final (frame x) = false) {stream : List α}
    (h : stream <+: l.flatMap encode) :
    ∃ whole later left, l = whole ++ later ∧ stream = whole.flatMap encode ++ left ∧
      drain F stream = ⟨whole.map frame, left, false⟩ ∧
      ∀ x ∈ later.head?, left.length < (encode x).length := by
  induction l generalizing stream with
  | nil =>
      have hempty : stream = [] := List.prefix_nil.1 h
      rw [hempty, drain_of_none F.next_nil]
      exact ⟨[], [], [], rfl, rfl, rfl, by simp⟩
  | cons x l ih =>
      obtain ⟨hx, hl⟩ := List.forall_mem_cons.1 hnext
      obtain ⟨hfx, hfl⟩ := List.forall_mem_cons.1 hfinal
      rw [List.flatMap_cons] at h
      by_cases hshort : stream.length < (encode x).length
      · -- the first frame is cut
        have hpart : stream <+: encode x :=
          List.prefix_of_prefix_length_le h (List.prefix_append _ _) (Nat.le_of_lt hshort)
        have hcode : F.next (encode x) = some (frame x, []) := by
          have hread := hx []
          rwa [List.append_nil] at hread
        rw [drain_of_none (next_of_cut hcode hpart hshort)]
        exact ⟨[], x :: l, stream, rfl, rfl, rfl, by simpa using hshort⟩
      · obtain ⟨behind, rfl⟩ : encode x <+: stream :=
          List.prefix_of_prefix_length_le (List.prefix_append _ _) h (Nat.le_of_not_lt hshort)
        rw [List.prefix_append_right_inj] at h
        obtain ⟨whole, later, left, rfl, rfl, hdrain, hleft⟩ := ih hl hfl h
        rw [drain_of_some (hx _) hfx, hdrain]
        exact ⟨x :: whole, later, left, rfl, by simp, rfl, hleft⟩

/-- Draining ends with a final frame. -/
theorem exists_final_of_ended {buf : List α} (h : (drain F buf).ended = true) :
    ∃ f ∈ (drain F buf).frames, F.final f = true := by
  induction buf using F.drain_induction with
  | stuck buf hnext =>
      rw [drain_of_none hnext] at h
      cases h
  | last buf f rest hnext hf =>
      rw [drain_of_final hnext hf]
      exact ⟨f, List.mem_singleton.2 rfl, hf⟩
  | step buf f rest hnext hf ih =>
      rw [drain_of_some hnext hf] at h ⊢
      obtain ⟨g, hg, hfinal⟩ := ih h
      exact ⟨g, List.mem_cons_of_mem f hg, hfinal⟩

/-- What is left over holds no complete frame, unless a final frame was met. -/
theorem next_rest_eq_none (buf : List α) (h : (drain F buf).ended = false) :
    F.next (drain F buf).rest = none := by
  induction buf using F.drain_induction with
  | stuck buf hnext => rw [drain_of_none hnext, hnext]
  | last buf f rest hnext hf =>
      rw [drain_of_final hnext hf] at h
      cases h
  | step buf f rest hnext hf ih =>
      rw [drain_of_some hnext hf] at h ⊢
      exact ih h

/-- Every frame was split off the front of some buffer. -/
theorem exists_next_of_mem {buf : List α} {f : β} (hf : f ∈ (drain F buf).frames) :
    ∃ buf' rest, F.next buf' = some (f, rest) := by
  induction buf using F.drain_induction with
  | stuck buf hnext =>
      rw [drain_of_none hnext] at hf
      cases hf
  | last buf g rest hnext hfinal =>
      rw [drain_of_final hnext hfinal] at hf
      obtain rfl := List.mem_singleton.1 hf
      exact ⟨buf, rest, hnext⟩
  | step buf g rest hnext hfinal ih =>
      rw [drain_of_some hnext hfinal] at hf
      rcases List.mem_cons.1 hf with rfl | hf
      · exact ⟨buf, rest, hnext⟩
      · exact ih hf

/-- A final frame is the last one, so there is at most one. -/
theorem final_unique {buf : List α} {f g : β} (hf : f ∈ (drain F buf).frames)
    (hg : g ∈ (drain F buf).frames) (hff : F.final f = true) (hfg : F.final g = true) : f = g := by
  induction buf using F.drain_induction with
  | stuck buf hnext =>
      rw [drain_of_none hnext] at hf
      cases hf
  | last buf first rest hnext hfirst =>
      rw [drain_of_final hnext hfirst] at hf hg
      exact (List.mem_singleton.1 hf).trans (List.mem_singleton.1 hg).symm
  | step buf first rest hnext hfirst ih =>
      rw [drain_of_some hnext hfirst] at hf hg
      -- neither of them is the first frame
      have hrest : ∀ x, x ∈ first :: (drain F rest).frames → F.final x = true →
          x ∈ (drain F rest).frames := by
        intro x hx hfx
        rcases List.mem_cons.1 hx with rfl | hx
        · rw [hfirst] at hfx
          cases hfx
        · exact hx
      exact ih (hrest f hf hff) (hrest g hg hfg)

/-- The pieces of a stream give the frames of the whole stream, and leave the same bytes over
unless a final frame was met. -/
theorem feedAll_eq_drain {rest : List α} (hrest : F.next rest = none) (pieces : List (List α)) :
    (feedAll F rest pieces).frames = (drain F (rest ++ pieces.flatten)).frames ∧
      (feedAll F rest pieces).ended = (drain F (rest ++ pieces.flatten)).ended ∧
      ((drain F (rest ++ pieces.flatten)).ended = false →
        (feedAll F rest pieces).rest = (drain F (rest ++ pieces.flatten)).rest) := by
  induction pieces generalizing rest with
  | nil =>
      rw [List.flatten_nil, List.append_nil, drain_of_none hrest]
      exact ⟨rfl, rfl, fun _ => rfl⟩
  | cons piece pieces ih =>
      rw [List.flatten_cons, ← List.append_assoc, drain_append]
      cases hend : (drain F (rest ++ piece)).ended with
      | true => simp [feedAll, hend]
      | false =>
          obtain ⟨hframes, hended, hleft⟩ := ih (next_rest_eq_none (rest ++ piece) hend)
          simpa [feedAll, hend, hframes, hended] using hleft

/-! ## The buffers that are looked at -/

variable (F)

/-- The buffers on which `next` is tried while `buf` is drained. -/
def turns (buf : List α) : List (List α) :=
  match h : F.next buf with
  | none => [buf]
  | some (f, rest) =>
      if hf : F.final f then [buf]
      else
        have := F.shrinks h (by simpa using hf)
        buf :: turns rest
termination_by buf.length

/-- The buffers on which `next` is tried while the pieces of a stream are fed. -/
def feedTurns (rest : List α) : List (List α) → List (List α)
  | [] => []
  | piece :: pieces =>
      let d := drain F (rest ++ piece)
      turns F (rest ++ piece) ++ if d.ended then [] else feedTurns d.rest pieces

variable {F}

theorem turns_eq (buf : List α) :
    turns F buf =
      match F.next buf with
      | none => [buf]
      | some (f, rest) => if F.final f then [buf] else buf :: turns F rest := by
  rw [turns]
  split
  · rename_i hnext
    rw [hnext]
  · rename_i f rest hnext
    conv_rhs => rw [hnext]
    exact dite_eq_ite

theorem turns_of_none {buf : List α} (h : F.next buf = none) : turns F buf = [buf] := by
  rw [turns_eq, h]

theorem turns_of_final {buf rest : List α} {f : β} (h : F.next buf = some (f, rest))
    (hf : F.final f = true) : turns F buf = [buf] := by
  rw [turns_eq, h]
  exact if_pos hf

theorem turns_of_some {buf rest : List α} {f : β} (h : F.next buf = some (f, rest))
    (hf : F.final f = false) : turns F buf = buf :: turns F rest := by
  rw [turns_eq, h]
  exact if_neg (Bool.eq_false_iff.1 hf)

/-- The frames are what `next` finds on these buffers. -/
theorem frames_turns (buf : List α) :
    (turns F buf).filterMap (fun b => (F.next b).map Prod.fst) = (drain F buf).frames := by
  induction buf using F.drain_induction with
  | stuck buf hnext =>
      rw [turns_of_none hnext, drain_of_none hnext, List.filterMap_cons, hnext]
      rfl
  | last buf f rest hnext hf =>
      rw [turns_of_final hnext hf, drain_of_final hnext hf, List.filterMap_cons, hnext]
      rfl
  | step buf f rest hnext hf ih =>
      rw [turns_of_some hnext hf, drain_of_some hnext hf, List.filterMap_cons, hnext]
      exact congrArg (f :: ·) ih

/-- The frames are those found in the turns. -/
theorem frames_feedTurns (rest : List α) (pieces : List (List α)) :
    (feedTurns F rest pieces).filterMap (fun b => (F.next b).map Prod.fst) =
      (feedAll F rest pieces).frames := by
  induction pieces generalizing rest with
  | nil => rfl
  | cons piece pieces ih =>
      rw [feedTurns, feedAll, List.filterMap_append, frames_turns]
      cases hend : (drain F (rest ++ piece)).ended with
      | true => exact List.append_nil _
      | false => exact congrArg (_ ++ ·) (ih _)

end CppMeet.Lib.Frames
