import CppMeet.Lib.FileStream
import Mathlib.Data.UInt

/-!
# The file audio source

`AudioCapturerFile` reads raw PCM from a file and hands out a frame of 960 samples every 20 ms. At
the end of the file it starts again; a short frame is filled up with zeros, and without a file all
samples are zero.

So every pass hands out all samples of the file once and in order, followed by the zeros that fill
up its last frame (`capture_loops`).
-/

set_option autoImplicit false

namespace CppMeet.Audio.Capturer

open CppMeet.Lib.FileStream

/-- The samples of one frame and the time it was captured at, in milliseconds. -/
structure PcmFrame where
  samples : List Int16
  timestampMs : UInt32
  deriving DecidableEq, Repr

/-- Samples in a frame: 20 ms at 48 kHz, for one channel. -/
def frameSamples : ℕ := 960

/-- How far the clock of the capturer moves from one frame to the next. -/
def frameMs : UInt32 := 20

/-- The samples in a buffer of bytes, on a little-endian machine; half a sample is dropped. -/
def samplesOf : List UInt8 → List Int16
  | lo :: hi :: bytes => (hi.toUInt16 <<< 8 ||| lo.toUInt16).toInt16 :: samplesOf bytes
  | _ => []

/-- `std::vector::resize`. -/
def resize {α : Type*} (l : List α) (n : ℕ) (value : α) : List α :=
  l.take n ++ List.replicate (n - l.length) value

/-- The local variables of the capture thread. -/
structure AudioCapturerFile where
  /-- Nothing if the file could not be opened. -/
  file : Option (IFStream UInt8)
  tsMs : UInt32 := 0

/-- `Start`: the file is opened, and its content is `none` if that fails. -/
def start (content : Option (List UInt8)) : AudioCapturerFile where
  file := content.map fun bytes => { content := bytes }

/-- One round of the loop, up to the callback and the pause. -/
def nextFrame (s : AudioCapturerFile) : PcmFrame × AudioCapturerFile :=
  match s.file with
  | some file =>
      -- `frame.samples` holds 2 * 960 bytes
      let got := readOrRewind file (frameSamples * 2)
      ({ samples := resize (samplesOf got.1) frameSamples 0, timestampMs := s.tsMs },
        { file := some got.2, tsMs := s.tsMs + frameMs })
  | none =>
      ({ samples := List.replicate frameSamples 0, timestampMs := s.tsMs },
        { file := none, tsMs := s.tsMs + frameMs })

/-- The frames that the callback is given before `stop`. -/
def capture (s : AudioCapturerFile) : ℕ → List PcmFrame
  | 0 => []
  | n + 1 => (nextFrame s).1 :: capture (nextFrame s).2 n

/-! ## Samples -/

section Samples

variable {α : Type*}

/-- A longer buffer is a shorter one and what is behind it. -/
theorem resize_add (l : List α) (n k : ℕ) (value : α) :
    resize l (n + k) value = resize l n value ++ resize (l.drop n) k value := by
  rcases Nat.le_total n l.length with hle | hle
  · have hfirst : n - l.length = 0 := by omega
    rw [resize, resize, resize, List.take_add, hfirst, List.replicate_zero, List.append_nil,
      List.append_assoc, List.length_drop, Nat.sub_sub_right k hle, Nat.add_comm k n]
  · have hsplit : n + k - l.length = n - l.length + k := by omega
    rw [resize, resize, resize, List.drop_eq_nil_of_le hle, List.take_of_length_le hle,
      List.take_of_length_le (by omega), hsplit, List.take_nil, List.nil_append, List.length_nil,
      Nat.sub_zero, List.append_assoc, List.replicate_append_replicate]

/-- A list that fits is filled up with the value. -/
theorem resize_of_le {l : List α} {n : ℕ} (h : l.length ≤ n) (value : α) :
    resize l n value = l ++ List.replicate (n - l.length) value := by
  rw [resize, List.take_of_length_le h]

/-- What lies behind the new size does not matter. -/
theorem resize_take (l : List α) (n : ℕ) (value : α) : resize (l.take n) n value =
    resize l n value := by
  rw [resize, resize, List.take_take, Nat.min_self, List.length_take]
  congr 2
  omega

theorem length_resize (l : List α) (n : ℕ) (value : α) : (resize l n value).length = n := by
  rw [resize, List.length_append, List.length_take, List.length_replicate]
  omega

end Samples

@[simp] theorem samplesOf_nil : samplesOf [] = [] := by simp [samplesOf]

@[simp] theorem samplesOf_half (lo : UInt8) : samplesOf [lo] = [] := by simp [samplesOf]

/-- Two bytes make a sample; an odd one is dropped. -/
theorem length_samplesOf (bytes : List UInt8) : (samplesOf bytes).length = bytes.length / 2 := by
  induction bytes using samplesOf.induct with
  | case1 lo hi bytes ih =>
      rw [samplesOf, List.length_cons, ih, List.length_cons, List.length_cons]
      omega
  | case2 bytes h =>
      rcases bytes with _ | ⟨lo, _ | ⟨hi, bytes⟩⟩
      · simp
      · simp
      · exact absurd rfl (h lo hi bytes)

/-- Whole samples are dropped with their bytes. -/
theorem samplesOf_drop (bytes : List UInt8) (n : ℕ) :
    samplesOf (bytes.drop (n * 2)) = (samplesOf bytes).drop n := by
  induction n generalizing bytes with
  | zero => rfl
  | succ n ih =>
      rcases bytes with _ | ⟨lo, _ | ⟨hi, bytes⟩⟩
      · simp
      · simp [Nat.succ_mul]
      · rw [samplesOf, List.drop_succ_cons, ← ih, Nat.succ_mul]
        rfl

/-- Whole samples are taken with their bytes. -/
theorem samplesOf_take (bytes : List UInt8) (n : ℕ) :
    samplesOf (bytes.take (n * 2)) = (samplesOf bytes).take n := by
  induction n generalizing bytes with
  | zero => simp
  | succ n ih =>
      rcases bytes with _ | ⟨lo, _ | ⟨hi, bytes⟩⟩
      · simp
      · simp [Nat.succ_mul]
      · rw [Nat.succ_mul, List.take_succ_cons, List.take_succ_cons, samplesOf, samplesOf,
          List.take_succ_cons, ih]

/-! ## Frames -/

/-- The frames of an open file hold what the blocks read from it hold, made up to a whole frame. -/
theorem capture_some (file : IFStream UInt8) (ts : UInt32) (n : ℕ) :
    (capture { file := some file, tsMs := ts } n).map PcmFrame.samples =
      (blocksRead file (frameSamples * 2) n).map fun bytes =>
        resize (samplesOf bytes) frameSamples 0 := by
  induction n generalizing file ts with
  | zero => rfl
  | succ n ih =>
      rw [capture, blocksRead, List.map_cons, List.map_cons]
      exact congrArg (_ :: ·) (ih _ _)

/-- A frame has the time of the clock and the full number of samples, and the clock moves on. -/
theorem nextFrame_facts (s : AudioCapturerFile) :
    (nextFrame s).1.timestampMs = s.tsMs ∧ (nextFrame s).1.samples.length = frameSamples ∧
      (nextFrame s).2.tsMs = s.tsMs + frameMs := by
  rw [nextFrame]
  split
  · exact ⟨rfl, length_resize _ _ _, rfl⟩
  · exact ⟨rfl, List.length_replicate, rfl⟩

/-- Frames are 20 ms apart, and each is complete. -/
theorem capture_times (s : AudioCapturerFile) (n : ℕ) :
    (capture s n).map PcmFrame.timestampMs =
        (List.range n).map (fun i => s.tsMs + UInt32.ofNat i * frameMs) ∧
      ∀ frame ∈ capture s n, frame.samples.length = frameSamples := by
  induction n generalizing s with
  | zero => exact ⟨rfl, List.forall_mem_nil _⟩
  | succ n ih =>
      obtain ⟨htime, hlength, hnext⟩ := nextFrame_facts s
      obtain ⟨htimes, hlengths⟩ := ih (nextFrame s).2
      refine ⟨?_, List.forall_mem_cons.2 ⟨hlength, hlengths⟩⟩
      rw [capture, List.map_cons, htime, htimes, hnext, List.range_succ_eq_map, List.map_cons,
        List.map_map]
      have hzero : s.tsMs + UInt32.ofNat 0 * frameMs = s.tsMs := by simp
      rw [hzero]
      refine congrArg (_ :: ·) (List.map_congr_left fun i _ => ?_)
      have hone : UInt32.ofNat 1 * frameMs = frameMs := by decide
      rw [Function.comp_apply, Nat.succ_eq_add_one, UInt32.ofNat_add, UInt32.add_mul, hone,
        UInt32.add_assoc, UInt32.add_comm frameMs]

/-- The samples of the frames of one pass. -/
theorem flatMap_blocks (content : List UInt8) (k : ℕ) :
    (List.range k).flatMap (fun i =>
      resize (samplesOf (block content (frameSamples * 2) i)) frameSamples 0) =
        resize (samplesOf content) (frameSamples * k) 0 := by
  induction k with
  | zero => simp [resize]
  | succ k ih =>
      have hblock : samplesOf (block content (frameSamples * 2) k) =
          ((samplesOf content).drop (frameSamples * k)).take frameSamples := by
        rw [block, samplesOf_take, Nat.mul_right_comm, samplesOf_drop]
      rw [List.range_succ, List.flatMap_append, ih, List.flatMap_singleton, hblock, resize_take,
        Nat.mul_succ, resize_add]

/-- A whole number of passes hands out the same samples again and again. -/
theorem flatMap_passes {α : Type*} (f : ℕ → List α) (p passes : ℕ) :
    (List.range (passes * p)).flatMap (fun i => f (i % p)) =
      (List.replicate passes ((List.range p).flatMap f)).flatten := by
  induction passes with
  | zero => simp
  | succ passes ih =>
      have hpass : ((List.range p).map (passes * p + ·)).flatMap (fun i => f (i % p)) =
          (List.range p).flatMap f := by
        rw [List.flatMap_map]
        refine List.flatMap_congr fun i hi => ?_
        rw [Nat.mul_add_mod_of_lt (List.mem_range.1 hi)]
      rw [Nat.succ_mul, List.range_add, List.flatMap_append, ih, hpass, List.replicate_succ',
        List.flatten_append, List.flatten_singleton]

/-- The blocks of the file have room for all of its samples. -/
theorem length_samplesOf_le (content : List UInt8) :
    (samplesOf content).length ≤ frameSamples * blocks content (frameSamples * 2) := by
  have hpos : 0 < frameSamples * 2 := by decide
  have hlast := lt_irrefl (blocks content (frameSamples * 2))
  rw [lt_blocks_iff hpos] at hlast
  rw [length_samplesOf]
  rw [Nat.mul_right_comm] at hlast
  omega

/-- The frames of a file. -/
theorem capture_blocks {content : List UInt8} (hcontent : content ≠ []) (n : ℕ) :
    (capture (start (some content)) n).map PcmFrame.samples = (List.range n).map fun i =>
      resize (samplesOf (block content (frameSamples * 2)
        (i % blocks content (frameSamples * 2)))) frameSamples 0 := by
  refine (capture_some _ _ _).trans ?_
  rw [blocksRead_eq (by decide) hcontent (ready_open content _), List.map_map]
  refine List.map_congr_left fun i _ => ?_
  rw [Function.comp_apply, Nat.zero_add]

/-- Whole passes over the file: its samples, filled up with silence to the end of a frame, again and
again. -/
theorem capture_passes (content : List UInt8) (passes : ℕ) :
    (capture (start (some content)) (passes * blocks content (frameSamples * 2))).flatMap
        PcmFrame.samples =
      (List.replicate passes (samplesOf content ++ List.replicate
        (frameSamples * blocks content (frameSamples * 2) - content.length / 2) 0)).flatten := by
  by_cases hnil : content = []
  · -- a pass has no frames
    have hnone : blocks ([] : List UInt8) (frameSamples * 2) = 0 := by decide
    rw [hnil, hnone, Nat.mul_zero]
    simp [capture]
  · have hpass := flatMap_passes (fun i =>
      resize (samplesOf (block content (frameSamples * 2) i)) frameSamples 0)
      (blocks content (frameSamples * 2)) passes
    rw [flatMap_blocks, resize_of_le (length_samplesOf_le content), length_samplesOf] at hpass
    rw [List.flatMap_def, capture_blocks hnil, ← hpass, List.flatMap_def]

/-- Without a file there is nothing but zeros, and neither is there with an empty one. -/
theorem capture_silent {source : Option (List UInt8)} (h : source = none ∨ source = some [])
    (n : ℕ) : (capture (start source) n).map PcmFrame.samples =
      List.replicate n (List.replicate frameSamples 0) := by
  rcases h with rfl | rfl
  · have hnone : ∀ s : AudioCapturerFile, s.file = none →
        (capture s n).map PcmFrame.samples = List.replicate n (List.replicate frameSamples 0) := by
      induction n with
      | zero => exact fun s _ => rfl
      | succ n ih =>
          intro s hs
          rw [capture, nextFrame, hs, List.map_cons, ih _ rfl, List.replicate_succ]
    exact hnone _ rfl
  · refine (capture_some _ _ _).trans ?_
    rw [blocksRead_nil rfl, List.map_replicate, samplesOf_nil]
    rfl

/-- The file is played over and over: every pass hands out all of its samples once and in order,
and then zeros up to the end of a frame. Without a file, or with an empty one, all samples are
zeros. In any case every frame is complete, and they are 20 ms apart. -/
theorem capture_loops (content : List UInt8) (passes : ℕ) (source : Option (List UInt8)) (n : ℕ) :
    (capture (start (some content)) (passes * blocks content (frameSamples * 2))).flatMap
        PcmFrame.samples =
      (List.replicate passes (samplesOf content ++ List.replicate
        (frameSamples * blocks content (frameSamples * 2) - content.length / 2) 0)).flatten ∧
    (source = none ∨ source = some [] → (capture (start source) n).map PcmFrame.samples =
      List.replicate n (List.replicate frameSamples 0)) ∧
    (∀ frame ∈ capture (start source) n, frame.samples.length = frameSamples) ∧
    (capture (start source) n).map PcmFrame.timestampMs =
      (List.range n).map fun i => UInt32.ofNat i * frameMs := by
  obtain ⟨htimes, hlengths⟩ := capture_times (start source) n
  refine ⟨capture_passes content passes, fun h => capture_silent h n, hlengths, htimes.trans ?_⟩
  refine List.map_congr_left fun i _ => ?_
  exact UInt32.zero_add _

end CppMeet.Audio.Capturer
