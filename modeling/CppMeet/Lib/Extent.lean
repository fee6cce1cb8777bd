import CppMeet.Lib.Buffer

/-!
# Decoders of packets that declare their size

Packets that stand one behind the other in a buffer declare their size in their first bytes. A
decoder of one kind of them (`Sized`) compares the buffer with the least size of its kind and with
the declared one, and reads its fields when both are there. What follows the packet plays no part
exactly when the decoder rejects the first bytes, or the declared size is at least the least one
(`Sized.sameOutcome_iff`).
-/

set_option autoImplicit false

universe u

namespace CppMeet.Lib.Extent

/-- The buffers agree on the `n` bytes that both of them hold. -/
structure SameExtent (n : ℕ) (data data' : List UInt8) : Prop where
  left : n ≤ data.length
  right : n ≤ data'.length
  take_eq : data.take n = data'.take n

/-- A buffer that agrees on the first bytes and goes on with others. -/
theorem sameExtent_append {data : List UInt8} {n : ℕ} (hfits : n ≤ data.length)
    (post : List UInt8) : SameExtent n data (data.take n ++ post) := by
  have hlen := List.length_take_of_le hfits
  refine ⟨hfits, ?_, ?_⟩
  · rw [List.length_append, hlen]
    exact Nat.le_add_right _ _
  · rw [List.take_left' hlen]

section Decoder

variable {σ : Type u} (decode : σ → List UInt8 → Option (Bool × σ))

/-- The two calls return, with one verdict and one object. -/
def SameOutcome (old : σ) (data data' : List UInt8) : Prop :=
  ∃ outcome, decode old data = some outcome ∧ decode old data' = some outcome

/-- The decoder judges a packet by its first `head` bytes, which declare its size, and by the
`least` size. -/
structure Sized (head least : ℕ) (good : List UInt8 → Prop) (size : List UInt8 → ℕ) : Prop where
  head_le_size : ∀ first, head ≤ size first
  short : ∀ {data} old, data.length < least → decode old data = some (false, old)
  bad : ∀ {data} old, ¬ good (data.take head) → decode old data = some (false, old)
  cut : ∀ {data} old, data.length < size (data.take head) → decode old data = some (false, old)
  accepts : ∀ {data} old, least ≤ data.length → good (data.take head) →
    size (data.take head) ≤ data.length → ∃ new, decode old data = some (true, new)
  inside : ∀ {data} old, good (data.take head) → least ≤ size (data.take head) →
    size (data.take head) ≤ data.length →
    decode old (data.take (size (data.take head))) = decode old data

end Decoder

/-- A decoder that makes its three checks in front of the reads of a body is one, when the body
reads inside of the packet only. -/
theorem sized_of_checks {σ : Type u} {decode : σ → List UInt8 → Option (Bool × σ)}
    {head least : ℕ} {good : List UInt8 → Prop} {size : List UInt8 → ℕ}
    {body : List UInt8 → Option σ} (hsize : ∀ first, head ≤ size first)
    (hreject : ∀ old data,
      data.length < least ∨ ¬ good (data.take head) ∨ data.length < size (data.take head) →
      decode old data = some (false, old))
    (hdecode : ∀ old data, least ≤ data.length → good (data.take head) →
      size (data.take head) ≤ data.length →
      decode old data = (body data).map fun new => (true, new))
    (hbody : ∀ data, least ≤ data.length → size (data.take head) ≤ data.length →
      ∃ new, body data = some new)
    (hinside : ∀ data n, least ≤ n → n ≤ data.length → size (data.take head) = n →
      body (data.take n) = body data) :
    Sized decode head least good size where
  head_le_size := hsize
  short old hshort := hreject old _ (Or.inl hshort)
  bad old hbad := hreject old _ (Or.inr (Or.inl hbad))
  cut old hcut := hreject old _ (Or.inr (Or.inr hcut))
  accepts := by
    intro data old hleast hgood hfits
    obtain ⟨new, hnew⟩ := hbody data hleast hfits
    refine ⟨new, ?_⟩
    rw [hdecode old data hleast hgood hfits, hnew]
    rfl
  inside := by
    intro data old hgood hleast hfits
    have hlen := List.length_take_of_le hfits
    -- the first bytes of the packet are its head too, since the packet is not shorter
    have hhead : (data.take (size (data.take head))).take head = data.take head := by
      rw [List.take_take, Nat.min_eq_left (hsize _)]
    rw [hdecode old data (by omega) hgood hfits,
      hdecode old _ (by omega) (by rwa [hhead]) (by rw [hhead, hlen]),
      hinside data _ hleast hfits rfl]

variable {σ : Type u} {decode : σ → List UInt8 → Option (Bool × σ)} {head least : ℕ}
  {good : List UInt8 → Prop} {size : List UInt8 → ℕ} (h : Sized decode head least good size)

include h

/-- A rejection leaves the object alone. -/
theorem Sized.eq_of_false {data : List UInt8} {old new : σ}
    (hfail : decode old data = some (false, new)) : new = old := by
  have huntouched (hsame : decode old data = some (false, old)) : new = old :=
    congrArg Prod.snd (Option.some.inj (hfail.symm.trans hsame))
  by_cases hshort : data.length < least
  · exact huntouched (h.short old hshort)
  by_cases hgood : good (data.take head)
  · by_cases hcut : data.length < size (data.take head)
    · exact huntouched (h.cut old hcut)
    · obtain ⟨new', hnew⟩ := h.accepts old (Nat.not_lt.1 hshort) hgood (Nat.not_lt.1 hcut)
      exact absurd (hfail.symm.trans hnew) (by simp)
  · exact huntouched (h.bad old hgood)

theorem Sized.exists_outcome (data : List UInt8) (old : σ) :
    ∃ outcome, decode old data = some outcome := by
  by_cases hshort : data.length < least
  · exact ⟨_, h.short old hshort⟩
  by_cases hgood : good (data.take head)
  · by_cases hcut : data.length < size (data.take head)
    · exact ⟨_, h.cut old hcut⟩
    · obtain ⟨new, hnew⟩ := h.accepts old (Nat.not_lt.1 hshort) hgood (Nat.not_lt.1 hcut)
      exact ⟨_, hnew⟩
  · exact ⟨_, h.bad old hgood⟩

/-- Buffers that agree on the declared extent have the same first bytes. -/
theorem Sized.head_eq {data data' : List UInt8}
    (hsame : SameExtent (size (data.take head)) data data') : data'.take head = data.take head := by
  have hle := h.head_le_size (data.take head)
  have htake := congrArg (List.take head) hsame.take_eq
  rw [List.take_take, List.take_take, Nat.min_eq_left hle] at htake
  exact htake.symm

/-- The outcome depends on the declared extent only, exactly if that extent covers what the decoder
reads. -/
theorem Sized.sameOutcome_iff {data : List UInt8} (hfits : size (data.take head) ≤ data.length)
    (old : σ) :
    (∀ data', SameExtent (size (data.take head)) data data' → SameOutcome decode old data data') ↔
      (good (data.take head) → least ≤ size (data.take head)) := by
  constructor
  · intro hall hgood
    by_contra hsmall
    -- the packet alone is too short, in front of other bytes it is accepted
    have hlen := List.length_take_of_le hfits
    have halone := sameExtent_append hfits []
    have hlong := sameExtent_append hfits (List.replicate least 0)
    have hhead := h.head_eq hlong
    obtain ⟨_, hdata, hshort⟩ := hall _ halone
    obtain ⟨_, hdata', haccept⟩ := hall _ hlong
    have hlonger : (data.take (size (data.take head)) ++ List.replicate least 0).length =
        size (data.take head) + least := by
      rw [List.length_append, List.length_replicate, hlen]
    obtain ⟨new, hnew⟩ := h.accepts old (by rw [hlonger]; omega) (hhead ▸ hgood)
      (by rw [hhead, hlonger]; omega)
    rw [List.append_nil, h.short old (by omega)] at hshort
    rw [hnew] at haccept
    rw [← hshort] at hdata
    rw [← haccept] at hdata'
    exact absurd (hdata.symm.trans hdata') (by simp)
  · intro hleast data' hsame
    have hhead := h.head_eq hsame
    by_cases hgood : good (data.take head)
    · -- both calls read the packet only
      obtain ⟨outcome, hout⟩ := h.exists_outcome data old
      have hin := h.inside old hgood (hleast hgood) hfits
      have hin' := h.inside old (hhead ▸ hgood) (hhead ▸ hleast hgood) (hhead ▸ hsame.right)
      rw [hhead, ← hsame.take_eq, hin] at hin'
      exact ⟨outcome, hout, hin' ▸ hout⟩
    · exact ⟨(false, old), h.bad old hgood, h.bad old (hhead ▸ hgood)⟩

end CppMeet.Lib.Extent
