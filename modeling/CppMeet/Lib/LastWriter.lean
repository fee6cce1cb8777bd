import CppMeet.Lib.HashMap
import Mathlib.Order.Defs.LinearOrder
import Mathlib.Data.Set.Insert

/-!
# Last-writer-wins registers and maps

Entries of type `E` carry a stamp from a linear order `S`. `offer` is the update of a register: the
offered entry replaces the current one when its stamp is strictly larger. `Latest H o` says that
`o` is what a register holds after it was offered exactly the entries of `H`, in any order and any
number of times: nothing when `H` is empty, and an entry of `H` with the largest stamp otherwise.
Where stamps identify the entries of `H`, the content is determined by `H` alone (`Latest.unique`).

`offerAt` is the same update of one key of a map, and `absorb` offers a list of entries one after
the other; key by key, absorbing the entries of another map is the join of the two registers
(`lookup_absorb`).
-/

set_option autoImplicit false

namespace CppMeet.Lib.LastWriter

open CppMeet.Lib.HashMap

universe u v w

variable {S : Type u} [LinearOrder S] {E : Type v} (stamp : E → S)

/-- The register content after the entry `e` is offered. -/
def offer (cur : Option E) (e : E) : Option E :=
  match cur with
  | none => some e
  | some c => if stamp c < stamp e then some e else some c

/-- Two register contents combined: the second is offered to the first. -/
def join (o o' : Option E) : Option E :=
  match o' with
  | none => o
  | some e => offer stamp o e

/-- `o` holds an entry of `H` with the largest stamp, and nothing when there is none. -/
def Latest (H : Set E) : Option E → Prop
  | none => H = ∅
  | some e => e ∈ H ∧ ∀ x ∈ H, stamp x ≤ stamp e

variable {stamp}

/-- A register to which `e` was offered holds an entry that is at least as late. -/
theorem Latest.exists_of_mem {H : Set E} {o : Option E} (h : Latest stamp H o) {e : E}
    (he : e ∈ H) : ∃ m, o = some m ∧ m ∈ H ∧ stamp e ≤ stamp m := by
  cases o with
  | none =>
      obtain rfl : H = ∅ := h
      exact absurd he (Set.notMem_empty e)
  | some m => exact ⟨m, rfl, h.1, h.2 e he⟩

theorem Latest.offer {H : Set E} {o : Option E} (h : Latest stamp H o) (e : E) :
    Latest stamp (insert e H) (LastWriter.offer stamp o e) := by
  cases o with
  | none =>
      obtain rfl : H = ∅ := h
      refine ⟨Set.mem_insert _ _, fun x hx => ?_⟩
      rcases hx with rfl | hx
      · exact le_rfl
      · exact absurd hx (Set.notMem_empty x)
  | some c =>
      obtain ⟨hc, hmax⟩ := h
      by_cases hlt : stamp c < stamp e
      · rw [LastWriter.offer, if_pos hlt]
        refine ⟨Set.mem_insert _ _, fun x hx => ?_⟩
        rcases hx with rfl | hx
        · exact le_rfl
        · exact (hmax x hx).trans hlt.le
      · rw [LastWriter.offer, if_neg hlt]
        refine ⟨Set.mem_insert_of_mem _ hc, fun x hx => ?_⟩
        rcases hx with rfl | hx
        · exact not_lt.1 hlt
        · exact hmax x hx

/-- Joining keeps the latest one of both histories. -/
theorem Latest.join {H H' : Set E} {o o' : Option E} (h : Latest stamp H o)
    (h' : Latest stamp H' o') : Latest stamp (H ∪ H') (LastWriter.join stamp o o') := by
  cases o' with
  | none =>
      obtain rfl : H' = ∅ := h'
      rwa [Set.union_empty]
  | some e =>
      obtain ⟨he, hmax⟩ := h'
      have hoffer := h.offer e
      change Latest stamp (H ∪ H') (LastWriter.offer stamp o e)
      obtain ⟨m, hres, hm, -⟩ := hoffer.exists_of_mem (Set.mem_insert e H)
      rw [hres] at hoffer ⊢
      have hle := hoffer.2
      refine ⟨?_, fun x hx => ?_⟩
      · rcases hm with rfl | hm
        · exact Or.inr he
        · exact Or.inl hm
      · rcases hx with hx | hx
        · exact hle x (Set.mem_insert_of_mem _ hx)
        · exact (hmax x hx).trans (hle e (Set.mem_insert _ _))

/-- Where stamps identify the entries, what was offered determines the register. -/
theorem Latest.unique {H : Set E} (hinj : Set.InjOn stamp H) {o o' : Option E}
    (h : Latest stamp H o) (h' : Latest stamp H o') : o = o' := by
  cases o with
  | none =>
      obtain rfl : H = ∅ := h
      cases o' with
      | none => rfl
      | some e => exact absurd h'.1 (Set.notMem_empty e)
  | some e =>
      obtain ⟨e', rfl, he', hle⟩ := h'.exists_of_mem h.1
      exact congrArg some (hinj h.1 he' (le_antisymm hle (h.2 e' he')))

/-! ## Joining is a maximum

Of two entries with the same stamp the first is kept, so only commutativity needs that stamps
identify entries. -/

theorem join_none_left (o : Option E) : LastWriter.join stamp none o = o := by
  cases o with
  | none => rfl
  | some e => rfl

theorem join_self (o : Option E) : LastWriter.join stamp o o = o := by
  cases o with
  | none => rfl
  | some e => exact if_neg (lt_irrefl (stamp e))

/-- The order does not matter where equal stamps mean equal entries. -/
theorem join_comm {o o' : Option E}
    (h : ∀ e e', o = some e → o' = some e' → stamp e = stamp e' → e = e') :
    LastWriter.join stamp o o' = LastWriter.join stamp o' o := by
  cases o with
  | none => exact join_none_left o'
  | some e =>
      cases o' with
      | none => exact (join_none_left (some e)).symm
      | some e' =>
          simp only [LastWriter.join, LastWriter.offer]
          rcases lt_trichotomy (stamp e) (stamp e') with hlt | heq | hgt
          · rw [if_pos hlt, if_neg hlt.asymm]
          · rw [h e e' rfl rfl heq]
          · rw [if_neg hgt.asymm, if_pos hgt]

theorem join_assoc (o o' o'' : Option E) :
    LastWriter.join stamp (LastWriter.join stamp o o') o'' =
      LastWriter.join stamp o (LastWriter.join stamp o' o'') := by
  cases o with
  | none => rw [join_none_left, join_none_left]
  | some a =>
      cases o' with
      | none => rw [join_none_left]; rfl
      | some b =>
          cases o'' with
          | none => rfl
          | some c =>
              -- the larger stamp wins, and on equal stamps the entry on the left
              simp only [LastWriter.join, LastWriter.offer]
              by_cases hab : stamp a < stamp b
              · rw [if_pos hab]
                by_cases hbc : stamp b < stamp c
                · simp only [if_pos hbc, if_pos (hab.trans hbc)]
                · simp only [if_neg hbc, if_pos hab]
              · rw [if_neg hab]
                by_cases hbc : stamp b < stamp c
                · simp only [if_pos hbc]
                · have hac : ¬stamp a < stamp c := fun hac =>
                    hab (hac.trans_le (not_lt.1 hbc))
                  simp only [if_neg hbc, if_neg hab, if_neg hac]

theorem eq_of_offer {o : Option E} {e x : E} (h : LastWriter.offer stamp o e = some x) :
    x = e ∨ o = some x := by
  cases o with
  | none => exact Or.inl (Option.some.inj h).symm
  | some c =>
      rw [LastWriter.offer] at h
      split at h
      · exact Or.inl (Option.some.inj h).symm
      · exact Or.inr h

/-- A join makes no entry up. -/
theorem eq_of_join {o o' : Option E} {x : E} (h : LastWriter.join stamp o o' = some x) :
    o = some x ∨ o' = some x := by
  cases o' with
  | none => exact Or.inl h
  | some e =>
      rcases eq_of_offer h with rfl | ho
      · exact Or.inr rfl
      · exact Or.inl ho

/-- An offer keeps the entry or puts one with a larger stamp in its place. -/
theorem offer_ascends (c e : E) :
    ∃ e', LastWriter.offer stamp (some c) e = some e' ∧ (e' = c ∨ stamp c < stamp e') := by
  by_cases hlt : stamp c < stamp e
  · exact ⟨e, if_pos hlt, Or.inr hlt⟩
  · exact ⟨c, if_neg hlt, Or.inl rfl⟩

/-! ## Maps of registers -/

variable {K : Type w} [DecidableEq K] (stamp)

/-- The map after the entry `e` is offered at the key `k`. -/
def offerAt (m : UnorderedMap K E) (k : K) (e : E) : UnorderedMap K E :=
  match m.lookup k with
  | none => m.insert k e
  | some c => if stamp c < stamp e then m.insert k e else m

/-- An offer changes the map at its key only. -/
theorem lookup_offerAt (m : UnorderedMap K E) (k k' : K) (e : E) :
    (offerAt stamp m k e).lookup k' =
      if k' = k then offer stamp (m.lookup k) e else m.lookup k' := by
  unfold offerAt offer
  cases hk : m.lookup k with
  | none => exact lookup_insert_ite m k k' e
  | some c =>
      by_cases hlt : stamp c < stamp e
      · simp only [if_pos hlt]
        exact lookup_insert_ite m k k' e
      · simp only [if_neg hlt]
        by_cases hkk : k' = k
        · rw [if_pos hkk, hkk, hk]
        · rw [if_neg hkk]

/-- An entry after an offer is the one offered or was there before. -/
theorem eq_of_lookup_offerAt {m : UnorderedMap K E} {k k' : K} {e x : E}
    (h : (offerAt stamp m k e).lookup k' = some x) : x = e ∨ m.lookup k' = some x := by
  rw [lookup_offerAt] at h
  by_cases hk : k' = k
  · rw [if_pos hk, ← hk] at h
    exact eq_of_offer h
  · rw [if_neg hk] at h
    exact Or.inr h

/-- Every entry of `m` is still in `m'`, or one with a larger stamp has taken its place. -/
def Ascends (m m' : UnorderedMap K E) : Prop :=
  ∀ k e, m.lookup k = some e → ∃ e', m'.lookup k = some e' ∧ (e' = e ∨ stamp e < stamp e')

variable {stamp} in
theorem Ascends.refl (m : UnorderedMap K E) : Ascends stamp m m :=
  fun _ e he => ⟨e, he, Or.inl rfl⟩

variable {stamp} in
theorem Ascends.trans {m m' m'' : UnorderedMap K E} (h : Ascends stamp m m')
    (h' : Ascends stamp m' m'') : Ascends stamp m m'' := by
  intro k e he
  obtain ⟨e', he', hge'⟩ := h k e he
  obtain ⟨e'', he'', hge''⟩ := h' k e' he'
  refine ⟨e'', he'', ?_⟩
  rcases hge' with rfl | hlt
  · exact hge''
  · rcases hge'' with rfl | hlt'
    · exact Or.inr hlt
    · exact Or.inr (hlt.trans hlt')

theorem ascends_offerAt (m : UnorderedMap K E) (k : K) (e : E) :
    Ascends stamp m (offerAt stamp m k e) := by
  intro k' c hc
  rw [lookup_offerAt]
  by_cases hk : k' = k
  · rw [if_pos hk, ← hk, hc]
    exact offer_ascends c e
  · rw [if_neg hk]
    exact ⟨c, hc, Or.inl rfl⟩

/-- The map after the entries of `l` are offered, each at its key. -/
def absorb (m : UnorderedMap K E) (l : List (Σ _ : K, E)) : UnorderedMap K E :=
  l.foldl (fun m p => offerAt stamp m p.1 p.2) m

/-- Absorbing a list joins the two entries of each key. -/
theorem lookup_absorb (m : UnorderedMap K E) {l : List (Σ _ : K, E)} (hl : l.NodupKeys) (k : K) :
    (absorb stamp m l).lookup k = join stamp (m.lookup k) (l.dlookup k) := by
  rw [absorb, lookup_foldl (offer stamp) (fun m k e k' => lookup_offerAt stamp m k k' e) m hl]
  cases l.dlookup k with
  | none => rfl
  | some e => rfl

end CppMeet.Lib.LastWriter
