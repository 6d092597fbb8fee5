import Mathlib.Data.List.Sort
import Mathlib.Data.Option.NAry
import Mathlib.Order.Compare

/-!
# Comparisons of the elements of a list

A sort is promised to sort only by a comparison that orders the elements of its list up to ties
(`Comparator.Consistent`): then it does (`Comparator.Consistent.pairwise_insertionSort`).

A comparison by a key that some elements lack, and which counts those as equal to every other
(`Comparator.byKey`), is of this kind in two cases only: no element of the list lacks a key, or
all the keys there are equal (`Comparator.consistent_byKey_iff`). Otherwise an element without a
key is equal to two that are not equal.
-/

namespace Comparator

variable {α β κ : Type}

/-- A comparison orders the elements of a list, up to ties. -/
structure Consistent (cmp : α → α → Ordering) (l : List α) : Prop where
  /-- An element is equal to itself. -/
  refl : ∀ a ∈ l, cmp a a = .eq
  /-- Two elements are compared the same from either side. -/
  swap : ∀ a ∈ l, ∀ b ∈ l, cmp b a = (cmp a b).swap
  /-- What is not greater than something not greater is not greater. -/
  trans : ∀ a ∈ l, ∀ b ∈ l, ∀ c ∈ l, (cmp a b).isLE → (cmp b c).isLE → (cmp a c).isLE

variable {cmp : α → α → Ordering} {l : List α}

theorem consistent_map_iff {cmp : β → β → Ordering} {f : α → β} :
    Consistent cmp (l.map f) ↔ Consistent (fun a b => cmp (f a) (f b)) l := by
  constructor
  · exact fun h => ⟨fun a ha => h.refl _ (List.mem_map_of_mem ha),
      fun a ha b hb => h.swap _ (List.mem_map_of_mem ha) _ (List.mem_map_of_mem hb),
      fun a ha b hb c hc => h.trans _ (List.mem_map_of_mem ha) _ (List.mem_map_of_mem hb) _
        (List.mem_map_of_mem hc)⟩
  · intro h
    refine ⟨?_, ?_, ?_⟩
    · simpa only [List.forall_mem_map] using h.refl
    · simpa only [List.forall_mem_map] using h.swap
    · simpa only [List.forall_mem_map] using h.trans

/-- **The order is the same backwards.** -/
theorem Consistent.reverse (h : Consistent cmp l) : Consistent (fun a b => (cmp a b).swap) l := by
  refine ⟨fun a ha => ?_, fun a ha b hb => ?_, fun a ha b hb c hc hab hbc => ?_⟩
  · rw [h.refl a ha]
    rfl
  · rw [h.swap a ha b hb]
  · rw [← h.swap a ha b hb] at hab
    rw [← h.swap b hb c hc] at hbc
    rw [← h.swap a ha c hc]
    exact h.trans c hc b hb a ha hbc hab

theorem consistent_swap_iff : Consistent (fun a b => (cmp a b).swap) l ↔ Consistent cmp l := by
  refine ⟨fun h => ?_, Consistent.reverse⟩
  have hback := h.reverse
  simpa only [Ordering.swap_swap] using hback

/-- **A sort by a consistent comparison sorts.** -/
theorem Consistent.pairwise_insertionSort (h : Consistent cmp l) :
    (l.insertionSort fun a b => (cmp a b).isLE = true).Pairwise fun a b =>
      (cmp a b).isLE = true := by
  let le (a b : {a // a ∈ l}) : Prop := (cmp a b).isLE = true
  have : Std.Total le := ⟨fun a b => by
    show (cmp a b).isLE = true ∨ (cmp b a).isLE = true
    rw [h.swap a a.2 b b.2]
    cases cmp a b <;> simp⟩
  have : IsTrans {a // a ∈ l} le := ⟨fun a b c => h.trans a a.2 b b.2 c c.2⟩
  have hsorted := List.pairwise_insertionSort le l.attach
  have hmap : (l.attach.insertionSort le).map Subtype.val =
      l.insertionSort fun a b => (cmp a b).isLE = true := by
    rw [List.map_insertionSort (s := fun a b => (cmp a b).isLE = true) le Subtype.val l.attach
      fun _ _ _ _ => Iff.rfl, List.attach_map_subtype_val]
  rw [← hmap, List.pairwise_map]
  exact hsorted

/-! ### Keys that some elements lack -/

variable [LinearOrder κ]

/-- The comparison by a key, where there are two to compare; any other two elements are equal. -/
def byKey (key : α → Option κ) (a b : α) : Ordering :=
  (Option.map₂ compare (key a) (key b)).getD .eq

/-- No element lacks a key, or all keys are equal. -/
def Alike (key : α → Option κ) (l : List α) : Prop :=
  (∀ a ∈ l, (key a).isSome) ∨
    ∀ a ∈ l, ∀ b ∈ l, ∀ x y, key a = some x → key b = some y → x = y

theorem byKey_some {key : α → Option κ} {a b : α} {x y : κ} (hx : key a = some x)
    (hy : key b = some y) : byKey key a b = compare x y := by
  rw [byKey, hx, hy]
  rfl

theorem byKey_none {key : α → Option κ} {a b : α} (h : key a = none ∨ key b = none) :
    byKey key a b = .eq := by
  rw [byKey]
  rcases h with h | h
  · rw [h, Option.map₂_none_left]
    rfl
  · rw [h, Option.map₂_none_right]
    rfl

theorem byKey_swap (key : α → Option κ) (a b : α) : byKey key b a = (byKey key a b).swap := by
  cases hx : key a with
  | none =>
    rw [byKey_none (.inl hx), byKey_none (.inr hx)]
    rfl
  | some x =>
    cases hy : key b with
    | none =>
      rw [byKey_none (.inl hy), byKey_none (.inr hy)]
      rfl
    | some y =>
      rw [byKey_some hx hy, byKey_some hy hx]
      exact Std.OrientedOrd.eq_swap

/-- **When a comparison by keys is consistent.** -/
theorem consistent_byKey_iff (key : α → Option κ) (l : List α) :
    Consistent (byKey key) l ↔ Alike key l := by
  constructor
  · intro h
    refine or_iff_not_imp_left.mpr fun hlack a ha b hb x y hx hy => ?_
    obtain ⟨c, hc, hnone⟩ : ∃ c ∈ l, key c = none := by simpa using hlack
    -- what lacks a key is equal to both, so neither of them is greater than the other
    have hle : ∀ a ∈ l, ∀ b ∈ l, ∀ x y, key a = some x → key b = some y → x ≤ y := by
      intro a ha b hb x y hx hy
      have hac : (byKey key a c).isLE := by
        rw [byKey_none (.inr hnone)]
        rfl
      have hcb : (byKey key c b).isLE := by
        rw [byKey_none (.inl hnone)]
        rfl
      have hab := h.trans a ha c hc b hb hac hcb
      rw [byKey_some hx hy] at hab
      exact compare_le_iff_le.mp (Ordering.isLE_iff_ne_gt.mp hab)
    exact le_antisymm (hle a ha b hb x y hx hy) (hle b hb a ha y x hy hx)
  · rintro (hall | hsame)
    · refine ⟨fun a ha => ?_, fun a _ b _ => byKey_swap key a b,
        fun a ha b hb c hc hab hbc => ?_⟩
      · obtain ⟨x, hx⟩ := Option.isSome_iff_exists.mp (hall a ha)
        rw [byKey_some hx hx]
        exact compare_eq_iff_eq.mpr rfl
      · obtain ⟨x, hx⟩ := Option.isSome_iff_exists.mp (hall a ha)
        obtain ⟨y, hy⟩ := Option.isSome_iff_exists.mp (hall b hb)
        obtain ⟨z, hz⟩ := Option.isSome_iff_exists.mp (hall c hc)
        rw [byKey_some hx hy] at hab
        rw [byKey_some hy hz] at hbc
        rw [byKey_some hx hz]
        exact Std.TransOrd.isLE_trans hab hbc
    · have heq : ∀ a ∈ l, ∀ b ∈ l, byKey key a b = .eq := by
        intro a ha b hb
        cases hx : key a with
        | none => exact byKey_none (.inl hx)
        | some x =>
          cases hy : key b with
          | none => exact byKey_none (.inr hy)
          | some y =>
            rw [byKey_some hx hy, hsame a ha b hb x y hx hy]
            exact compare_eq_iff_eq.mpr rfl
      refine ⟨fun a ha => heq a ha a ha, fun a _ b _ => byKey_swap key a b,
        fun a ha b hb c hc _ _ => ?_⟩
      rw [heq a ha c hc]
      rfl

end Comparator
