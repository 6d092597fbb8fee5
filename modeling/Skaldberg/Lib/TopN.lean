import Mathlib.Data.List.Sort
import Skaldberg.Lib.Groups

/-!
# The best elements of a list

What it means to choose the `n` best elements of a list, by a comparison that may find several of
them as good (`Sql.IsTop`): as many as there are, up to `n`, and none of those left out better than
one that was chosen. Which ones are chosen among those as good is left open, so that any way to
sort the list and take its first `n` elements is such a choice (`Sql.isTop_take`).

What does not depend on the choice is what the comparison looks at: the values of two choices are
the same, in some order (`Sql.IsTop.map_perm`).
-/

namespace Sql

variable {α β κ : Type}

/-- `out` are `n` best elements of `l`, or all of them if there are fewer. -/
structure IsTop (le : α → α → Bool) (n : ℕ) (l out : List α) : Prop where
  /-- There are as many as there can be. -/
  length_eq : out.length = min n l.length
  /-- They are elements of the list, and none of the others is better than one of them. -/
  split : ∃ rest, (out ++ rest).Perm l ∧ ∀ a ∈ out, ∀ b ∈ rest, le a b = true

variable {le : α → α → Bool} {n : ℕ} {l l' out out' : List α}

theorem IsTop.perm (h : IsTop le n l out) (hl : l.Perm l') (hout : out.Perm out') :
    IsTop le n l' out' := by
  obtain ⟨rest, hperm, hle⟩ := h.split
  refine ⟨by rw [← hout.length_eq, ← hl.length_eq, h.length_eq], rest, ?_, fun a ha => ?_⟩
  · exact ((hout.symm.append_right rest).trans hperm).trans hl
  · exact hle a (hout.mem_iff.mpr ha)

theorem IsTop.mem (h : IsTop le n l out) {a : α} (ha : a ∈ out) : a ∈ l := by
  obtain ⟨rest, hperm, -⟩ := h.split
  exact hperm.mem_iff.mp (List.mem_append_left _ ha)

theorem IsTop.subperm (h : IsTop le n l out) : out.Subperm l := by
  obtain ⟨rest, hperm, -⟩ := h.split
  exact (List.sublist_append_left out rest).subperm.trans hperm.subperm

theorem IsTop.map (h : IsTop le n l out) {f : α → β} {le' : β → β → Bool}
    (hle : ∀ a ∈ l, ∀ b ∈ l, le a b = true → le' (f a) (f b) = true) :
    IsTop le' n (l.map f) (out.map f) := by
  obtain ⟨rest, hperm, hbest⟩ := h.split
  refine ⟨by rw [List.length_map, List.length_map, h.length_eq], rest.map f, ?_, ?_⟩
  · rw [← List.map_append]
    exact hperm.map f
  · intro v hv w hw
    obtain ⟨a, ha, rfl⟩ := List.mem_map.mp hv
    obtain ⟨b, hb, rfl⟩ := List.mem_map.mp hw
    exact hle a (h.mem ha) b (hperm.mem_iff.mp (List.mem_append_right _ hb)) (hbest a ha b hb)

/-- The best none. -/
theorem isTop_zero (l : List α) : IsTop le 0 l [] :=
  ⟨(Nat.zero_min _).symm, l, List.Perm.refl _, fun _ ha => absurd ha List.not_mem_nil⟩

/-- **The first `n` elements of a sorted list** are `n` best ones. -/
theorem isTop_take {sorted : List α} (hperm : sorted.Perm l)
    (hsorted : sorted.Pairwise fun a b => le a b = true) (n : ℕ) :
    IsTop le n l (sorted.take n) := by
  refine ⟨by rw [List.length_take, hperm.length_eq], sorted.drop n, ?_, ?_⟩
  · rw [List.take_append_drop]
    exact hperm
  · rw [← List.take_append_drop n sorted, List.pairwise_append] at hsorted
    exact hsorted.2.2

/-- **The values of the best elements are determined**, when two elements each as good as the other
have the same value. -/
theorem IsTop.map_perm (h : IsTop le n l out) (h' : IsTop le n l' out') (hl : l.Perm l')
    {f : α → β} {leVal : β → β → Bool}
    (htotal : ∀ a b, leVal a b = true ∨ leVal b a = true)
    (htrans : ∀ a b c, leVal a b = true → leVal b c = true → leVal a c = true)
    (hantisymm : ∀ a b, leVal a b = true → leVal b a = true → a = b)
    (hle : ∀ a ∈ l, ∀ b ∈ l, le a b = true → leVal (f a) (f b) = true) :
    (out.map f).Perm (out'.map f) := by
  have : Std.Total fun a b => leVal a b = true := ⟨htotal⟩
  have : IsTrans β fun a b => leVal a b = true := ⟨htrans⟩
  have : Std.Antisymm fun a b => leVal a b = true := ⟨hantisymm⟩
  let sort (vs : List β) : List β := vs.insertionSort fun a b => leVal a b = true
  -- the best values are the first ones when all are sorted
  have hfirst : ∀ {l out : List α}, IsTop le n l out →
      (∀ a ∈ l, ∀ b ∈ l, le a b = true → leVal (f a) (f b) = true) →
        (out.map f).Perm ((sort (l.map f)).take n) := by
    intro l out h hle
    obtain ⟨rest, hperm, hbest⟩ := h.split
    have hmem : ∀ b ∈ rest, b ∈ l := fun b hb => hperm.mem_iff.mp (List.mem_append_right _ hb)
    have hsorted : (sort (out.map f) ++ sort (rest.map f)).Pairwise fun a b =>
      leVal a b = true := by
      refine List.pairwise_append.mpr ⟨List.pairwise_insertionSort _ _,
        List.pairwise_insertionSort _ _, fun v hv w hw => ?_⟩
      obtain ⟨a, ha, rfl⟩ := List.mem_map.mp ((List.mem_insertionSort _).mp hv)
      obtain ⟨b, hb, rfl⟩ := List.mem_map.mp ((List.mem_insertionSort _).mp hw)
      exact hle a (h.mem ha) b (hmem b hb) (hbest a ha b hb)
    have heq : sort (l.map f) = sort (out.map f) ++ sort (rest.map f) := by
      refine List.Perm.eq_of_pairwise' (List.pairwise_insertionSort _ _) hsorted ?_
      refine (List.perm_insertionSort _ _).trans ((hperm.map f).symm.trans ?_)
      rw [List.map_append]
      exact ((List.perm_insertionSort _ _).append (List.perm_insertionSort _ _)).symm
    have hlength : (sort (out.map f)).length = out.length := by
      rw [List.length_insertionSort, List.length_map]
    rcases le_total n l.length with hn | hn
    · have htake : (sort (l.map f)).take n = sort (out.map f) := by
        rw [heq, List.take_left' (hlength.trans (h.length_eq.trans (min_eq_left hn)))]
      rw [htake]
      exact (List.perm_insertionSort _ _).symm
    · have hnil : rest = [] := by
        have hlen := hperm.length_eq
        rw [List.length_append, h.length_eq, min_eq_right hn] at hlen
        exact List.eq_nil_of_length_eq_zero (by omega)
      rw [hnil, List.append_nil] at hperm
      rw [List.take_of_length_le (by rw [List.length_insertionSort, List.length_map]; exact hn)]
      exact (hperm.map f).trans (List.perm_insertionSort _ _).symm
  have hsort : sort (l.map f) = sort (l'.map f) := by
    refine List.Perm.eq_of_pairwise' (List.pairwise_insertionSort _ _)
      (List.pairwise_insertionSort _ _) ?_
    exact (List.perm_insertionSort _ _).trans ((hl.map f).trans (List.perm_insertionSort _ _).symm)
  refine (hfirst h hle).trans (hsort ▸ (hfirst h' ?_).symm)
  exact fun a ha b hb => hle a (hl.mem_iff.mpr ha) b (hl.mem_iff.mpr hb)

/-! ### Group by group -/

section Groups

variable [DecidableEq κ]

/-- Keys that tell the same rows apart make the same of each group. -/
theorem flatMap_groupBy_comp_key {ι : Type} [DecidableEq ι] {key : α → κ} {key' : α → ι}
    {f : κ → ι} {rows : List α} (hkey : ∀ r ∈ rows, key' r = f (key r))
    (hf : ∀ r ∈ rows, ∀ r' ∈ rows, key' r = key' r' → key r = key r') (F : List α → List β) :
    ((groupBy key rows).flatMap fun g => F g.2) = (groupBy key' rows).flatMap fun g => F g.2 := by
  rw [groupBy_comp_key hkey hf, List.flatMap_map]

end Groups

end Sql
