import Mathlib.Data.Finset.Insert

/-!
# The first element of each key

A pass over a list that keeps an element if its key has not been seen before (`FirstSeen.firsts`).
Of each key it keeps the first element, and no other (`mem_firsts`, `nodup_map_firsts`); what is
seen on the way is what makes a pass over two lists one over the first and then one over the second
(`firsts_append`).
-/

namespace FirstSeen

variable {α κ : Type} [DecidableEq κ] (key : α → κ)

/-- The elements whose key has not been seen, neither before nor on the way. -/
def firsts (seen : Finset κ) : List α → List α
  | [] => []
  | a :: l => if key a ∈ seen then firsts seen l else a :: firsts (insert (key a) seen) l

/-- What has been seen after a list. -/
def seenAfter (seen : Finset κ) (l : List α) : Finset κ :=
  l.foldl (fun seen a => insert (key a) seen) seen

variable {key} {seen : Finset κ} {a : α} {l l' : List α}

theorem seenAfter_cons :
    seenAfter key seen (a :: l) = seenAfter key (insert (key a) seen) l := rfl

theorem firsts_append :
    firsts key seen (l ++ l') = firsts key seen l ++ firsts key (seenAfter key seen l) l' := by
  induction l generalizing seen with
  | nil => rfl
  | cons b l ih =>
    rw [List.cons_append, firsts, firsts, seenAfter_cons]
    split_ifs with hb
    · rw [ih, Finset.insert_eq_of_mem hb]
    · rw [ih, List.cons_append]

/-- **The first element of a key is kept**, if the key has not been seen before. -/
theorem mem_firsts :
    a ∈ firsts key seen l ↔
      key a ∉ seen ∧ l.find? (fun b => decide (key b = key a)) = some a := by
  induction l generalizing seen with
  | nil => simp [firsts]
  | cons b l ih =>
    rw [firsts, List.find?_cons]
    by_cases hkey : key b = key a
    · rw [decide_eq_true hkey]
      split_ifs with hb
      · rw [ih, ← hkey]
        exact ⟨fun h => absurd hb h.1, fun h => absurd hb h.1⟩
      · rw [List.mem_cons, ih, ← hkey, Option.some.injEq]
        constructor
        · rintro (rfl | h)
          · exact ⟨hb, rfl⟩
          · exact absurd (Finset.mem_insert_self _ _) h.1
        · rintro ⟨-, rfl⟩
          exact Or.inl rfl
    · rw [decide_eq_false hkey]
      split_ifs with hb
      · exact ih
      · rw [List.mem_cons, ih, Finset.mem_insert, not_or]
        constructor
        · rintro (rfl | h)
          · exact absurd rfl hkey
          · exact ⟨h.1.2, h.2⟩
        · exact fun h => Or.inr ⟨⟨Ne.symm hkey, h.1⟩, h.2⟩

theorem firsts_subset (h : a ∈ firsts key seen l) : a ∈ l :=
  List.mem_of_find?_eq_some (mem_firsts.mp h).2

/-- **No other element of a key is kept.** -/
theorem nodup_map_firsts : ((firsts key seen l).map key).Nodup := by
  induction l generalizing seen with
  | nil => exact List.nodup_nil
  | cons b l ih =>
    rw [firsts]
    split_ifs with hb
    · exact ih
    · rw [List.map_cons, List.nodup_cons]
      refine ⟨fun hmem => ?_, ih⟩
      obtain ⟨a, ha, hkey⟩ := List.mem_map.mp hmem
      exact (mem_firsts.mp ha).1 (hkey ▸ Finset.mem_insert_self _ _)

end FirstSeen
