import Mathlib.Data.List.Basic

/-!
# Delimited texts

A list of keys and values written one behind the other, each key followed by one delimiter and
each value by another, nothing escaped (`Delimited.text`). Whether the list can be told from its
text depends on where the delimiters occur in it:

| question | answer |
|---|---|
| when is the text read back? | no delimiter in its own part: `text_injective` |
| what else spells a text, if a value has one? | the list cut there: `text_cons_cons` |
| what else spells one key and value? | only its cuts: `text_eq_text_singleton` |

The alphabet and the two delimiters are arbitrary.
-/

namespace Delimited

variable {α : Type}

/-- A delimiter that occurs in neither of two beginnings ends both at the same place. -/
theorem append_cons_inj {a a' b b' : List α} {x : α} (ha : x ∉ a) (ha' : x ∉ a')
    (h : a ++ x :: b = a' ++ x :: b') : a = a' ∧ b = b' := by
  induction a generalizing a' with
  | nil =>
    cases a' with
    | nil => exact ⟨rfl, (List.cons.inj h).2⟩
    | cons y a' =>
      rw [List.nil_append, List.cons_append] at h
      exact absurd ((List.cons.inj h).1 ▸ List.mem_cons_self ..) ha'
  | cons y a ih =>
    cases a' with
    | nil =>
      rw [List.nil_append, List.cons_append] at h
      exact absurd ((List.cons.inj h).1 ▸ List.mem_cons_self ..) ha
    | cons z a' =>
      rw [List.cons_append, List.cons_append] at h
      obtain ⟨hyz, htail⟩ := List.cons.inj h
      obtain ⟨haa, hb⟩ := ih (fun hx => ha (List.mem_cons_of_mem _ hx))
        (fun hx => ha' (List.mem_cons_of_mem _ hx)) htail
      exact ⟨by rw [hyz, haa], hb⟩

variable (eq sep : α)

/-- Keys and values, each key followed by the first delimiter, each value by the second. -/
def text (es : List (List α × List α)) : List α :=
  es.flatMap fun e => e.1 ++ eq :: (e.2 ++ [sep])

variable {eq sep} {es es' : List (List α × List α)}

@[simp] theorem text_nil : text eq sep ([] : List (List α × List α)) = [] := rfl

theorem text_cons (e : List α × List α) (es : List (List α × List α)) :
    text eq sep (e :: es) = e.1 ++ eq :: (e.2 ++ sep :: text eq sep es) := by
  simp [text]

theorem text_eq_nil_iff : text eq sep es = [] ↔ es = [] := by
  cases es with
  | nil => simp
  | cons e es => simp [text_cons]

/-- **The text is the one that a list of `key=value` is joined to**, with one delimiter more. -/
theorem text_eq_intercalate (h : es ≠ []) :
    text eq sep es = [sep].intercalate (es.map fun e => e.1 ++ eq :: e.2) ++ [sep] := by
  induction es with
  | nil => exact absurd rfl h
  | cons e es ih =>
    cases es with
    | nil => simp [text]
    | cons e' es =>
      rw [text_cons, ih (List.cons_ne_nil _ _), List.map_cons (l := e' :: es), List.map_cons,
        List.intercalate_cons_cons]
      simp

/-- A text ends with the second delimiter. -/
theorem exists_text_cons (e : List α × List α) (es : List (List α × List α)) :
    ∃ w, text eq sep (e :: es) = e.1 ++ eq :: (w ++ [sep]) := by
  induction es generalizing e with
  | nil => exact ⟨e.2, by simp [text]⟩
  | cons e' es ih =>
    obtain ⟨w, hw⟩ := ih e'
    exact ⟨e.2 ++ sep :: (e'.1 ++ eq :: w), by rw [text_cons, hw]; simp⟩

/-- **A text is read back** if no key has the first delimiter and no value the second. -/
theorem text_injective (hes : ∀ e ∈ es, eq ∉ e.1 ∧ sep ∉ e.2)
    (hes' : ∀ e ∈ es', eq ∉ e.1 ∧ sep ∉ e.2) (h : text eq sep es = text eq sep es') : es = es' := by
  induction es generalizing es' with
  | nil => exact (text_eq_nil_iff.mp h.symm).symm
  | cons e es ih =>
    cases es' with
    | nil => exact text_eq_nil_iff.mp h
    | cons e' es' =>
      rw [text_cons, text_cons] at h
      have he := hes e (List.mem_cons_self ..)
      have he' := hes' e' (List.mem_cons_self ..)
      obtain ⟨hkey, h⟩ := append_cons_inj he.1 he'.1 h
      obtain ⟨hvalue, h⟩ := append_cons_inj he.2 he'.2 h
      rw [Prod.ext hkey hvalue, ih (fun x hx => hes x (List.mem_cons_of_mem _ hx))
        (fun x hx => hes' x (List.mem_cons_of_mem _ hx)) h]

/-- **Two keys and values spell one**, whose value has the delimiters in it. -/
theorem text_cons_cons (k v k' v' : List α) (es : List (List α × List α)) :
    text eq sep ((k, v) :: (k', v') :: es) =
      text eq sep ((k, v ++ sep :: (k' ++ eq :: v')) :: es) := by
  simp [text_cons]

/-- **What spells one key and value**: itself, and the lists that cut its value at a delimiter of
each kind. -/
theorem text_eq_text_singleton {k v : List α} (hk : eq ∉ k) (hes : ∀ e ∈ es, eq ∉ e.1)
    (h : text eq sep es = text eq sep [(k, v)]) :
    es = [(k, v)] ∨ ∃ a k' b w tail, es = (k, a) :: (k', b) :: tail ∧
      v = a ++ sep :: (k' ++ eq :: w) := by
  cases es with
  | nil => exact absurd (text_eq_nil_iff.mp h.symm) (List.cons_ne_nil _ _)
  | cons e es =>
    rw [text_cons, text_cons] at h
    obtain ⟨hkey, h⟩ := append_cons_inj (hes e (List.mem_cons_self ..)) hk h
    cases es with
    | nil =>
      rw [text_nil] at h
      exact Or.inl (by rw [Prod.ext hkey (List.append_cancel_right h)])
    | cons e' es =>
      refine Or.inr ?_
      obtain ⟨w, hw⟩ : ∃ w, text eq sep (e' :: es) = e'.1 ++ eq :: (w ++ [sep]) :=
        exists_text_cons e' es
      rw [hw, text_nil] at h
      refine ⟨e.2, e'.1, e'.2, w, es, by rw [← hkey], ?_⟩
      have hrest : (e.2 ++ sep :: (e'.1 ++ eq :: w)) ++ [sep] = v ++ [sep] := by
        rw [← h]
        simp
      exact (List.append_cancel_right hrest).symm

end Delimited
