import Mathlib.Data.List.Lex
import Mathlib.Data.List.Perm.Basic
import Mathlib.Data.Prod.Lex
import Mathlib.Data.List.Sort

/-!
# Ordered finite maps

A finite map kept as the list of its entries, strictly increasing in the key: the
functional content of an ordered tree map. The order is a *field* of the structure
(`SortedMap.sorted`), so two maps with the same lookups are equal
(`SortedMap.ext_get?`) and a map can itself be the key of another map.

One update does all the work: `SortedMap.upsert` replaces the value at a key by a
function of what was there. Inserting is its constant case, and "find the entry or
default it, then push" is its other use. Everything an update does to the entries is
said once, by `SortedMap.upsert_split`: the entries before and after the key are
untouched. The multiset of what a map holds under a key is then a matter of
rearranging appends.
-/

/-- A finite map, as the list of its entries in strictly increasing key order. -/
structure SortedMap (α β : Type) [LinearOrder α] where
  /-- The entries, in key order. -/
  entries : List (α × β)
  /-- The keys are strictly increasing, hence distinct. -/
  sorted : entries.Pairwise fun a b => a.1 < b.1

namespace SortedMap

variable {α β γ : Type} [LinearOrder α]

/-- Two maps with the same entries are equal. -/
theorem ext_entries {m m' : SortedMap α β} (h : m.entries = m'.entries) : m = m' := by
  cases m
  cases m'
  cases h
  rfl

instance [DecidableEq β] : DecidableEq (SortedMap α β) := fun m m' =>
  decidable_of_iff (m.entries = m'.entries) ⟨ext_entries, fun h => h ▸ rfl⟩

/-- The map with no entry. -/
def empty : SortedMap α β := ⟨[], List.Pairwise.nil⟩

instance : Inhabited (SortedMap α β) := ⟨empty⟩

@[simp] theorem entries_empty : (empty : SortedMap α β).entries = [] := rfl

/-- Whether a map has no entry. -/
def isEmpty (m : SortedMap α β) : Bool := m.entries.isEmpty

/-- The keys, in increasing order. -/
def keys (m : SortedMap α β) : List α := m.entries.map Prod.fst

/-- The values, in key order. -/
def values (m : SortedMap α β) : List β := m.entries.map Prod.snd

@[simp] theorem keys_empty : (empty : SortedMap α β).keys = [] := rfl

theorem keys_pairwise (m : SortedMap α β) : m.keys.Pairwise (· < ·) :=
  List.pairwise_map.mpr m.sorted

theorem keys_nodup (m : SortedMap α β) : m.keys.Nodup :=
  m.keys_pairwise.imp ne_of_lt

theorem entries_nodup (m : SortedMap α β) : m.entries.Nodup := m.keys_nodup.of_map

/-! ### Lookup -/

/-- The value held under a key in a list of entries, the first one found. -/
def lookup (k : α) : List (α × β) → Option β
  | [] => none
  | (k', v) :: l => if k = k' then some v else lookup k l

@[simp] theorem lookup_nil (k : α) : lookup k ([] : List (α × β)) = none := rfl

theorem lookup_cons (k k' : α) (v : β) (l : List (α × β)) :
    lookup k ((k', v) :: l) = if k = k' then some v else lookup k l := rfl

/-- The value held under a key. -/
def get? (m : SortedMap α β) (k : α) : Option β := lookup k m.entries

/-- Whether a key has an entry. -/
def contains (m : SortedMap α β) (k : α) : Bool := (m.get? k).isSome

@[simp] theorem get?_empty (k : α) : (empty : SortedMap α β).get? k = none := rfl

theorem lookup_eq_none_iff {k : α} {l : List (α × β)} :
    lookup k l = none ↔ ∀ e ∈ l, e.1 ≠ k := by
  induction l with
  | nil => simp
  | cons e l ih =>
    obtain ⟨k', v⟩ := e
    by_cases h : k = k'
    · simp [lookup_cons, h]
    · simp [lookup_cons, h, ih, Ne.symm h]

theorem mem_of_lookup {k : α} {v : β} {l : List (α × β)} (h : lookup k l = some v) :
    (k, v) ∈ l := by
  induction l with
  | nil => simp at h
  | cons e l ih =>
    obtain ⟨k', v'⟩ := e
    rw [lookup_cons] at h
    split_ifs at h with hk
    · cases h
      simp [hk]
    · exact List.mem_cons_of_mem _ (ih h)

theorem lookup_of_mem {k : α} {v : β} {l : List (α × β)}
    (hs : l.Pairwise fun a b => a.1 < b.1) (h : (k, v) ∈ l) : lookup k l = some v := by
  induction l with
  | nil => simp at h
  | cons e l ih =>
    obtain ⟨k', v'⟩ := e
    rw [List.pairwise_cons] at hs
    rw [lookup_cons]
    rcases List.mem_cons.mp h with he | hl
    · cases he
      simp
    · have hlt : k' < k := hs.1 _ hl
      rw [if_neg (ne_of_gt hlt)]
      exact ih hs.2 hl

/-- **Lookup is membership**: the keys being distinct, the entry found is the entry. -/
theorem get?_eq_some_iff {m : SortedMap α β} {k : α} {v : β} :
    m.get? k = some v ↔ (k, v) ∈ m.entries :=
  ⟨mem_of_lookup, lookup_of_mem m.sorted⟩

theorem contains_iff_mem_keys {m : SortedMap α β} {k : α} :
    m.contains k = true ↔ k ∈ m.keys := by
  constructor
  · intro h
    obtain ⟨v, hv⟩ := Option.isSome_iff_exists.mp h
    exact List.mem_map.mpr ⟨(k, v), get?_eq_some_iff.mp hv, rfl⟩
  · intro h
    obtain ⟨⟨k', v⟩, hm, rfl⟩ := List.mem_map.mp h
    exact Option.isSome_iff_exists.mpr ⟨v, get?_eq_some_iff.mpr hm⟩

/-- **Extensionality**: maps with the same lookups are the same map. -/
theorem ext_get? {m m' : SortedMap α β} (h : ∀ k, m.get? k = m'.get? k) : m = m' := by
  apply ext_entries
  have hmem : ∀ e : α × β, e ∈ m.entries ↔ e ∈ m'.entries := by
    rintro ⟨k, v⟩
    rw [← get?_eq_some_iff, ← get?_eq_some_iff, h]
  have hp : m.entries.Perm m'.entries :=
    (List.perm_ext_iff_of_nodup m.entries_nodup m'.entries_nodup).mpr hmem
  exact hp.eq_of_pairwise (fun a b _ _ hab hba => absurd hab (lt_asymm hba)) m.sorted m'.sorted

/-! ### Update -/

/-- Replace the value under a key by a function of what was there, in a list of entries
in key order. -/
def upsertList (k : α) (f : Option β → β) : List (α × β) → List (α × β)
  | [] => [(k, f none)]
  | (k', v) :: l =>
    if k < k' then (k, f none) :: (k', v) :: l
    else if k = k' then (k, f (some v)) :: l
    else (k', v) :: upsertList k f l

/-- **What an update does to the entries**: the entries below and above the key stay, and
between them stands the key with its new value. -/
theorem upsertList_split (k : α) (f : Option β → β) {l : List (α × β)}
    (hs : l.Pairwise fun a b => a.1 < b.1) :
    ∃ a b, (∀ e ∈ a, e.1 < k) ∧ (∀ e ∈ b, k < e.1) ∧
      upsertList k f l = a ++ (k, f (lookup k l)) :: b ∧
      l = a ++ ((lookup k l).toList.map fun v => (k, v)) ++ b := by
  induction l with
  | nil => exact ⟨[], [], by simp, by simp, rfl, rfl⟩
  | cons e l ih =>
    obtain ⟨k', v⟩ := e
    rw [List.pairwise_cons] at hs
    rcases lt_trichotomy k k' with hlt | rfl | hgt
    · -- the key is below every entry, so it has none yet
      have hnone : lookup k ((k', v) :: l) = none := by
        refine lookup_eq_none_iff.mpr fun e he => ?_
        rcases List.mem_cons.mp he with rfl | he
        · exact ne_of_gt hlt
        · exact ne_of_gt (hlt.trans (hs.1 e he))
      refine ⟨[], (k', v) :: l, by simp, fun e he => ?_, ?_, ?_⟩
      · rcases List.mem_cons.mp he with rfl | he
        · exact hlt
        · exact hlt.trans (hs.1 e he)
      · rw [upsertList, if_pos hlt, hnone]
        rfl
      · rw [hnone]
        rfl
    · refine ⟨[], l, by simp, fun e he => hs.1 e he, ?_, ?_⟩
      · rw [upsertList, if_neg (lt_irrefl k), if_pos rfl, lookup_cons, if_pos rfl]
        rfl
      · rw [lookup_cons, if_pos rfl]
        rfl
    · obtain ⟨a, b, ha, hb, hu, hl⟩ := ih hs.2
      have hne : k ≠ k' := ne_of_gt hgt
      refine ⟨(k', v) :: a, b, ?_, hb, ?_, ?_⟩
      · intro e he
        rcases List.mem_cons.mp he with rfl | he
        · exact hgt
        · exact ha e he
      · rw [upsertList, if_neg (lt_asymm hgt), if_neg hne, lookup_cons, if_neg hne, hu]
        rfl
      · rw [lookup_cons, if_neg hne]
        exact congrArg ((k', v) :: ·) hl

theorem sorted_around {k : α} {v : β} {a b : List (α × β)} (ha : ∀ e ∈ a, e.1 < k)
    (hb : ∀ e ∈ b, k < e.1) (hsa : a.Pairwise fun x y => x.1 < y.1)
    (hsb : b.Pairwise fun x y => x.1 < y.1) :
    (a ++ (k, v) :: b).Pairwise fun x y => x.1 < y.1 := by
  refine List.pairwise_append.mpr ⟨hsa, List.pairwise_cons.mpr ⟨fun e he => hb e he, hsb⟩, ?_⟩
  intro x hx y hy
  rcases List.mem_cons.mp hy with rfl | hy
  · exact ha x hx
  · exact (ha x hx).trans (hb y hy)

theorem upsertList_sorted (k : α) (f : Option β → β) {l : List (α × β)}
    (hs : l.Pairwise fun a b => a.1 < b.1) :
    (upsertList k f l).Pairwise fun a b => a.1 < b.1 := by
  obtain ⟨a, b, ha, hb, hu, hl⟩ := upsertList_split k f hs
  rw [hu]
  have hsub : (a ++ b).Sublist l := by
    rw [hl, List.append_assoc]
    exact List.Sublist.append (List.Sublist.refl a) (List.sublist_append_right _ b)
  have hab := List.pairwise_append.mp (hs.sublist hsub)
  exact sorted_around ha hb hab.1 hab.2.1

/-- Replace the value under a key by a function of what was there. -/
def upsert (m : SortedMap α β) (k : α) (f : Option β → β) : SortedMap α β :=
  ⟨upsertList k f m.entries, upsertList_sorted k f m.sorted⟩

/-- Put a value under a key, over what was there. -/
def insert (m : SortedMap α β) (k : α) (v : β) : SortedMap α β := m.upsert k fun _ => v

/-- Put a value at the end of the list under a key, starting it if there is none. -/
def push (m : SortedMap α (List β)) (k : α) (v : β) : SortedMap α (List β) :=
  m.upsert k fun vs => vs.getD [] ++ [v]

/-- `upsertList_split` for maps. -/
theorem upsert_split (m : SortedMap α β) (k : α) (f : Option β → β) :
    ∃ a b, (∀ e ∈ a, e.1 < k) ∧ (∀ e ∈ b, k < e.1) ∧
      (m.upsert k f).entries = a ++ (k, f (m.get? k)) :: b ∧
      m.entries = a ++ ((m.get? k).toList.map fun v => (k, v)) ++ b :=
  upsertList_split k f m.sorted

/-- An update at a key no smaller than any other happens at the end. -/
theorem upsert_last (m : SortedMap α β) {k : α} (h : ∀ k' ∈ m.keys, k' ≤ k) (f : Option β → β) :
    ∃ a, (m.upsert k f).entries = a ++ [(k, f (m.get? k))] ∧
      m.entries = a ++ (m.get? k).toList.map fun v => (k, v) := by
  obtain ⟨a, b, -, hb, hu, hl⟩ := m.upsert_split k f
  have hnil : b = [] := by
    refine List.eq_nil_iff_forall_not_mem.mpr fun e he => ?_
    have hmem : e.1 ∈ m.keys := List.mem_map_of_mem (hl ▸ List.mem_append_right _ he)
    exact absurd (h _ hmem) (not_le_of_gt (hb e he))
  subst hnil
  exact ⟨a, hu, by rw [hl, List.append_nil]⟩

theorem le_getLast_keys {m : SortedMap α β} {k k' : α} (h : m.keys.getLast? = some k)
    (h' : k' ∈ m.keys) : k' ≤ k := by
  obtain ⟨l, hl⟩ := List.getLast?_eq_some_iff.mp h
  rw [hl] at h'
  rcases List.mem_append.mp h' with h' | h'
  · have hp := m.keys_pairwise
    rw [hl] at hp
    exact ((List.pairwise_append.mp hp).2.2 _ h' _ (List.mem_singleton_self k)).le
  · exact (List.mem_singleton.mp h').le

/-- An entry after an update is the updated one or an old one under another key. -/
theorem mem_entries_upsert {m : SortedMap α β} {k k' : α} {f : Option β → β} {v : β} :
    (k', v) ∈ (m.upsert k f).entries ↔
      (k' = k ∧ v = f (m.get? k)) ∨ (k' ≠ k ∧ (k', v) ∈ m.entries) := by
  obtain ⟨a, b, ha, hb, hu, hl⟩ := m.upsert_split k f
  rw [hu, hl]
  constructor
  · intro h
    rcases List.mem_append.mp h with h | h
    · exact Or.inr ⟨ne_of_lt (ha _ h), by simp [h]⟩
    · rcases List.mem_cons.mp h with h | h
      · cases h
        exact Or.inl ⟨rfl, rfl⟩
      · exact Or.inr ⟨ne_of_gt (hb _ h), by simp [h]⟩
  · rintro (⟨rfl, rfl⟩ | ⟨hne, h⟩)
    · simp
    · simp only [List.mem_append, List.mem_map] at h
      rcases h with (h | ⟨w, -, hw⟩) | h
      · simp [h]
      · exact absurd (congrArg Prod.fst hw).symm hne
      · simp [h]

@[simp] theorem get?_upsert_self (m : SortedMap α β) (k : α) (f : Option β → β) :
    (m.upsert k f).get? k = some (f (m.get? k)) :=
  get?_eq_some_iff.mpr (mem_entries_upsert.mpr (Or.inl ⟨rfl, rfl⟩))

theorem get?_upsert_ne (m : SortedMap α β) {k k' : α} (h : k' ≠ k) (f : Option β → β) :
    (m.upsert k f).get? k' = m.get? k' := by
  refine Option.ext fun v => ?_
  rw [get?_eq_some_iff, get?_eq_some_iff, mem_entries_upsert]
  simp [h]

theorem mem_keys_upsert {m : SortedMap α β} {k k' : α} {f : Option β → β} :
    k' ∈ (m.upsert k f).keys ↔ k' = k ∨ k' ∈ m.keys := by
  rcases eq_or_ne k' k with rfl | hne
  · simp [← contains_iff_mem_keys, contains]
  · simp [← contains_iff_mem_keys, contains, get?_upsert_ne m hne, hne]

@[simp] theorem mem_keys_insert {m : SortedMap α β} {k k' : α} {v : β} :
    k' ∈ (m.insert k v).keys ↔ k' = k ∨ k' ∈ m.keys := mem_keys_upsert

/-- **An update of one key rearranges what a map spells**: the other keys spell what they
did, and the updated one what it did and something more. -/
theorem flatMap_upsert_perm (g : α × β → List γ) (m : SortedMap α β) (k : α)
    (f : Option β → β) (extra : List γ)
    (h : (g (k, f (m.get? k))).Perm
      (extra ++ (m.get? k).toList.flatMap fun v => g (k, v))) :
    ((m.upsert k f).entries.flatMap g).Perm (extra ++ m.entries.flatMap g) := by
  obtain ⟨a, b, -, -, hu, hl⟩ := m.upsert_split k f
  rw [hu, hl]
  simp only [List.flatMap_append, List.flatMap_cons, List.flatMap_map]
  refine ((h.append_right _).append_left _).trans ?_
  simp only [List.append_assoc]
  exact List.perm_append_comm_assoc _ _ _

/-- **What a map spells for one key** is spelled by the entry of that key. -/
theorem filter_flatMap_entries {m : SortedMap α β} {g : α × β → List γ} {p : γ → Bool} {k : α}
    (h : ∀ e ∈ m.entries, ∀ x ∈ g e, p x = true → e.1 = k) :
    (m.entries.flatMap g).filter p =
      (m.get? k).toList.flatMap fun v => (g (k, v)).filter p := by
  have hother : ∀ l : List (α × β), (∀ e ∈ l, e ∈ m.entries ∧ e.1 ≠ k) →
      (l.flatMap g).filter p = [] := by
    intro l hl
    refine List.filter_eq_nil_iff.mpr fun x hx hpx => ?_
    obtain ⟨e, he, hx⟩ := List.mem_flatMap.mp hx
    exact (hl e he).2 (h e (hl e he).1 x hx hpx)
  rcases hget : m.get? k with _ | v
  · refine hother _ fun e he => ⟨he, ?_⟩
    rintro rfl
    have hmem : (e.1, e.2) ∈ m.entries := he
    rw [get?_eq_some_iff.mpr hmem] at hget
    cases hget
  · have hmem := get?_eq_some_iff.mp hget
    obtain ⟨a, b, hab⟩ := List.append_of_mem hmem
    have hnodup : (a.map Prod.fst ++ k :: b.map Prod.fst).Nodup := by
      have := m.keys_nodup
      rw [keys, hab, List.map_append, List.map_cons] at this
      exact this
    have hk : k ∉ a.map Prod.fst ++ b.map Prod.fst := (List.nodup_middle.mp hnodup).notMem
    have hne : ∀ e ∈ a ++ b, e ∈ m.entries ∧ e.1 ≠ k := by
      intro e he
      refine ⟨?_, ?_⟩
      · rw [hab]
        rcases List.mem_append.mp he with he | he
        · exact List.mem_append_left _ he
        · exact List.mem_append_right _ (List.mem_cons_of_mem _ he)
      · rintro rfl
        exact hk (by rw [← List.map_append]; exact List.mem_map_of_mem he)
    have ha := hother a fun e he => hne e (List.mem_append_left _ he)
    have hb := hother b fun e he => hne e (List.mem_append_right _ he)
    rw [hab, List.flatMap_append, List.flatMap_cons, List.filter_append, List.filter_append, ha, hb,
      List.nil_append, List.append_nil, Option.toList_some, List.flatMap_singleton]

/-- **Updates under different keys do not meet**: what a run of updates leaves under a key is what
those of that key make of what was there. -/
theorem get?_foldl_upsert (key : γ → α) (f : γ → Option β → β) (k : α) (rows : List γ) :
    ∀ m : SortedMap α β, (rows.foldl (fun m r => m.upsert (key r) (f r)) m).get? k =
      (rows.filter fun r => decide (key r = k)).foldl (fun o r => some (f r o)) (m.get? k) := by
  induction rows with
  | nil => exact fun _ => rfl
  | cons r rows ih =>
    intro m
    rw [List.foldl_cons, ih]
    by_cases hk : key r = k
    · have hget : (m.upsert (key r) (f r)).get? k = some (f r (m.get? k)) := by
        rw [← hk, get?_upsert_self]
      rw [List.filter_cons_of_pos (by simpa using hk), List.foldl_cons, hget]
    · rw [List.filter_cons_of_neg (by simpa using hk), get?_upsert_ne m (Ne.symm hk)]

theorem mem_keys_foldl_upsert {key : γ → α} {f : γ → Option β → β} {k : α} {rows : List γ}
    {m : SortedMap α β} :
    k ∈ (rows.foldl (fun m r => m.upsert (key r) (f r)) m).keys ↔
      k ∈ m.keys ∨ ∃ r ∈ rows, key r = k := by
  induction rows generalizing m with
  | nil => simp
  | cons r rows ih =>
    rw [List.foldl_cons, ih, mem_keys_upsert]
    grind

theorem foldl_upsert_congr (key : γ → α) {f : γ → Option β → β} {rows rows' : List γ}
    {m : SortedMap α β}
    (h : ∀ k, (rows.filter fun r => decide (key r = k)) =
      rows'.filter fun r => decide (key r = k)) :
    rows.foldl (fun m r => m.upsert (key r) (f r)) m =
      rows'.foldl (fun m r => m.upsert (key r) (f r)) m :=
  ext_get? fun k => by rw [get?_foldl_upsert, get?_foldl_upsert, h k]

/-! ### Restriction and construction -/

/-- The entries whose key and value pass a test. -/
def filter (m : SortedMap α β) (p : α → β → Bool) : SortedMap α β :=
  ⟨m.entries.filter fun e => p e.1 e.2, m.sorted.filter _⟩

/-- The map without a key. -/
def erase (m : SortedMap α β) (k : α) : SortedMap α β := m.filter fun k' _ => k' ≠ k

theorem mem_entries_filter {m : SortedMap α β} {p : α → β → Bool} {k : α} {v : β} :
    (k, v) ∈ (m.filter p).entries ↔ (k, v) ∈ m.entries ∧ p k v = true := by
  simp [filter]

/-- **A test that, once passed, is passed by every later entry** keeps the end of a map. -/
theorem entries_eq_append_filter {m : SortedMap α β} {p : α → β → Bool}
    (h : m.entries.Pairwise fun a b => p a.1 a.2 = true → p b.1 b.2 = true) :
    m.entries = (m.entries.filter fun e => !p e.1 e.2) ++ (m.filter p).entries := by
  rw [filter]
  simp only
  generalize m.entries = l at h
  induction l with
  | nil => rfl
  | cons e l ih =>
    rw [List.pairwise_cons] at h
    by_cases he : p e.1 e.2 = true
    · have hall : ∀ b ∈ l, p b.1 b.2 = true := fun b hb => h.1 b hb he
      have hnone : (l.filter fun e => !p e.1 e.2) = [] :=
        List.filter_eq_nil_iff.mpr fun b hb => by simp [hall b hb]
      have hself : ((e :: l).filter fun e => p e.1 e.2) = e :: l :=
        List.filter_eq_self.mpr (List.forall_mem_cons.mpr ⟨he, hall⟩)
      rw [List.filter_cons_of_neg (by simp [he]), hnone, List.nil_append, hself]
    · have hneg : ((e :: l).filter fun e => p e.1 e.2) = l.filter fun e => p e.1 e.2 :=
        List.filter_cons_of_neg he
      rw [List.filter_cons_of_pos (by simp [he]), hneg, List.cons_append, ← ih h.2]

/-- The map of a list of entries, a later entry replacing an earlier one with its key. -/
def ofList (l : List (α × β)) : SortedMap α β :=
  l.foldl (fun m e => m.insert e.1 e.2) empty

theorem mem_keys_ofList {l : List (α × β)} {k : α} :
    k ∈ (ofList l).keys ↔ k ∈ l.map Prod.fst := by
  have h : ∀ (l : List (α × β)) (m : SortedMap α β),
      k ∈ (l.foldl (fun m e => m.insert e.1 e.2) m).keys ↔ k ∈ m.keys ∨ k ∈ l.map Prod.fst := by
    intro l
    induction l with
    | nil => simp
    | cons e l ih =>
      intro m
      rw [List.foldl_cons, ih, mem_keys_insert, List.map_cons, List.mem_cons, or_assoc,
        or_left_comm]
  rw [ofList, h, keys_empty]
  exact or_iff_right List.not_mem_nil

/-- **What a map of a list has under a key is in the list**, under that key. -/
theorem mem_of_get?_ofList {l : List (α × β)} {k : α} {v : β} (h : (ofList l).get? k = some v) :
    (k, v) ∈ l := by
  have hfold : ∀ (l : List (α × β)) (o : Option β),
      l.foldl (fun _ e => some e.2) o = some v → o = some v ∨ ∃ e ∈ l, e.2 = v := by
    intro l
    induction l with
    | nil => exact fun o ho => Or.inl ho
    | cons e l ih =>
      intro o ho
      rcases ih (some e.2) ho with heq | ⟨e', he', hv⟩
      · exact Or.inr ⟨e, List.mem_cons_self .., Option.some.inj heq⟩
      · exact Or.inr ⟨e', List.mem_cons_of_mem _ he', hv⟩
  have hget : (ofList l).get? k = _ :=
    get?_foldl_upsert Prod.fst (fun (e : α × β) _ => e.2) k l .empty
  rw [h] at hget
  rcases hfold _ _ hget.symm with hempty | ⟨e, he, rfl⟩
  · cases hempty
  · obtain ⟨hmem, hk⟩ := List.mem_filter.mp he
    rw [← of_decide_eq_true hk]
    exact hmem

/-- **The only value of a list under a key** is what the map of the list has there. -/
theorem get?_ofList_of_unique {l : List (α × β)} {k : α} {v : β} (h : (k, v) ∈ l)
    (hunique : ∀ v', (k, v') ∈ l → v' = v) : (ofList l).get? k = some v := by
  have hkey : k ∈ (ofList l).keys := mem_keys_ofList.mpr (List.mem_map.mpr ⟨_, h, rfl⟩)
  obtain ⟨v', hv'⟩ := Option.isSome_iff_exists.mp (contains_iff_mem_keys.mpr hkey)
  rw [hv', hunique v' (mem_of_get?_ofList hv')]

theorem ofList_entries (m : SortedMap α β) : ofList m.entries = m := by
  have hsome : ∀ {k v}, m.get? k = some v → (ofList m.entries).get? k = some v := by
    intro k v hv
    refine get?_ofList_of_unique (get?_eq_some_iff.mp hv) fun v' hv' => ?_
    rw [get?_eq_some_iff.mpr hv'] at hv
    exact Option.some.inj hv
  refine ext_get? fun k => ?_
  rcases hk : m.get? k with _ | v
  · by_contra hne
    obtain ⟨v, hv⟩ := Option.ne_none_iff_exists'.mp hne
    rw [get?_eq_some_iff.mpr (mem_of_get?_ofList hv)] at hk
    cases hk
  · exact hsome hk

/-- **Entries in any order make the same map**, as long as every key has one. -/
theorem ofList_perm {l l' : List (α × β)} (h : l.Perm l') (hkeys : (l.map Prod.fst).Nodup) :
    ofList l = ofList l' := by
  have hget : ∀ {l₁ l₂ : List (α × β)} {k : α} {v : β}, l₁.Perm l₂ → (l₂.map Prod.fst).Nodup →
      (ofList l₁).get? k = some v → (ofList l₂).get? k = some v := by
    intro l₁ l₂ k v hperm hnodup hv
    have hmem := hperm.subset (mem_of_get?_ofList hv)
    refine get?_ofList_of_unique hmem fun v' hv' => ?_
    exact (Prod.ext_iff.mp (List.inj_on_of_nodup_map hnodup hv' hmem rfl)).2
  refine ext_get? fun k => Option.ext fun v => ⟨hget h ((h.map _).nodup_iff.mp hkeys), ?_⟩
  exact hget h.symm hkeys

/-- The entries of the map of a list, as long as every key of it has one. -/
theorem entries_ofList_perm {l : List (α × β)} (hkeys : (l.map Prod.fst).Nodup) :
    (ofList l).entries.Perm l := by
  refine (List.perm_ext_iff_of_nodup (entries_nodup _) hkeys.of_map).mpr fun e => ?_
  constructor
  · exact fun he => mem_of_get?_ofList (get?_eq_some_iff.mpr he)
  · intro he
    refine get?_eq_some_iff.mp (get?_ofList_of_unique he fun v hv => ?_)
    exact (Prod.ext_iff.mp (List.inj_on_of_nodup_map hkeys hv he rfl)).2

/-- Maps compare as their lists of entries do, lexicographically. -/
instance [LinearOrder β] : LinearOrder (SortedMap α β) :=
  LinearOrder.lift' (fun m => m.entries.map toLex) fun _ _ h =>
    ext_entries (List.map_injective_iff.mpr toLex.injective h)

end SortedMap
