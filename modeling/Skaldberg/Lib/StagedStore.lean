import Mathlib.Algebra.Order.Group.Multiset
import Mathlib.Data.Multiset.Filter
import Mathlib.Data.Set.Lattice
import Mathlib.Order.CompletePartialOrder

/-!
# Stores with a stage

Items are accepted on a stage and moved from there into a store, all that is on the stage at a
time. An item is found under its key, and for that the key has to be listed: the move that is the
first to meet a key lists it, and no later one will, whether or not that works out.

`StagedStore.next` says what the operations do, and the rules say what they cannot do. No item is
made up (`StagedStore.Sound`), none that is found is lost (`StagedStore.visible_le_next`), and as
long as every move works out none is lost at all (`StagedStore.Lossless`): with nothing under way,
all that was accepted is found.
-/

/-- A store of items with a stage, and the keys its items are found under. -/
structure StagedStore (α κ : Type) where
  /-- The items accepted so far. -/
  accepted : Multiset α
  /-- The items on the stage. -/
  pending : Multiset α
  /-- The items that are being moved. -/
  moving : Multiset α
  /-- The items of the store. -/
  stored : Multiset α
  /-- The keys that no move to come will list. -/
  known : Set κ
  /-- The keys that the move under way is to list. -/
  fresh : Set κ
  /-- The keys that items are found under. -/
  listed : Set κ

namespace StagedStore

variable {α κ : Type}

/-- What can be done to a store. -/
inductive Action (α : Type) where
  /-- Items are accepted. -/
  | accept (items : List α)
  /-- A move begins. -/
  | take
  /-- A move ends: its items are stored or lost, its keys listed or not. -/
  | commit (items keys : Bool)

/-- The empty store, with keys listed already. -/
def empty (keys : Set κ) : StagedStore α κ := ⟨0, 0, 0, 0, keys, ∅, keys⟩

section Next

variable (key : α → κ) (s : StagedStore α κ)

/-- What an operation leads to. A move whose items are lost does not list its keys. -/
def next : Action α → StagedStore α κ
  | .accept items => { s with accepted := s.accepted + items, pending := s.pending + items }
  | .take => { s with
      pending := 0
      moving := s.moving + s.pending
      known := s.known ∪ {k | ∃ x ∈ s.pending, key x = k}
      fresh := s.fresh ∪ {k | k ∉ s.known ∧ ∃ x ∈ s.pending, key x = k} }
  | .commit items keys => { s with
      moving := 0
      stored := if items then s.stored + s.moving else s.stored
      fresh := ∅
      listed := if items && keys then s.listed ∪ s.fresh else s.listed }

open Classical in
/-- The items that are found. -/
noncomputable def visible : Multiset α := s.stored.filter fun x => key x ∈ s.listed

variable {key s}

theorem mem_visible {x : α} : x ∈ s.visible key ↔ x ∈ s.stored ∧ key x ∈ s.listed := by
  classical
  rw [visible, Multiset.mem_filter]

theorem visible_le_stored : s.visible key ≤ s.stored := by
  classical
  exact Multiset.filter_le _ _

/-- Accepting nothing changes nothing. -/
theorem next_accept_nil (key : α → κ) (s : StagedStore α κ) : s.next key (.accept []) = s := by
  rw [next, Multiset.coe_nil, add_zero, add_zero]

/-- What is accepted stays accepted. -/
theorem accepted_le_next (key : α → κ) (s : StagedStore α κ) (a : Action α) :
    s.accepted ≤ (s.next key a).accepted := by
  cases a with
  | accept items => exact Multiset.le_add_right _ _
  | take => exact le_rfl
  | commit items keys => exact le_rfl

/-- **What is found stays found.** -/
theorem visible_le_next (key : α → κ) (s : StagedStore α κ) (a : Action α) :
    s.visible key ≤ (s.next key a).visible key := by
  classical
  cases a with
  | accept items => exact le_rfl
  | take => exact le_rfl
  | commit items keys =>
    refine Multiset.le_filter.mpr ⟨visible_le_stored.trans ?_, fun x hx => ?_⟩
    · change s.stored ≤ if items then s.stored + s.moving else s.stored
      split_ifs
      · exact Multiset.le_add_right _ _
      · exact le_rfl
    · change key x ∈ if items && keys then s.listed ∪ s.fresh else s.listed
      split_ifs
      · exact Or.inl (mem_visible.mp hx).2
      · exact (mem_visible.mp hx).2

/-! ### Nothing is made up -/

/-- What is on the stage, moved or stored was accepted, each item as often. -/
def Sound (s : StagedStore α κ) : Prop := s.pending + s.moving + s.stored ≤ s.accepted

theorem sound_empty (keys : Set κ) : (empty keys : StagedStore α κ).Sound := le_rfl

theorem Sound.next (h : s.Sound) (a : Action α) : (s.next key a).Sound := by
  cases a with
  | accept items =>
    change s.pending + items + s.moving + s.stored ≤ s.accepted + items
    rw [add_right_comm s.pending, add_right_comm]
    exact add_le_add_left h _
  | take =>
    change 0 + (s.moving + s.pending) + s.stored ≤ s.accepted
    rwa [zero_add, add_comm s.moving]
  | commit items keys =>
    change s.pending + 0 + (if items then s.stored + s.moving else s.stored) ≤ s.accepted
    rw [add_zero]
    refine le_trans ?_ h
    rw [add_assoc, add_comm s.moving]
    refine add_le_add_right ?_ _
    split_ifs
    · exact le_rfl
    · exact Multiset.le_add_right _ _

/-- **What is found was accepted**, and is found no more often. -/
theorem Sound.visible_le (h : s.Sound) : s.visible key ≤ s.accepted :=
  visible_le_stored.trans ((Multiset.le_add_left _ _).trans h)

/-! ### No key is listed twice -/

/-- A key that is about to be listed is not listed, and no key of either kind will be met as a new
one. -/
structure Apart (s : StagedStore α κ) : Prop where
  /-- What is listed is known. -/
  listed : s.listed ⊆ s.known
  /-- What is about to be listed is known. -/
  fresh : s.fresh ⊆ s.known
  /-- What is about to be listed is not listed. -/
  disjoint : Disjoint s.fresh s.listed

theorem apart_empty (keys : Set κ) : (empty keys : StagedStore α κ).Apart where
  listed := subset_rfl
  fresh := Set.empty_subset _
  disjoint := Set.empty_disjoint _

theorem Apart.next (h : s.Apart) (a : Action α) : (s.next key a).Apart := by
  cases a with
  | accept items => exact ⟨h.listed, h.fresh, h.disjoint⟩
  | take =>
    refine ⟨h.listed.trans Set.subset_union_left, ?_, ?_⟩
    · exact Set.union_subset_union h.fresh fun k hk => hk.2
    · refine Set.disjoint_union_left.mpr ⟨h.disjoint, ?_⟩
      exact Set.disjoint_left.mpr fun k hk hlisted => hk.1 (h.listed hlisted)
  | commit items keys =>
    refine ⟨?_, Set.empty_subset _, Set.empty_disjoint _⟩
    change (if items && keys then s.listed ∪ s.fresh else s.listed) ⊆ s.known
    split_ifs
    · exact Set.union_subset h.listed h.fresh
    · exact h.listed

/-! ### Nothing is lost -/

/-- A move works out. -/
def Action.Lands : Action α → Prop
  | .commit items keys => items = true ∧ keys = true
  | _ => True

/-- A key that is known, or has an item that is moved, is listed or about to be. -/
structure Keyed (key : α → κ) (s : StagedStore α κ) : Prop where
  /-- What is known is listed or about to be. -/
  known : s.known ⊆ s.listed ∪ s.fresh
  /-- What is moved has a key that is listed or about to be. -/
  moving : ∀ x ∈ s.moving, key x ∈ s.listed ∪ s.fresh

theorem keyed_empty (key : α → κ) (keys : Set κ) : (empty keys).Keyed key where
  known := Set.subset_union_left
  moving x hx := absurd hx (Multiset.notMem_zero x)

theorem Keyed.next (h : s.Keyed key) {a : Action α} (ha : a.Lands) : (s.next key a).Keyed key := by
  cases a with
  | accept items => exact ⟨h.known, h.moving⟩
  | take =>
    have hknown : ∀ k, (∃ x ∈ s.pending, key x = k) →
        k ∈ s.listed ∪ (s.fresh ∪ {k | k ∉ s.known ∧ ∃ x ∈ s.pending, key x = k}) := by
      intro k hk
      by_cases hmem : k ∈ s.known
      · exact (h.known hmem).imp_right Or.inl
      · exact Or.inr (Or.inr ⟨hmem, hk⟩)
    refine ⟨?_, ?_⟩
    · rintro k (hk | hk)
      · exact (h.known hk).imp_right Or.inl
      · exact hknown k hk
    · intro x hx
      rcases Multiset.mem_add.mp hx with hx | hx
      · exact (h.moving x hx).imp_right Or.inl
      · exact hknown (key x) ⟨x, hx, rfl⟩
  | commit items keys =>
    obtain ⟨rfl, rfl⟩ := ha
    exact ⟨h.known.trans Set.subset_union_left, fun x hx => absurd hx (Multiset.notMem_zero x)⟩

/-- What was accepted is on the stage, moved or stored. -/
structure Lossless (key : α → κ) (s : StagedStore α κ) : Prop extends s.Keyed key where
  /-- No item is missing. -/
  items : s.pending + s.moving + s.stored = s.accepted
  /-- What is stored has a listed key. -/
  stored : ∀ x ∈ s.stored, key x ∈ s.listed

theorem lossless_empty (key : α → κ) (keys : Set κ) : (empty keys).Lossless key where
  toKeyed := keyed_empty key keys
  items := rfl
  stored x hx := absurd hx (Multiset.notMem_zero x)

theorem Lossless.next (h : s.Lossless key) {a : Action α} (ha : a.Lands) :
    (s.next key a).Lossless key := by
  have hkeyed := h.toKeyed.next ha
  cases a with
  | accept items =>
    refine ⟨hkeyed, ?_, h.stored⟩
    change s.pending + items + s.moving + s.stored = s.accepted + items
    rw [← h.items, add_right_comm s.pending, add_right_comm _ (items : Multiset α)]
  | take =>
    refine ⟨hkeyed, ?_, h.stored⟩
    change 0 + (s.moving + s.pending) + s.stored = s.accepted
    rw [zero_add, add_comm s.moving, h.items]
  | commit items keys =>
    obtain ⟨rfl, rfl⟩ := ha
    refine ⟨hkeyed, ?_, ?_⟩
    · change s.pending + 0 + (s.stored + s.moving) = s.accepted
      rw [add_zero, add_comm s.stored, ← add_assoc, h.items]
    · intro x hx
      rcases Multiset.mem_add.mp hx with hx | hx
      · exact Or.inl (h.stored x hx)
      · exact h.moving x hx

/-- **With nothing under way, all that was accepted is found.** -/
theorem Lossless.visible_eq (h : s.Lossless key) (hpending : s.pending = 0)
    (hmoving : s.moving = 0) : s.visible key = s.accepted := by
  classical
  rw [visible, Multiset.filter_eq_self.mpr h.stored, ← h.items, hpending, hmoving, add_zero,
    zero_add]

/-! ### Starting again -/

variable (s) in
/-- The store begins again with the given items on its stage: what was on the stage or moved is
gone, and no more is known than is listed. -/
def restart (items : List α) : StagedStore α κ where
  accepted := s.accepted + items
  pending := items
  moving := 0
  stored := s.stored
  known := s.listed
  fresh := ∅
  listed := s.listed

theorem Sound.restart (h : s.Sound) (items : List α) : (s.restart items).Sound := by
  change (items : Multiset α) + 0 + s.stored ≤ s.accepted + items
  rw [add_zero, add_comm]
  exact add_le_add_left ((Multiset.le_add_left _ _).trans h) _

theorem apart_restart (s : StagedStore α κ) (items : List α) : (s.restart items).Apart where
  listed := subset_rfl
  fresh := Set.empty_subset _
  disjoint := Set.empty_disjoint _

theorem keyed_restart (key : α → κ) (s : StagedStore α κ) (items : List α) :
    (s.restart items).Keyed key where
  known := Set.subset_union_left
  moving x hx := absurd hx (Multiset.notMem_zero x)

/-! ### Where an item is -/

/-- An item has left the stage, and is moved or found. -/
def Gone (key : α → κ) (s : StagedStore α κ) (x : α) : Prop :=
  x ∈ s.moving ∨ x ∈ s.visible key

/-- An item is on the stage, moved or found. -/
def Held (key : α → κ) (s : StagedStore α κ) (x : α) : Prop := x ∈ s.pending ∨ s.Gone key x

theorem Gone.next {x : α} (h : s.Gone key x) (hkeyed : s.Keyed key) {a : Action α} (ha : a.Lands) :
    (s.next key a).Gone key x := by
  have hvisible := Multiset.subset_of_le (visible_le_next key s a)
  rcases h with hx | hx
  · cases a with
    | accept items => exact Or.inl hx
    | take => exact Or.inl (Multiset.mem_add.mpr (Or.inl hx))
    | commit items keys =>
      obtain ⟨rfl, rfl⟩ := ha
      exact Or.inr (mem_visible.mpr ⟨Multiset.mem_add.mpr (Or.inr hx), hkeyed.moving x hx⟩)
  · exact Or.inr (hvisible hx)

/-- **An item that is held stays held**, as long as the moves work out. -/
theorem Held.next {x : α} (h : s.Held key x) (hkeyed : s.Keyed key) {a : Action α} (ha : a.Lands) :
    (s.next key a).Held key x := by
  rcases h with hx | hx
  · cases a with
    | accept items => exact Or.inl (Multiset.mem_add.mpr (Or.inl hx))
    | take => exact Or.inr (Or.inl (Multiset.mem_add.mpr (Or.inr hx)))
    | commit items keys => exact Or.inl hx
  · exact Or.inr (hx.next hkeyed ha)

/-- What is accepted is held. -/
theorem held_accept {items : List α} {x : α} (hx : x ∈ items) :
    (s.next key (.accept items)).Held key x :=
  Or.inl (Multiset.mem_add.mpr (Or.inr hx))

/-- A move takes all that is held off the stage. -/
theorem Held.gone_take {x : α} (h : s.Held key x) : (s.next key .take).Gone key x := by
  rcases h with hx | hx | hx
  · exact Or.inl (Multiset.mem_add.mpr (Or.inr hx))
  · exact Or.inl (Multiset.mem_add.mpr (Or.inl hx))
  · exact Or.inr (Multiset.subset_of_le (visible_le_next key s .take) hx)

/-- An item is held after a restart if it was found, or is among those to begin with. -/
theorem held_restart {items : List α} {x : α} (h : x ∈ items ∨ x ∈ s.visible key) :
    (s.restart items).Held key x :=
  h.imp id Or.inr

end Next

end StagedStore
