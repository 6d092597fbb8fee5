import Mathlib.Data.List.Perm.Lattice
import Skaldberg.Lib.SortedMap
import Skaldberg.Lib.Sql

/-!
# Groups, up to the order of their rows

A query groups a table by a key; a program pushes every row under its key in an ordered map. Both
make the same groups, in different orders and with their rows in different orders. This file is
what is needed to go from one to the other: grouping respects permutations of the table
(`Sql.groupBy_map_perm`) and injective renamings of the key (`Sql.groupBy_comp_key`), and the
entries of a map of pushes are the groups (`SortedMap.entries_foldl_push_perm`).

The rows that a window numbers up to `n` are the first `n` of each group
(`Sql.Engine.rowNumber_le`), so that the row numbered 1 is the one that comes first, where one
row does (`Sql.Engine.rowNumber_one_perm`). A window with all of each partition is made partition by
partition (`Sql.Engine.overPartition_window`).
-/

namespace Sql

variable {α β γ κ ι : Type} [DecidableEq κ] [DecidableEq ι]

/-! ### The groups of a table -/

/-- **The groups make up the table.** -/
theorem flatMap_groupBy_perm (key : α → κ) (rows : List α) :
    ((groupBy key rows).flatMap Prod.snd).Perm rows := by
  have h : ∀ (ks : List κ) (rows : List α), ks.Nodup → (∀ r ∈ rows, key r ∈ ks) →
      (ks.flatMap fun k => rows.filter fun r => decide (key r = k)).Perm rows := by
    intro ks
    induction ks with
    | nil =>
      intro rows _ hks
      have hnil : rows = [] :=
        List.eq_nil_iff_forall_not_mem.mpr fun r hr => by simpa using hks r hr
      rw [hnil]
      exact List.Perm.refl _
    | cons k ks ih =>
      intro rows hnodup hks
      obtain ⟨hk, hnodup⟩ := List.nodup_cons.mp hnodup
      -- the rows of the other keys are grouped by the other keys
      have hrest := ih (rows.filter fun r => !decide (key r = k)) hnodup fun r hr => by
        obtain ⟨hr, hne⟩ := List.mem_filter.mp hr
        rcases List.mem_cons.mp (hks r hr) with heq | hmem
        · simp [heq] at hne
        · exact hmem
      have hsame : (ks.flatMap fun k' => (rows.filter fun r => !decide (key r = k)).filter
          fun r => decide (key r = k')) =
            ks.flatMap fun k' => rows.filter fun r => decide (key r = k') := by
        refine List.flatMap_congr fun k' hk' => ?_
        rw [List.filter_filter]
        refine List.filter_congr fun r _ => ?_
        by_cases heq : key r = k'
        · have hne : k' ≠ k := fun h => hk (h ▸ hk')
          simp [heq, hne]
        · simp [heq]
      rw [List.flatMap_cons, ← hsame]
      exact (hrest.append_left _).trans (List.filter_append_perm _ rows)
  rw [groupBy, List.flatMap_map]
  exact h _ rows (List.nodup_dedup _) fun r hr => List.mem_dedup.mpr (List.mem_map_of_mem hr)

theorem map_fst_groupBy (key : α → κ) (rows : List α) :
    (groupBy key rows).map Prod.fst = (rows.map key).dedup := by
  rw [groupBy, List.map_map]
  exact List.map_id _

theorem nodup_groupBy_keys (key : α → κ) (rows : List α) :
    ((groupBy key rows).map Prod.fst).Nodup := by
  rw [map_fst_groupBy]
  exact List.nodup_dedup _

/-- **Groups do not depend on the order of the table**, as far as what is computed of each does
not depend on the order of its rows. -/
theorem groupBy_map_perm {key : α → κ} {f : κ → List α → β} {rows rows' : List α}
    (h : rows.Perm rows') (hf : ∀ k l l', l.Perm l' → (∀ r ∈ l, r ∈ rows) → f k l = f k l') :
    ((groupBy key rows).map fun g => f g.1 g.2).Perm
      ((groupBy key rows').map fun g => f g.1 g.2) := by
  rw [groupBy, groupBy, List.map_map, List.map_map]
  have hkeys : (rows.map key).dedup.Perm (rows'.map key).dedup := (h.map key).dedup
  refine (hkeys.map _).trans (List.Perm.of_eq (List.map_congr_left fun k _ => ?_))
  exact hf k _ _ (h.filter _) fun r hr => List.mem_of_mem_filter hr

theorem dedup_map_of_injOn {f : κ → ι} {l : List κ} (hf : ∀ a ∈ l, ∀ b ∈ l, f a = f b → a = b) :
    (l.map f).dedup = l.dedup.map f := by
  induction l with
  | nil => rfl
  | cons a l ih =>
    have ih := ih fun b hb c hc => hf b (List.mem_cons_of_mem _ hb) c (List.mem_cons_of_mem _ hc)
    rw [List.map_cons]
    by_cases ha : a ∈ l
    · rw [List.dedup_cons_of_mem ha, List.dedup_cons_of_mem (List.mem_map_of_mem ha), ih]
    · have hfa : f a ∉ l.map f := by
        rintro hmem
        obtain ⟨b, hb, hfb⟩ := List.mem_map.mp hmem
        have := hf b (List.mem_cons_of_mem _ hb) a (List.mem_cons_self ..) hfb
        exact ha (this ▸ hb)
      rw [List.dedup_cons_of_notMem ha, List.dedup_cons_of_notMem hfa, ih, List.map_cons]

/-- **Keys that tell the same rows apart make the same groups.** -/
theorem groupBy_comp_key {key : α → κ} {key' : α → ι} {f : κ → ι} {rows : List α}
    (hkey : ∀ r ∈ rows, key' r = f (key r))
    (hf : ∀ r ∈ rows, ∀ r' ∈ rows, key' r = key' r' → key r = key r') :
    groupBy key' rows = (groupBy key rows).map fun g => (f g.1, g.2) := by
  have hkeys : rows.map key' = (rows.map key).map f := by
    rw [List.map_map]
    exact List.map_congr_left hkey
  have hinj : ∀ a ∈ rows.map key, ∀ b ∈ rows.map key, f a = f b → a = b := by
    intro a ha b hb hab
    obtain ⟨r, hr, rfl⟩ := List.mem_map.mp ha
    obtain ⟨r', hr', rfl⟩ := List.mem_map.mp hb
    exact hf r hr r' hr' (by rw [hkey r hr, hkey r' hr', hab])
  rw [groupBy, hkeys, dedup_map_of_injOn hinj, groupBy, List.map_map, List.map_map]
  refine List.map_congr_left fun k hk => Prod.ext rfl ?_
  obtain ⟨r₀, hr₀, rfl⟩ := List.mem_map.mp (List.mem_dedup.mp hk)
  refine List.filter_congr fun r hr => ?_
  have hiff : key' r = f (key r₀) ↔ key r = key r₀ := by
    rw [hkey r hr]
    exact ⟨fun h => hinj _ (List.mem_map_of_mem hr) _ (List.mem_map_of_mem hr₀) h, congrArg f⟩
  exact decide_eq_decide.mpr hiff

/-- Rows under one key are one group. -/
theorem groupBy_const {key : α → κ} {k : κ} {rows : List α} (h : ∀ r ∈ rows, key r = k)
    (hne : rows ≠ []) : groupBy key rows = [(k, rows)] := by
  have hkeys : (rows.map key).dedup = [k] := by
    rw [List.map_congr_left (g := fun _ => k) h, List.map_const']
    exact List.replicate_dedup fun hlen => hne (List.length_eq_zero_iff.mp hlen)
  rw [groupBy, hkeys]
  refine congrArg (fun rs => [(k, rs)]) (List.filter_eq_self.mpr fun r hr => ?_)
  exact decide_eq_true (h r hr)

theorem groupBy_map (key : β → κ) (g : α → β) (rows : List α) :
    groupBy key (rows.map g) =
      (groupBy (fun r => key (g r)) rows).map fun x => (x.1, x.2.map g) := by
  rw [groupBy, groupBy, List.map_map, List.map_map]
  refine List.map_congr_left fun k _ => Prod.ext rfl ?_
  rw [List.filter_map]
  rfl

/-! ### Joins on a key -/

/-- **A join with at most one match** keeps some of the left rows, in order. -/
theorem join_fst_sublist {on : α → β → Bool} {xs : List α} {ys : List β}
    (h : ∀ x ∈ xs, (ys.filter (on x)).length ≤ 1) : ((join on xs ys).map Prod.fst).Sublist xs := by
  induction xs with
  | nil => exact List.Sublist.slnil
  | cons x xs ih =>
    have ih := ih fun x' hx' => h x' (List.mem_cons_of_mem _ hx')
    have hx := h x (List.mem_cons_self ..)
    rw [join, List.flatMap_cons, List.map_append, List.map_map]
    revert hx
    rcases ys.filter (on x) with _ | ⟨y, _ | ⟨y', ys'⟩⟩
    · exact fun _ => ih.cons x
    · exact fun _ => ih.cons_cons x
    · exact fun hx => absurd hx (by simp)

theorem join_perm_left (on : α → β → Bool) {xs xs' : List α} (ys : List β) (h : xs.Perm xs') :
    (join on xs ys).Perm (join on xs' ys) := h.flatMap_right _

/-- The rows of a table under the key of one of them, when keys are distinct. -/
theorem filter_key_eq {key : β → κ} {ys : List β} (hnodup : (ys.map key).Nodup) {y : β}
    (hy : y ∈ ys) : (ys.filter fun y' => decide (key y' = key y)) = [y] := by
  induction ys with
  | nil => cases hy
  | cons z ys ih =>
    rw [List.map_cons, List.nodup_cons] at hnodup
    rcases List.mem_cons.mp hy with rfl | hy
    · have hnone : (ys.filter fun y' => decide (key y' = key y)) = [] := by
        refine List.filter_eq_nil_iff.mpr fun y' hy' hkey => hnodup.1 ?_
        exact List.mem_map.mpr ⟨y', hy', of_decide_eq_true hkey⟩
      rw [List.filter_cons_of_pos (by simp), hnone]
    · have hne : key z ≠ key y := fun h => hnodup.1 (h ▸ List.mem_map_of_mem hy)
      rw [List.filter_cons_of_neg (by simpa using hne), ih hnodup.2 hy]

theorem length_filter_key_le {key : β → κ} {ys : List β} (hnodup : (ys.map key).Nodup) (k : κ) :
    (ys.filter fun y => decide (key y = k)).length ≤ 1 := by
  by_cases h : ∃ y ∈ ys, key y = k
  · obtain ⟨y, hy, rfl⟩ := h
    rw [filter_key_eq hnodup hy]
    exact le_refl 1
  · push Not at h
    rw [List.filter_eq_nil_iff.mpr fun y hy => by simpa using h y hy]
    exact Nat.zero_le 1

/-- **Grouping what was made of each group** gives back the groups, when something was made of each
and tells the key of its group. -/
theorem groupBy_flatMap_groupBy {key : α → κ} {rows : List α} {f : κ × List α → List β}
    {key' : β → κ} (hne : ∀ g ∈ groupBy key rows, f g ≠ [])
    (hkey : ∀ g ∈ groupBy key rows, ∀ b ∈ f g, key' b = g.1) :
    groupBy key' ((groupBy key rows).flatMap f) = (groupBy key rows).map fun g => (g.1, f g) := by
  have h : ∀ l : List (κ × List α), (l.map Prod.fst).Nodup → (∀ g ∈ l, f g ≠ []) →
      (∀ g ∈ l, ∀ b ∈ f g, key' b = g.1) →
        groupBy key' (l.flatMap f) = l.map fun g => (g.1, f g) := by
    intro l hnodup hne hkey
    have hkeys : ((l.flatMap f).map key').dedup = l.map Prod.fst := by
      induction l with
      | nil => rfl
      | cons g l ih =>
        rw [List.map_cons, List.nodup_cons] at hnodup
        have ih := ih hnodup.2 (fun g' hg' => hne g' (List.mem_cons_of_mem _ hg'))
          fun g' hg' => hkey g' (List.mem_cons_of_mem _ hg')
        have hg : ∀ b ∈ f g, key' b = g.1 := hkey g (List.mem_cons_self ..)
        have hrest : g.1 ∉ (l.flatMap f).map key' := by
          rw [← List.mem_dedup, ih]
          exact hnodup.1
        have hlist : ∀ bs : List β, bs ≠ [] → (∀ b ∈ bs, key' b = g.1) →
            (bs.map key' ++ (l.flatMap f).map key').dedup = g.1 :: l.map Prod.fst := by
          intro bs
          induction bs with
          | nil => exact fun h => absurd rfl h
          | cons b bs ihbs =>
            intro _ hbs
            rw [List.map_cons, List.cons_append, hbs b (List.mem_cons_self ..)]
            have hbs := fun b' hb' => hbs b' (List.mem_cons_of_mem _ hb')
            by_cases hnil : bs = []
            · subst hnil
              rw [List.map_nil, List.nil_append, List.dedup_cons_of_notMem hrest, ih]
            · rw [List.dedup_cons_of_mem, ihbs hnil hbs]
              obtain ⟨b', hb'⟩ := List.exists_mem_of_ne_nil _ hnil
              exact List.mem_append_left _ (List.mem_map.mpr ⟨b', hb', hbs b' hb'⟩)
        rw [List.flatMap_cons, List.map_append, List.map_cons]
        exact hlist _ (hne g (List.mem_cons_self ..)) hg
    rw [groupBy, hkeys, List.map_map]
    refine List.map_congr_left fun g hg => Prod.ext rfl ?_
    -- what was made of the other groups has other keys
    have hfilter : (l.filter fun g' => decide (g'.1 = g.1)).flatMap f =
        (l.flatMap f).filter fun b => decide (key' b = g.1) :=
      flatMap_filter fun g' hg' b hb => by rw [hkey g' hg' b hb]
    rw [Function.comp_apply, ← hfilter, filter_key_eq hnodup hg, List.flatMap_singleton]
  exact h _ (nodup_groupBy_keys key rows) hne hkey

/-- **The group of a key among what was made of rows** with distinct keys is what was made of the
row with that key, if it is anything. -/
theorem filter_groupBy_flatMap (key : β → κ) {key' : α → κ} (f : α → List β) {xs : List α}
    (hnodup : (xs.map key').Nodup) (hkey : ∀ x ∈ xs, ∀ y ∈ f x, key y = key' x) {x : α}
    (hx : x ∈ xs) : (groupBy key (xs.flatMap f)).filter (fun g => decide (g.1 = key' x)) =
      if (f x).isEmpty then [] else [(key' x, f x)] := by
  have hown : (xs.flatMap f).filter (fun y => decide (key y = key' x)) = f x := by
    have hfilter : (xs.filter fun x' => decide (key' x' = key' x)).flatMap f =
        (xs.flatMap f).filter fun y => decide (key y = key' x) :=
      flatMap_filter fun x' hx' y hy => by rw [hkey x' hx' y hy]
    rw [← hfilter, filter_key_eq hnodup hx, List.flatMap_singleton]
  have hgroup : (groupBy key (xs.flatMap f)).filter (fun g => decide (g.1 = key' x)) =
      groupBy key (f x) := by
    rw [← hown]
    exact (groupBy_filter (Q := fun k => decide (k = key' x)) fun _ _ => rfl).symm
  rw [hgroup]
  split_ifs with hempty
  · rw [List.isEmpty_iff.mp hempty]
    rfl
  · exact groupBy_const (hkey x hx) fun hnil => hempty (by rw [hnil]; rfl)

/-- **What is made of the group of a key**, among what is made of all groups, when everything tells
the key of the group it was made of. -/
theorem filter_flatMap_groupBy {key : α → κ} {rows : List α} {f : List α → List β} {key' : β → κ}
    (hnil : f [] = []) (hkey : ∀ g ∈ groupBy key rows, ∀ b ∈ f g.2, key' b = g.1) (k : κ) :
    ((groupBy key rows).flatMap fun g => f g.2).filter (fun b => decide (key' b = k)) =
      f (rows.filter fun r => decide (key r = k)) := by
  have hfilter : ((groupBy key rows).filter fun g => decide (g.1 = k)).flatMap (fun g => f g.2) =
      ((groupBy key rows).flatMap fun g => f g.2).filter fun b => decide (key' b = k) :=
    flatMap_filter fun g hg b hb => by rw [hkey g hg b hb]
  have hgroups : groupBy key (rows.filter fun r => decide (key r = k)) =
      (groupBy key rows).filter fun g => decide (g.1 = k) :=
    groupBy_filter (Q := fun k' => decide (k' = k)) fun _ _ => rfl
  rw [← hfilter, ← hgroups]
  by_cases hempty : rows.filter (fun r => decide (key r = k)) = []
  · rw [hempty, hnil]
    rfl
  · have hconst : ∀ r ∈ rows.filter (fun r => decide (key r = k)), key r = k :=
      fun r hr => of_decide_eq_true (List.mem_filter.mp hr).2
    rw [groupBy_const hconst hempty, List.flatMap_singleton]

/-- **A join on the key of groups** joins what was made of each group. -/
theorem join_flatMap_groupBy {key : α → κ} {rows : List α} {f : κ × List α → List β}
    {h : κ × List α → List γ} {keyL : β → κ} {keyR : γ → κ}
    (hf : ∀ g ∈ groupBy key rows, ∀ b ∈ f g, keyL b = g.1)
    (hh : ∀ g ∈ groupBy key rows, ∀ c ∈ h g, keyR c = g.1) :
    join (fun b c => decide (keyL b = keyR c)) ((groupBy key rows).flatMap f)
        ((groupBy key rows).flatMap h) =
      (groupBy key rows).flatMap fun g => (f g).flatMap fun b => (h g).map fun c => (b, c) := by
  rw [join, List.flatMap_assoc]
  refine List.flatMap_congr fun g hg => List.flatMap_congr fun b hb => ?_
  have hfilter : ((groupBy key rows).filter fun g' => decide (g'.1 = g.1)).flatMap h =
      ((groupBy key rows).flatMap h).filter fun c => decide (keyL b = keyR c) := by
    refine flatMap_filter fun g' hg' c hc => ?_
    rw [hh g' hg' c hc, hf g hg b hb]
    exact decide_eq_decide.mpr eq_comm
  rw [← hfilter, filter_key_eq (nodup_groupBy_keys key rows) hg, List.flatMap_singleton]

/-! ### The first rows of each group -/

theorem zipIdx_filter_le (l : List α) (n k : ℕ) :
    ((l.zipIdx (k + 1)).filter fun r => decide (r.2 ≤ k + n)).map Prod.fst = l.take n := by
  induction l generalizing n k with
  | nil => simp
  | cons a l ih =>
    cases n with
    | zero =>
      have hnone : ((a :: l).zipIdx (k + 1)).filter (fun r => decide (r.2 ≤ k + 0)) = [] := by
        refine List.filter_eq_nil_iff.mpr fun r hr => ?_
        have := List.le_snd_of_mem_zipIdx hr
        simp only [decide_eq_true_eq]
        omega
      rw [hnone]
      rfl
    | succ n =>
      rw [List.zipIdx_cons, List.filter_cons_of_pos (by simp), List.map_cons,
        List.take_succ_cons, ← ih n (k + 1)]
      have harith : k + (n + 1) = k + 1 + n := by omega
      rw [harith]

/-- What is made of the row numbered 1 is made of the first one. -/
theorem filterMap_zipIdx_one (f : α → Option β) (l : List α) :
    (l.zipIdx 1).filterMap (fun r => if r.2 = 1 then f r.1 else none) =
      (l.head?.bind f).toList := by
  cases l with
  | nil => rfl
  | cons a l =>
    have hrest : (l.zipIdx 2).filterMap (fun r => if r.2 = 1 then f r.1 else none) = [] := by
      refine List.filterMap_eq_nil_iff.mpr fun r hr => if_neg ?_
      have := List.le_snd_of_mem_zipIdx hr
      omega
    rw [List.zipIdx_cons, List.filterMap_cons, hrest, if_pos rfl, List.head?_cons,
      Option.bind_some]
    cases f a <;> rfl

/-- **The row with the least number** of those that pass a test is the first one, when rows are
numbered in order. -/
theorem least_number_iff {number : α → ℕ} {rows : List α}
    (h : (rows.map number).Pairwise (· < ·)) (p : α → Bool) {r : α} :
    (r ∈ rows ∧ (∃ x ∈ rows, p x = true) ∧
        ((rows.filter p).map number).min?.getD 0 = number r) ↔ rows.find? p = some r := by
  have hmin : ∀ x xs, rows.filter p = x :: xs →
      ((rows.filter p).map number).min?.getD 0 = number x := by
    intro x xs hfilter
    have hsorted : ((rows.filter p).map number).Pairwise (· < ·) :=
      h.sublist (List.filter_sublist.map number)
    rw [hfilter, List.map_cons] at hsorted ⊢
    have hfirst : (number x :: xs.map number).min? = some (number x) := by
      rw [List.min?_eq_some_iff]
      refine ⟨List.mem_cons_self .., fun n hn => ?_⟩
      rcases List.mem_cons.mp hn with rfl | hn
      · exact le_rfl
      · exact ((List.pairwise_cons.mp hsorted).1 n hn).le
    rw [hfirst, Option.getD_some]
  rw [← List.head?_filter]
  constructor
  · rintro ⟨hr, ⟨x, hx, hpx⟩, hnumber⟩
    obtain ⟨y, ys, hfilter⟩ := List.exists_cons_of_ne_nil
      (List.ne_nil_of_mem (List.mem_filter.mpr ⟨hx, hpx⟩))
    have hy : y ∈ rows := List.mem_of_mem_filter (hfilter ▸ List.mem_cons_self ..)
    rw [hmin y ys hfilter] at hnumber
    rw [hfilter, List.head?_cons,
      List.inj_on_of_nodup_map (h.imp ne_of_lt) hy hr hnumber]
  · intro hhead
    obtain ⟨ys, hfilter⟩ := List.head?_eq_some_iff.mp hhead
    obtain ⟨hr, hpr⟩ := List.mem_filter.mp (hfilter ▸ List.mem_cons_self .. : r ∈ rows.filter p)
    exact ⟨hr, ⟨r, hr, hpr⟩, hmin r ys hfilter⟩

namespace Engine

variable (E : Engine)

/-- **The row before a row** is of the same partition. -/
theorem prev_mem_window {key : α → κ} {le : α → α → Bool} {rows : List α} {w : WindowRow α}
    (h : w ∈ E.window key le rows) {p : α} (hp : w.prev = some p) :
    p ∈ rows ∧ key p = key w.row := by
  obtain ⟨g, hg, hw⟩ := List.mem_flatMap.mp h
  obtain ⟨r, hr, rfl⟩ := List.mem_map.mp hw
  have hzip := List.of_mem_zip (Prod.mk.eta (p := r.1) ▸ List.fst_mem_of_mem_zipIdx hr)
  have hrow := mem_of_mem_groupBy hg (E.mem_sort.mp hzip.1)
  have hprev : r.1.2 = some p := hp
  rw [hprev] at hzip
  have hmem : p ∈ E.sort le g.2 := by simpa using hzip.2
  obtain ⟨hpr, hkey⟩ := mem_of_mem_groupBy hg (E.mem_sort.mp hmem)
  exact ⟨hpr, hkey.trans hrow.2.symm⟩

theorem prev_mem_lag {key : α → κ} {le : α → α → Bool} {rows : List α} {r : α × Option α}
    (h : r ∈ E.lag key le rows) {p : α} (hp : r.2 = some p) : p ∈ rows ∧ key p = key r.1 := by
  obtain ⟨w, hw, rfl⟩ := List.mem_map.mp h
  exact E.prev_mem_window hw hp

/-- The rows of a partition in order, each with the row before it and its number, from a row before
them and a first number. -/
def numberedFrom (prev : Option α) (n : ℕ) (rows : List α) : List (WindowRow α) :=
  ((rows.zip (prev :: rows.map some)).zipIdx n).map fun r => ⟨r.1.1, r.1.2, r.2⟩

theorem numberedFrom_cons (prev : Option α) (n : ℕ) (a : α) (rows : List α) :
    numberedFrom prev n (a :: rows) = ⟨a, prev, n⟩ :: numberedFrom (some a) (n + 1) rows := rfl

theorem map_row_numberedFrom (prev : Option α) (n : ℕ) (rows : List α) :
    (numberedFrom prev n rows).map WindowRow.row = rows := by
  induction rows generalizing prev n with
  | nil => rfl
  | cons a rows ih => rw [numberedFrom_cons, List.map_cons, ih]

theorem map_number_numberedFrom (prev : Option α) (n : ℕ) (rows : List α) :
    (numberedFrom prev n rows).map WindowRow.number = List.range' n rows.length := by
  induction rows generalizing prev n with
  | nil => rfl
  | cons a rows ih => rw [numberedFrom_cons, List.map_cons, ih, List.length_cons, List.range'_succ]

theorem window_eq (key : α → κ) (le : α → α → Bool) (rows : List α) :
    E.window key le rows =
      (groupBy key rows).flatMap fun g => numberedFrom none 1 (E.sort le g.2) := rfl

/-- **A window with all of each partition**. -/
theorem overPartition_window (key : α → κ) (le : α → α → Bool) (rows : List α) :
    overPartition (fun w => key w.row) (E.window key le rows) =
      (groupBy key rows).flatMap fun g => (numberedFrom none 1 (E.sort le g.2)).map fun w =>
        (w, numberedFrom none 1 (E.sort le g.2)) := by
  have hgroups : groupBy (fun w : WindowRow α => key w.row) (E.window key le rows) =
      (groupBy key rows).map fun g => (g.1, numberedFrom none 1 (E.sort le g.2)) := by
    rw [E.window_eq]
    refine groupBy_flatMap_groupBy (fun g hg h => ne_nil_of_mem_groupBy hg ?_) fun g hg w hw => ?_
    · have hsort := congrArg (List.map WindowRow.row) h
      rw [map_row_numberedFrom, List.map_nil] at hsort
      exact (hsort ▸ E.sort_perm le g.2).symm.eq_nil
    · have hrow := List.mem_map_of_mem (f := WindowRow.row) hw
      rw [map_row_numberedFrom] at hrow
      exact (mem_of_mem_groupBy hg (E.mem_sort.mp hrow)).2
  rw [overPartition, hgroups, List.flatMap_map]

theorem rowNumber_eq (key : α → κ) (le : α → α → Bool) (rows : List α) :
    E.rowNumber key le rows = (groupBy key rows).flatMap fun g => (E.sort le g.2).zipIdx 1 := by
  rw [rowNumber, window, List.map_flatMap]
  refine List.flatMap_congr fun g _ => ?_
  simp only [List.map_map]
  have hfst : ((E.sort le g.2).zip (none :: (E.sort le g.2).map some)).map Prod.fst =
      E.sort le g.2 := List.map_fst_zip (by simp)
  conv_rhs => rw [← hfst]
  rw [List.zipIdx_map]
  rfl

theorem lag_eq (key : α → κ) (le : α → α → Bool) (rows : List α) :
    E.lag key le rows = (groupBy key rows).flatMap fun g =>
      (E.sort le g.2).zip (none :: (E.sort le g.2).map some) := by
  rw [lag, window, List.map_flatMap]
  refine List.flatMap_congr fun g _ => ?_
  simp only [List.map_map]
  exact List.zipIdx_map_fst ..

/-- **The rows numbered up to `n`** are the first `n` of each partition. -/
theorem rowNumber_le (key : α → κ) (le : α → α → Bool) (rows : List α) (n : ℕ) :
    ((E.rowNumber key le rows).filter fun r => decide (r.2 ≤ n)).map Prod.fst =
      (groupBy key rows).flatMap fun g => (E.sort le g.2).take n := by
  rw [E.rowNumber_eq, List.filter_flatMap, List.map_flatMap]
  refine List.flatMap_congr fun g _ => ?_
  have h := zipIdx_filter_le (E.sort le g.2) n 0
  rwa [Nat.zero_add, Nat.zero_add] at h

theorem number_pos {key : α → κ} {le : α → α → Bool} {rows : List α} {r : α × ℕ}
    (h : r ∈ E.rowNumber key le rows) : 1 ≤ r.2 := by
  rw [E.rowNumber_eq] at h
  obtain ⟨g, -, hr⟩ := List.mem_flatMap.mp h
  exact List.le_snd_of_mem_zipIdx hr

/-- **One row of a partition is numbered 1**, at most. -/
theorem nodup_rowNumber_one (key : α → κ) (le : α → α → Bool) (rows : List α) :
    (((E.rowNumber key le rows).filter fun r => decide (r.2 = 1)).map fun r => key r.1).Nodup := by
  have hone : (E.rowNumber key le rows).filter (fun r => decide (r.2 = 1)) =
      (E.rowNumber key le rows).filter fun r => decide (r.2 ≤ 1) := by
    refine List.filter_congr fun r hr => decide_eq_decide.mpr ?_
    have := E.number_pos hr
    omega
  have hrows := E.rowNumber_le key le rows 1
  rw [← hone] at hrows
  have hkeys := congrArg (List.map key) hrows
  rw [List.map_map, List.map_flatMap] at hkeys
  refine (congrArg List.Nodup hkeys).mpr ((nodup_groupBy_keys key rows).sublist ?_)
  -- the first row of a group, if there is one, tells the key of the group
  have hsub : ∀ l : List (κ × List α), (∀ g ∈ l, ∀ r ∈ g.2, key r = g.1) →
      (l.flatMap fun g => ((E.sort le g.2).take 1).map key).Sublist (l.map Prod.fst) := by
    intro l
    induction l with
    | nil => exact fun _ => List.Sublist.slnil
    | cons g l ih =>
      intro hl
      have ih := ih fun g' hg' => hl g' (List.mem_cons_of_mem _ hg')
      have hg : ∀ r ∈ E.sort le g.2, key r = g.1 :=
        fun r hr => hl g (List.mem_cons_self ..) r (E.mem_sort.mp hr)
      rw [List.flatMap_cons, List.map_cons]
      match hsort : E.sort le g.2 with
      | [] => exact ih.cons _
      | r :: _ =>
        rw [List.take_succ_cons, List.take_zero, List.map_singleton,
          hg r (hsort ▸ List.mem_cons_self ..)]
        exact ih.cons_cons _
  exact hsub _ fun g hg r hr => (mem_of_mem_groupBy hg hr).2

/-- **The row numbered 1 is the one that comes first**, where no two rows of a partition come
before each other. -/
theorem rowNumber_one_perm {key : α → κ} {le : α → α → Bool} {rows : List α} (hnodup : rows.Nodup)
    (htotal : ∀ a b, le a b = true ∨ le b a = true)
    (htrans : ∀ a b c, le a b = true → le b c = true → le a c = true)
    (hantisymm : ∀ a ∈ rows, ∀ b ∈ rows, key a = key b → le a b = true → le b a = true → a = b) :
    (((E.rowNumber key le rows).filter fun r => decide (r.2 = 1)).map Prod.fst).Perm
      (rows.filter fun r => rows.all fun r' => !decide (key r' = key r) || le r r') := by
  let first (r : α) : Bool := rows.all fun r' => !decide (key r' = key r) || le r r'
  have hone : (E.rowNumber key le rows).filter (fun r => decide (r.2 = 1)) =
      (E.rowNumber key le rows).filter fun r => decide (r.2 ≤ 1) := by
    refine List.filter_congr fun r hr => decide_eq_decide.mpr ?_
    have := E.number_pos hr
    omega
  rw [hone, E.rowNumber_le]
  refine List.Perm.trans ?_ ((flatMap_groupBy_perm key rows).filter first)
  rw [List.filter_flatMap]
  refine List.Perm.flatMap_left _ fun g hg => ?_
  refine List.Perm.trans ?_ ((E.sort_perm le g.2).filter first)
  have hsorted := E.sort_pairwise le g.2 htotal htrans
  have hnodupg : (E.sort le g.2).Nodup := by
    rw [(E.sort_perm le g.2).nodup_iff, (mem_groupBy.mp hg).2]
    exact hnodup.filter _
  have hmem : ∀ r ∈ E.sort le g.2, r ∈ rows ∧ key r = g.1 :=
    fun r hr => mem_of_mem_groupBy hg (E.mem_sort.mp hr)
  have hmem' : ∀ r ∈ rows, key r = g.1 → r ∈ E.sort le g.2 := by
    intro r hr hkey
    rw [E.mem_sort, (mem_groupBy.mp hg).2]
    exact List.mem_filter.mpr ⟨hr, decide_eq_true hkey⟩
  revert hsorted hnodupg hmem hmem'
  generalize E.sort le g.2 = l
  intro hsorted hnodupg hmem hmem'
  cases l with
  | nil => exact List.Perm.refl _
  | cons x xs =>
    rw [List.pairwise_cons] at hsorted
    obtain ⟨hx, hkx⟩ := hmem x (List.mem_cons_self ..)
    have hfirst : first x = true := by
      refine List.all_eq_true.mpr fun r' hr' => ?_
      by_cases hk : key r' = key x
      · have hin := hmem' r' hr' (hk.trans hkx)
        rcases List.mem_cons.mp hin with rfl | hin
        · simpa [hk] using htotal r' r'
        · simp [hsorted.1 r' hin]
      · simp [hk]
    have hrest : xs.filter first = [] := by
      refine List.filter_eq_nil_iff.mpr fun y hy hfy => ?_
      obtain ⟨hyr, hky⟩ := hmem y (List.mem_cons_of_mem _ hy)
      have hle := List.all_eq_true.mp hfy x hx
      simp only [hkx, hky, decide_true, Bool.not_true, Bool.false_or] at hle
      have heq := hantisymm x hx y hyr (hkx.trans hky.symm) (hsorted.1 y hy) hle
      exact (List.nodup_cons.mp hnodupg).1 (heq ▸ hy)
    rw [List.filter_cons_of_pos hfirst, hrest]
    exact List.Perm.refl _

/-- **What a sort puts first** is the row that no other row may come before. -/
theorem head?_sort_eq {α : Type} (E : Engine) {le : α → α → Bool} {rows : List α} {r : α}
    (htotal : ∀ a b, le a b = true ∨ le b a = true)
    (htrans : ∀ a b c, le a b = true → le b c = true → le a c = true) (hr : r ∈ rows)
    (hfirst : ∀ x ∈ rows, le x r = true → x = r) : (E.sort le rows).head? = some r := by
  have hsorted := E.sort_pairwise le rows htotal htrans
  have hmem : r ∈ E.sort le rows := E.mem_sort.mpr hr
  cases hl : E.sort le rows with
  | nil =>
    rw [hl] at hmem
    exact absurd hmem List.not_mem_nil
  | cons x l =>
    have hx : x ∈ rows := E.mem_sort.mp (hl ▸ List.mem_cons_self ..)
    rw [hl] at hmem hsorted
    rcases List.mem_cons.mp hmem with rfl | hmem
    · rfl
    · rw [hfirst x hx ((List.pairwise_cons.mp hsorted).1 r hmem), List.head?_cons]

/-- A stable sort leaves rows in order where they are. -/
theorem stable_sort_eq {α : Type} {le : α → α → Bool} {rows : List α}
    (h : rows.Pairwise fun a b => le a b = true) : stable.sort le rows = rows :=
  h.insertionSort_eq

/-- **What a stable sort puts first** is the first row that no other row may come before. -/
theorem head?_stable_append {α : Type} {le : α → α → Bool} {l₁ l₂ : List α} {a : α}
    (h₁ : ∀ x ∈ l₁, ¬le x a = true) (h₂ : ∀ y ∈ l₂, le a y = true) :
    (stable.sort le (l₁ ++ a :: l₂)).head? = some a := by
  show ((l₁ ++ a :: l₂).insertionSort fun a b => le a b = true).head? = some a
  induction l₁ with
  | nil => rw [List.nil_append, List.insertionSort_cons_of_forall_rel _ h₂, List.head?_cons]
  | cons x l₁ ih =>
    have hhead := ih fun y hy => h₁ y (List.mem_cons_of_mem _ hy)
    rw [List.cons_append, List.insertionSort_cons]
    cases hsort : (l₁ ++ a :: l₂).insertionSort fun a b => le a b = true with
    | nil =>
      rw [hsort] at hhead
      cases hhead
    | cons y l =>
      rw [hsort] at hhead
      obtain rfl : y = a := Option.some.inj hhead
      rw [List.orderedInsert_cons, if_neg (h₁ x (List.mem_cons_self ..)), List.head?_cons]

end Engine

/-- The numbered rows of a partition are a partition. -/
theorem groupBy_rowNumber (E : Engine) (key : α → κ) (le : α → α → Bool) (rows : List α) :
    groupBy (fun r : α × ℕ => key r.1) (E.rowNumber key le rows) =
      (groupBy key rows).map fun g => (g.1, (E.sort le g.2).zipIdx 1) := by
  rw [E.rowNumber_eq]
  refine groupBy_flatMap_groupBy (fun g hg h => ne_nil_of_mem_groupBy hg ?_) fun g hg r hr => ?_
  · rw [List.zipIdx_eq_nil_iff] at h
    exact (h ▸ E.sort_perm le g.2).symm.eq_nil
  · exact (mem_of_mem_groupBy hg (E.mem_sort.mp (List.fst_mem_of_mem_zipIdx hr))).2

/-- **The numbers of a partition with all of it**. -/
theorem overPartition_rowNumber (E : Engine) (key : α → κ) (le : α → α → Bool) (rows : List α) :
    overPartition (fun r => key r.1) (E.rowNumber key le rows) =
      (groupBy key rows).flatMap fun g =>
        ((E.sort le g.2).zipIdx 1).map fun r => (r, (E.sort le g.2).zipIdx 1) := by
  rw [overPartition, groupBy_rowNumber, List.flatMap_map]

end Sql

namespace SortedMap

variable {α β γ : Type} [LinearOrder α]

/-- **The map of a run of updates holds what each group makes**, when what the updates of a group
make does not depend on the map. -/
theorem entries_foldl_upsert_perm [hdec : DecidableEq α] (key : γ → α) (f : γ → Option β → β)
    (g : List γ → β) (hg : ∀ l ≠ [], l.foldl (fun o r => some (f r o)) none = some (g l))
    (rows : List γ) :
    (rows.foldl (fun m r => m.upsert (key r) (f r)) empty).entries.Perm
      ((Sql.groupBy key rows).map fun x => (x.1, g x.2)) := by
  -- keys may be compared by their order or otherwise
  obtain rfl : hdec = LinearOrder.toDecidableEq := Subsingleton.elim _ _
  refine (List.perm_ext_iff_of_nodup (entries_nodup _) ?_).mpr ?_
  · refine List.Nodup.of_map Prod.fst ?_
    rw [List.map_map]
    exact Sql.nodup_groupBy_keys key rows
  · rintro ⟨k, v⟩
    rw [← get?_eq_some_iff, get?_foldl_upsert, get?_empty, List.mem_map]
    constructor
    · intro h
      have hne : (rows.filter fun r => decide (key r = k)) ≠ [] := by
        intro hnil
        rw [hnil] at h
        cases h
      obtain ⟨r, hr⟩ := List.exists_mem_of_ne_nil _ hne
      obtain ⟨hr, hk⟩ := List.mem_filter.mp hr
      rw [hg _ hne] at h
      cases h
      exact ⟨(k, _), Sql.mem_groupBy.mpr ⟨⟨r, hr, of_decide_eq_true hk⟩, rfl⟩, rfl⟩
    · rintro ⟨x, hx, hxk⟩
      have hne := Sql.ne_nil_of_mem_groupBy hx
      obtain ⟨-, hrows⟩ := Sql.mem_groupBy.mp hx
      cases hxk
      rw [← hrows, hg _ hne]

/-- **The map of a run of pushes holds the groups** of what was pushed. -/
theorem entries_foldl_push_perm [DecidableEq α] (key : γ → α) (val : γ → β) (rows : List γ) :
    (rows.foldl (fun m r => m.push (key r) (val r)) (empty : SortedMap α (List β))).entries.Perm
      ((Sql.groupBy key rows).map fun x => (x.1, x.2.map val)) := by
  refine entries_foldl_upsert_perm key (fun r vs => vs.getD [] ++ [val r]) (List.map val) ?_ rows
  have hfold : ∀ (l : List γ) (vs : List β),
      l.foldl (fun o r => some (o.getD [] ++ [val r])) (some vs) = some (vs ++ l.map val) := by
    intro l
    induction l with
    | nil => simp
    | cons r l ih =>
      intro vs
      rw [List.foldl_cons, Option.getD_some, ih, List.map_cons, List.append_assoc]
      rfl
  intro l hne
  obtain ⟨r, l, rfl⟩ := List.exists_cons_of_ne_nil hne
  rw [List.foldl_cons, hfold]
  rfl

theorem mem_entries_foldl_push [DecidableEq α] {key : γ → α} {val : γ → β} {rows : List γ}
    {e : α × List β} :
    e ∈ (rows.foldl (fun m r => m.push (key r) (val r)) (empty : SortedMap α (List β))).entries ↔
      (∃ r ∈ rows, key r = e.1) ∧ e.2 = (rows.filter fun r => decide (key r = e.1)).map val := by
  rw [(entries_foldl_push_perm key val rows).mem_iff, List.mem_map]
  constructor
  · rintro ⟨g, hg, rfl⟩
    obtain ⟨hex, hrows⟩ := Sql.mem_groupBy.mp hg
    exact ⟨hex, congrArg (List.map val) hrows⟩
  · rintro ⟨hex, hval⟩
    exact ⟨(e.1, _), Sql.mem_groupBy.mpr ⟨hex, rfl⟩, Prod.ext rfl hval.symm⟩

end SortedMap
