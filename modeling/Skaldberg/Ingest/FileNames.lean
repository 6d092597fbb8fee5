import Mathlib.Data.List.Sort
import Mathlib.Data.Set.List
import Skaldberg.Ingest.Wal
import Skaldberg.Lib.Decimal

/-!
# The names of the log's files

A directory has its files under names and in no order, and the log has them by number. The writer
makes a name of a number, in ten digits or as many more as it takes (`Wal.walPath`), and a listing
makes a number of every name with the right extension and sorts (`Wal.listWalFiles`).

`Wal.listWalFiles_eq` is why the files of a log can be taken as a map by number: whatever else the
directory holds, and in whatever order it is read, the listing has every file of the log once,
under its own number, in ascending order. And a truncation that removes files by name removes the
same ones as one by number (`Wal.removeThrough_eq`).
-/

namespace Skaldberg

namespace Wal

/-! ### Names -/

/-- `wal_path`, as a name in the log directory. -/
def walPath (fileSeq : ℕ) : List Char := Decimal.field 10 fileSeq ++ ['.', 'l', 'o', 'g']

/-- A file name cut at its last dot, unless that is its first character. -/
def rsplitFileAtDot (file : List Char) : Option (List Char) × Option (List Char) :=
  if file = ['.', '.'] then (some file, none)
  else
    let after := (file.reverse.takeWhile fun c => c != '.').reverse
    match file.reverse.dropWhile fun c => c != '.' with
    | [] => (none, some after)
    | _ :: before => if before = [] then (some file, none) else (some before.reverse, some after)

/-- `Path::extension`. -/
def extension (file : List Char) : Option (List Char) :=
  (rsplitFileAtDot file).1.bind fun _ => (rsplitFileAtDot file).2

/-- `Path::file_stem`. -/
def fileStem (file : List Char) : Option (List Char) :=
  (rsplitFileAtDot file).1.or (rsplitFileAtDot file).2

/-- `str::parse::<u64>`: digits, after a plus sign or not, of a number that fits. -/
def parseU64 (s : List Char) : Option ℕ :=
  let digits := if s.head? = some '+' then s.tail else s
  if digits = [] ∨ digits.all Char.isDigit = false then none
  else
    let n := Nat.ofDigitChars 10 digits 0
    if n < u64Size then some n else none

/-- The number of a log file, or its name if that is none. -/
def fileSeqOf (file : List Char) : Except (List Char) (ℕ × List Char) :=
  match (fileStem file).bind parseU64 with
  | some seq => .ok (seq, file)
  | none => .error file

/-- `list_wal_files`, over the names in the order in which the directory is read; the error is
`InvalidFileName`. -/
def listWalFiles (names : List (List Char)) : Except (List Char) (List (ℕ × List Char)) := do
  let out ← (names.filter fun p => extension p == some ['l', 'o', 'g']).mapM fileSeqOf
  return out.mergeSort fun a b => decide (a.1 ≤ b.1)

/-! ### The number of a name -/

theorem rsplitFileAtDot_append {stem ext : List Char} (hstem : stem ≠ []) (hext : '.' ∉ ext)
    (hne : ext ≠ []) : rsplitFileAtDot (stem ++ '.' :: ext) = (some stem, some ext) := by
  have hdots : stem ++ '.' :: ext ≠ ['.', '.'] := by
    intro h
    obtain ⟨c, ext, rfl⟩ := List.exists_cons_of_ne_nil hne
    obtain ⟨d, stem, rfl⟩ := List.exists_cons_of_ne_nil hstem
    have := congrArg List.length h
    simp at this
    omega
  have hrev : ∀ c ∈ ext.reverse, (c != '.') = true := by
    intro c hc
    rw [bne_iff_ne]
    rintro rfl
    exact hext (List.mem_reverse.mp hc)
  have hreverse : (stem ++ '.' :: ext).reverse = ext.reverse ++ '.' :: stem.reverse := by simp
  rw [rsplitFileAtDot, if_neg hdots]
  simp only [hreverse, List.takeWhile_append_of_pos hrev, List.dropWhile_append_of_pos hrev]
  simp [hstem]

theorem field_ne_nil (width n : ℕ) : Decimal.field width n ≠ [] := by
  intro h
  rw [Decimal.field, List.leftpad, List.append_eq_nil_iff] at h
  exact Nat.toDigits_ne_nil h.2

theorem rsplitFileAtDot_walPath (fileSeq : ℕ) :
    rsplitFileAtDot (walPath fileSeq) = (some (Decimal.field 10 fileSeq), some ['l', 'o', 'g']) :=
  rsplitFileAtDot_append (field_ne_nil 10 fileSeq) (by decide) (by decide)

theorem extension_walPath (fileSeq : ℕ) : extension (walPath fileSeq) = some ['l', 'o', 'g'] := by
  rw [extension, rsplitFileAtDot_walPath]
  rfl

theorem parseU64_field {fileSeq : ℕ} (h : fileSeq < u64Size) (width : ℕ) :
    parseU64 (Decimal.field width fileSeq) = some fileSeq := by
  have hdigits : (Decimal.field width fileSeq).all Char.isDigit = true :=
    List.all_eq_true.mpr fun c hc => Decimal.isDigit_of_mem_field hc
  have hplus : (Decimal.field width fileSeq).head? ≠ some '+' := by
    intro hhead
    have := Decimal.isDigit_of_mem_field (List.mem_of_head? hhead)
    revert this
    decide
  simp only [parseU64, if_neg hplus, field_ne_nil, hdigits, Bool.true_eq_false, or_self, if_false,
    Decimal.ofDigitChars_field, if_pos h]

/-- **A name tells its number.** -/
theorem fileSeqOf_walPath {fileSeq : ℕ} (h : fileSeq < u64Size) :
    fileSeqOf (walPath fileSeq) = .ok (fileSeq, walPath fileSeq) := by
  have hstem : fileStem (walPath fileSeq) = some (Decimal.field 10 fileSeq) := by
    rw [fileStem, rsplitFileAtDot_walPath]
    rfl
  rw [fileSeqOf, hstem, Option.bind_some, parseU64_field h]

theorem walPath_injective : Function.Injective walPath :=
  fun _ _ h => Decimal.field_injective 10 (List.append_cancel_right h)

/-! ### Listings -/

theorem mapM_fileSeqOf {names : List (List Char)} {seqs : List ℕ} (h : names = seqs.map walPath)
    (hlt : ∀ seq ∈ seqs, seq < u64Size) :
    names.mapM fileSeqOf = .ok (seqs.map fun seq => (seq, walPath seq)) := by
  subst h
  induction seqs with
  | nil => rfl
  | cons seq seqs ih =>
    rw [List.map_cons, List.mapM_cons, fileSeqOf_walPath (hlt seq (List.mem_cons_self ..)),
      ih fun s hs => hlt s (List.mem_cons_of_mem seq hs)]
    rfl

/-- Pairs sort into the one order in which their numbers ascend. -/
theorem sort_eq_of_perm {l l' : List (ℕ × List Char)} (h : l.Perm l')
    (hl' : l'.Pairwise fun a b => a.1 < b.1) :
    (l.mergeSort fun a b => decide (a.1 ≤ b.1)) = l' := by
  have hsorted : (l.mergeSort fun a b => decide (a.1 ≤ b.1)).Pairwise fun a b => a.1 ≤ b.1 := by
    have htrans : ∀ a b c : ℕ × List Char, decide (a.1 ≤ b.1) = true → decide (b.1 ≤ c.1) = true →
        decide (a.1 ≤ c.1) = true := fun a b c hab hbc =>
      decide_eq_true ((of_decide_eq_true hab).trans (of_decide_eq_true hbc))
    have htotal : ∀ a b : ℕ × List Char, (decide (a.1 ≤ b.1) || decide (b.1 ≤ a.1)) = true := by
      intro a b
      simpa using le_total a.1 b.1
    exact (List.pairwise_mergeSort htrans htotal l).imp fun h => of_decide_eq_true h
  refine ((List.mergeSort_perm l _).trans h).eq_of_pairwise ?_ hsorted (hl'.imp le_of_lt)
  intro a b ha hb hab hba
  have hmem : a ∈ l' := h.subset ((List.mergeSort_perm l _).subset ha)
  have hnodup : (l'.map Prod.fst).Nodup := (List.pairwise_map.mpr hl').imp ne_of_lt
  exact List.inj_on_of_nodup_map hnodup hmem hb (le_antisymm hab hba)

/-- **A listing has the files of the log by number**, in ascending order, whatever other files
there are and in whatever order the directory is read. -/
theorem listWalFiles_eq {dir : WalDir} (hlt : ∀ k ∈ dir.keys, k < u64Size)
    {others names : List (List Char)} (hothers : ∀ p ∈ others, extension p ≠ some ['l', 'o', 'g'])
    (hnames : names.Perm (dir.keys.map walPath ++ others)) :
    listWalFiles names = .ok (dir.keys.map fun k => (k, walPath k)) := by
  have hlog : (names.filter fun p => extension p == some ['l', 'o', 'g']).Perm
      (dir.keys.map walPath) := by
    refine (hnames.filter _).trans (List.Perm.of_eq ?_)
    rw [List.filter_append, List.filter_eq_self.mpr, List.filter_eq_nil_iff.mpr, List.append_nil]
    · intro p hp
      rw [beq_iff_eq]
      exact hothers p hp
    · intro p hp
      obtain ⟨k, -, rfl⟩ := List.mem_map.mp hp
      rw [extension_walPath, beq_self_eq_true]
  obtain ⟨seqs, hseqs⟩ : (names.filter fun p => extension p == some ['l', 'o', 'g']) ∈
      Set.range (List.map walPath) := by
    rw [Set.range_list_map]
    intro p hp
    obtain ⟨k, -, hk⟩ := List.mem_map.mp (hlog.subset hp)
    exact ⟨k, hk⟩
  have hperm : seqs.Perm dir.keys :=
    (List.map_perm_map_iff walPath_injective).mp (hseqs ▸ hlog)
  rw [listWalFiles, mapM_fileSeqOf hseqs.symm fun k hk => hlt k (hperm.subset hk)]
  refine congrArg Except.ok (sort_eq_of_perm (hperm.map _) ?_)
  exact List.pairwise_map.mpr (dir.keys_pairwise.imp fun hlt => hlt)

/-! ### Removing files by name -/

/-- `truncate_through` of a writer, on the files of the directory by name: the loop over a listing.
It ends early where there is no file to scan. -/
def removeThrough (w : WalWriter) (flushedThroughSeq : ℕ) :
    List (ℕ × List Char) → (List Char → Option Bytes) → List Char → Option Bytes
  | [], files => files
  | (fileSeq, path) :: entries, files =>
    if fileSeq = w.fileSeq then removeThrough w flushedThroughSeq entries files
    else
      match files path with
      | none => files
      | some bs =>
        if scanMaxRecordSeq bs ≤ flushedThroughSeq then
          removeThrough w flushedThroughSeq entries (Function.update files path none)
        else removeThrough w flushedThroughSeq entries files

/-- What a loop over some of the files leaves: those that were there, less the ones it removes. -/
theorem removeThrough_spec (w : WalWriter) (n : ℕ) {seqs : List ℕ} (hnodup : seqs.Nodup)
    {files : List Char → Option Bytes} (hfiles : ∀ k ∈ seqs, (files (walPath k)).isSome) :
    ∀ path bs, removeThrough w n (seqs.map fun k => (k, walPath k)) files path = some bs ↔
      files path = some bs ∧
        ¬∃ k ∈ seqs, path = walPath k ∧ k ≠ w.fileSeq ∧ scanMaxRecordSeq bs ≤ n := by
  induction seqs generalizing files with
  | nil => simp [removeThrough]
  | cons k seqs ih =>
    intro path bs
    obtain ⟨hk, hnodup⟩ := List.nodup_cons.mp hnodup
    have htail : ∀ k' ∈ seqs, (files (walPath k')).isSome :=
      fun k' hk' => hfiles k' (List.mem_cons_of_mem k hk')
    obtain ⟨b, hb⟩ := Option.isSome_iff_exists.mp (hfiles k (List.mem_cons_self ..))
    simp only [List.map_cons, removeThrough, hb, List.exists_mem_cons_iff]
    split_ifs with hcur hscan
    · rw [ih hnodup htail]
      simp [hcur]
    · have hupdate : ∀ k' ∈ seqs,
          (Function.update files (walPath k) none (walPath k')).isSome := by
        intro k' hk'
        have hne : walPath k' ≠ walPath k := fun h => hk (walPath_injective h ▸ hk')
        rw [Function.update_of_ne hne]
        exact htail k' hk'
      rw [ih hnodup hupdate]
      by_cases hpath : path = walPath k
      · subst hpath
        rw [Function.update_self]
        constructor
        · rintro ⟨hnone, -⟩
          cases hnone
        · rintro ⟨hbs, hno⟩
          rw [hb] at hbs
          cases hbs
          exact absurd (Or.inl ⟨rfl, hcur, hscan⟩) hno
      · simp [hpath]
    · rw [ih hnodup htail]
      refine and_congr_right fun hbs => not_congr ⟨Or.inr, fun h => h.resolve_left ?_⟩
      rintro ⟨rfl, -, hle⟩
      rw [hb] at hbs
      cases hbs
      exact hscan hle

/-- **A truncation by name is one by number**: of the files that hold a log it removes those the
truncation of the log does, and no other file of the directory. -/
theorem removeThrough_eq {dir : WalDir} {files : List Char → Option Bytes}
    (hfiles : ∀ k, files (walPath k) = dir.get? k) (w : WalWriter) (n : ℕ) :
    (∀ k, removeThrough w n (dir.keys.map fun k => (k, walPath k)) files (walPath k) =
        (w.truncateThrough dir n).get? k) ∧
      ∀ path, (∀ k, path ≠ walPath k) →
        removeThrough w n (dir.keys.map fun k => (k, walPath k)) files path = files path := by
  have hsome : ∀ k ∈ dir.keys, (files (walPath k)).isSome := by
    intro k hk
    rw [hfiles]
    exact SortedMap.contains_iff_mem_keys.mpr hk
  have hspec := removeThrough_spec w n dir.keys_nodup hsome
  refine ⟨fun k => Option.ext fun bs => ?_, fun path hpath => Option.ext fun bs => ?_⟩
  · rw [hspec, WalWriter.get?_truncateThrough, WalWriter.mem_removed, hfiles]
    refine and_congr_right fun hbs => not_congr ⟨?_, fun h => ?_⟩
    · rintro ⟨k', -, hk', hrem⟩
      rw [walPath_injective hk']
      exact ⟨walPath_injective hk' ▸ hbs, hrem⟩
    · exact ⟨k, SortedMap.contains_iff_mem_keys.mp (by rw [SortedMap.contains, hbs]; rfl), rfl, h.2⟩
  · rw [hspec]
    refine and_iff_left ?_
    rintro ⟨k, -, hk, -⟩
    exact hpath k hk

end Wal

end Skaldberg
