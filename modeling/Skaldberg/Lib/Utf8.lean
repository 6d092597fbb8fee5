import Mathlib.Data.List.DropRight

/-!
# Texts in bytes

A text has characters of one to four bytes, and is cut at a number of bytes, where there may be no
character to begin (`Utf8.splitAt`). A cut is possible exactly where the text is two texts
(`Utf8.splitAt_eq_some_iff`), which is what makes an offset valid in Lean as well
(`Utf8.isSome_splitAt_iff`). One byte short of its end a text can be cut if its last character is of
one byte, and not otherwise (`Utf8.splitAt_length_pred`).
-/

namespace Utf8

/-! ### Cuts -/

/-- The number of bytes of a text. -/
def length : List Char → ℕ
  | [] => 0
  | c :: cs => c.utf8Size + length cs

/-- A text cut at a number of bytes, unless that is inside a character or past the end. -/
def splitAt : ℕ → List Char → Option (List Char × List Char)
  | 0, cs => some ([], cs)
  | _ + 1, [] => none
  | n + 1, c :: cs =>
    if c.utf8Size ≤ n + 1 then
      (splitAt (n + 1 - c.utf8Size) cs).map fun halves => (c :: halves.1, halves.2)
    else none

variable {n : ℕ} {cs a b : List Char}

@[simp] theorem length_append (cs ds : List Char) : length (cs ++ ds) = length cs + length ds := by
  induction cs with
  | nil => rw [List.nil_append, length, Nat.zero_add]
  | cons c cs ih => rw [List.cons_append, length, length, ih, Nat.add_assoc]

theorem length_singleton (c : Char) : length [c] = c.utf8Size := Nat.add_zero _

theorem length_toList (s : String) : length s.toList = s.utf8ByteSize := by
  have h : ∀ cs : List Char, length cs = (String.ofList cs).utf8ByteSize := by
    intro cs
    induction cs with
    | nil => rfl
    | cons c cs ih =>
      rw [length, ih, ← List.singleton_append, String.ofList_append, String.utf8ByteSize_append,
        ← String.singleton_eq_ofList, String.utf8ByteSize_singleton]
  rw [h, String.ofList_toList]

theorem splitAt_append (a b : List Char) : splitAt (length a) (a ++ b) = some (a, b) := by
  induction a with
  | nil =>
    rw [length, List.nil_append]
    cases b <;> rfl
  | cons c a ih =>
    obtain ⟨m, hm⟩ : ∃ m, length (c :: a) = m + 1 :=
      Nat.exists_eq_succ_of_ne_zero (by have := c.utf8Size_pos; rw [length]; omega)
    have hle : c.utf8Size ≤ m + 1 := by
      rw [← hm, length]
      omega
    have hsub : m + 1 - c.utf8Size = length a := by
      rw [← hm, length]
      omega
    rw [hm, List.cons_append, splitAt, if_pos hle, hsub, ih]
    rfl

/-- **A cut is possible where a text is two texts.** -/
theorem splitAt_eq_some_iff : splitAt n cs = some (a, b) ↔ cs = a ++ b ∧ length a = n := by
  constructor
  · intro h
    induction cs generalizing n a with
    | nil =>
      cases n with
      | zero =>
        cases h
        exact ⟨rfl, rfl⟩
      | succ n => cases h
    | cons c cs ih =>
      cases n with
      | zero =>
        cases h
        exact ⟨rfl, rfl⟩
      | succ n =>
        rw [splitAt] at h
        split_ifs at h with hle
        obtain ⟨⟨a', b'⟩, htail, heq⟩ := Option.map_eq_some_iff.mp h
        cases heq
        obtain ⟨rfl, hlen⟩ := ih htail
        refine ⟨rfl, ?_⟩
        show c.utf8Size + length a' = n + 1
        omega
  · rintro ⟨rfl, rfl⟩
    exact splitAt_append a b

/-- A text can be cut at the offsets that are valid in it. -/
theorem isSome_splitAt_iff (s : String) (n : ℕ) :
    (splitAt n s.toList).isSome ↔ String.Pos.Raw.IsValid s ⟨n⟩ := by
  rw [Option.isSome_iff_exists, String.Pos.Raw.isValid_iff_exists_append]
  constructor
  · rintro ⟨⟨a, b⟩, h⟩
    obtain ⟨hs, hn⟩ := splitAt_eq_some_iff.mp h
    refine ⟨String.ofList a, String.ofList b, ?_, ?_⟩
    · rw [← String.ofList_append, ← hs, String.ofList_toList]
    · refine String.Pos.Raw.ext ?_
      rw [String.byteIdx_rawEndPos, ← length_toList, String.toList_ofList, hn]
  · rintro ⟨s₁, s₂, rfl, hn⟩
    refine ⟨(s₁.toList, s₂.toList), splitAt_eq_some_iff.mpr ⟨String.toList_append, ?_⟩⟩
    rw [length_toList, ← String.byteIdx_rawEndPos, ← hn]

/-- **One byte short of the end** there is a cut if the last character has one byte. -/
theorem splitAt_length_pred (cs : List Char) (c : Char) :
    splitAt (length (cs ++ [c]) - 1) (cs ++ [c]) =
      if c.utf8Size = 1 then some (cs, [c]) else none := by
  have hlen : length (cs ++ [c]) = length cs + c.utf8Size := by
    rw [length_append, length_singleton]
  split_ifs with hone
  · rw [hlen, hone, Nat.add_sub_cancel]
    exact splitAt_append cs [c]
  · by_contra hne
    obtain ⟨⟨a, b⟩, h⟩ := Option.ne_none_iff_exists'.mp hne
    obtain ⟨hab, ha⟩ := splitAt_eq_some_iff.mp h
    have hpos := c.utf8Size_pos
    rcases List.eq_nil_or_concat b with rfl | ⟨b, d, rfl⟩
    · -- all of the text is in front of the cut
      rw [List.append_nil] at hab
      rw [← hab] at ha
      omega
    · -- the last character is behind it
      rw [List.concat_eq_append, ← List.append_assoc] at hab
      have hcs : length cs = length a + length b := by
        rw [(List.append_inj' hab rfl).1, length_append]
      omega

/-! ### White space -/

/-- `char::is_whitespace`: the characters with the property `White_Space`. -/
def isWhitespace (c : Char) : Bool :=
  (decide (9 ≤ c.toNat) && decide (c.toNat ≤ 13)) || c.toNat == 0x20 || c.toNat == 0x85 ||
    c.toNat == 0xA0 || c.toNat == 0x1680 ||
    (decide (0x2000 ≤ c.toNat) && decide (c.toNat ≤ 0x200A)) || c.toNat == 0x2028 ||
    c.toNat == 0x2029 || c.toNat == 0x202F || c.toNat == 0x205F || c.toNat == 0x3000

/-- `str::trim`: a text without the white space at either end. -/
def trim (cs : List Char) : List Char := (cs.dropWhile isWhitespace).rdropWhile isWhitespace

theorem filter_dropWhile (p : Char → Bool) (cs : List Char) :
    (cs.dropWhile p).filter (fun c => !p c) = cs.filter fun c => !p c := by
  induction cs with
  | nil => rfl
  | cons c cs ih =>
    rw [List.dropWhile_cons]
    split_ifs with hc
    · rw [ih, List.filter_cons_of_neg (by simpa using hc)]
    · rfl

theorem getLast?_rdropWhile (p : Char → Bool) (cs : List Char) :
    (cs.rdropWhile p).getLast? = (cs.filter fun c => !p c).getLast? := by
  induction cs using List.reverseRecOn with
  | nil => rfl
  | append_singleton cs c ih =>
    rw [List.rdropWhile_concat, List.filter_append]
    split_ifs with hc
    · rw [ih, List.filter_cons_of_neg (by simpa using hc), List.filter_nil, List.append_nil]
    · rw [List.filter_cons_of_pos (by simpa using hc), List.filter_nil,
        List.getLast?_concat, List.getLast?_concat]

/-- What a trimmed text ends in is the last character that is not white space. -/
theorem getLast?_trim (cs : List Char) :
    (trim cs).getLast? = (cs.filter fun c => !isWhitespace c).getLast? := by
  rw [trim, getLast?_rdropWhile, filter_dropWhile]

end Utf8
