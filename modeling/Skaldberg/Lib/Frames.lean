import Mathlib.Algebra.GroupWithZero.Nat
import Mathlib.Data.List.Basic
import Mathlib.Data.List.Infix

/-!
# Streams of length-prefixed frames

A *frame* is a header of a fixed number of symbols followed by a payload whose length the
header declares (`FrameFormat`). A reader takes the header, then the payload, and is
stuck when the stream is too short for either; what it has read by then are the frames of
the stream (`FrameFormat.frames`), and what is left is the leftover
(`FrameFormat.leftover`).

| question | answer |
|---|---|
| what is a stream made of? | `encode_frames_append_leftover` |
| what does a written stream read back as? | `frames_encode_append` |
| what does more input change? | nothing already read: `frames_prefix_append` |
| what if it ended on a boundary? | the two parts read apart: `frames_append_of_leftover_nil` |
| what if a frame was cut short? | it is not read at all: `readFrame_cut` |
| what is left of a written stream cut short? | the frames that fit: `frames_take_encode` |

Nothing is assumed about the header except how long it is and that it says how long the
payload is.
-/

/-- A header size and the payload length a header declares. -/
structure FrameFormat (β : Type) where
  /-- The number of symbols of a header. -/
  header : ℕ
  /-- A header is not empty, so a reader always makes progress. -/
  header_pos : 0 < header
  /-- The payload length declared by a header. -/
  len : List β → ℕ

/-- A header and a payload. -/
structure Frame (β : Type) where
  /-- The header. -/
  hdr : List β
  /-- The payload. -/
  payload : List β
  deriving DecidableEq

/-- Take exactly `n` symbols off a stream, or fail when there are fewer. -/
def readExact {β : Type} (n : ℕ) (bs : List β) : Option (List β × List β) :=
  if n ≤ bs.length then some (bs.take n, bs.drop n) else none

section ReadExact

variable {β : Type} {n : ℕ} {bs a b : List β}

theorem readExact_eq_some_iff : readExact n bs = some (a, b) ↔ bs = a ++ b ∧ a.length = n := by
  constructor
  · intro h
    rw [readExact] at h
    split_ifs at h with hn
    cases h
    exact ⟨(List.take_append_drop n bs).symm, List.length_take_of_le hn⟩
  · rintro ⟨rfl, rfl⟩
    simp [readExact]

theorem readExact_eq_none_iff : readExact n bs = none ↔ bs.length < n := by
  rw [readExact]
  split_ifs with h <;> simp only [true_iff, false_iff] <;> omega

end ReadExact

section Fitting

variable {α γ : Type} {size : α → ℕ}

/-- The elements that fit, one behind the other, into the first `m` places. -/
def fitting (size : α → ℕ) : ℕ → List α → List α
  | _, [] => []
  | m, a :: l => if size a ≤ m then a :: fitting size (m - size a) l else []

theorem fitting_map (f : γ → α) (m : ℕ) (l : List γ) :
    fitting size m (l.map f) = (fitting (fun c => size (f c)) m l).map f := by
  induction l generalizing m with
  | nil => rfl
  | cons c l ih =>
    rw [List.map_cons, fitting, fitting]
    split_ifs
    · rw [ih, List.map_cons]
    · rfl

theorem fitting_congr {size' : α → ℕ} {l : List α} (h : ∀ a ∈ l, size a = size' a) (m : ℕ) :
    fitting size m l = fitting size' m l := by
  induction l generalizing m with
  | nil => rfl
  | cons a l ih =>
    rw [fitting, fitting, h a (List.mem_cons_self ..)]
    split_ifs
    · rw [ih fun b hb => h b (List.mem_cons_of_mem a hb)]
    · rfl

/-- What fits of a list that goes on behind one that fits. -/
theorem fitting_append (l l' : List α) (m : ℕ) :
    fitting size ((l.map size).sum + m) (l ++ l') = l ++ fitting size m l' := by
  induction l with
  | nil => rw [List.map_nil, List.sum_nil, Nat.zero_add, List.nil_append, List.nil_append]
  | cons a l ih =>
    have hle : size a ≤ ((a :: l).map size).sum + m := by
      rw [List.map_cons, List.sum_cons]
      omega
    have hsub : ((a :: l).map size).sum + m - size a = (l.map size).sum + m := by
      rw [List.map_cons, List.sum_cons]
      omega
    rw [List.cons_append, fitting, if_pos hle, hsub, ih, List.cons_append]

theorem fitting_prefixOf (m : ℕ) (l : List α) : fitting size m l <+: l := by
  induction l generalizing m with
  | nil => exact List.nil_prefix
  | cons a l ih =>
    rw [fitting]
    split_ifs
    · exact (List.prefix_cons_inj a).mpr (ih _)
    · exact List.nil_prefix

end Fitting

namespace Frame

variable {β : Type}

/-- The symbols of a frame. -/
def bytes (f : Frame β) : List β := f.hdr ++ f.payload

/-- The symbols of a list of frames, written one after the other. -/
def encode (fs : List (Frame β)) : List β := fs.flatMap bytes

@[simp] theorem encode_nil : encode ([] : List (Frame β)) = [] := rfl

@[simp] theorem encode_cons (f : Frame β) (fs : List (Frame β)) :
    encode (f :: fs) = f.bytes ++ encode fs := rfl

@[simp] theorem encode_append (fs gs : List (Frame β)) :
    encode (fs ++ gs) = encode fs ++ encode gs := by
  simp [encode]

theorem length_encode (fs : List (Frame β)) :
    (encode fs).length = (fs.map fun f => f.bytes.length).sum := List.length_flatMap

end Frame

namespace FrameFormat

variable {β : Type} (F : FrameFormat β)

/-- A frame of the format: the header has its size and declares the payload's length. -/
def WellFormed (f : Frame β) : Prop := f.hdr.length = F.header ∧ F.len f.hdr = f.payload.length

/-- Read one frame: the header, then the payload it declares. -/
def readFrame (bs : List β) : Option (Frame β × List β) :=
  match readExact F.header bs with
  | none => none
  | some (hdr, r) =>
    match readExact (F.len hdr) r with
    | none => none
    | some (payload, r') => some (⟨hdr, payload⟩, r')

/-- **What reading a frame means**: the stream opens with the symbols of a frame of the
format, and the rest follows. -/
theorem readFrame_eq_some_iff {bs r : List β} {f : Frame β} :
    F.readFrame bs = some (f, r) ↔ bs = f.bytes ++ r ∧ F.WellFormed f := by
  constructor
  · intro h
    rw [readFrame] at h
    split at h
    · cases h
    · rename_i hdr r₁ h₁
      split at h
      · cases h
      · rename_i payload r₂ h₂
        cases h
        obtain ⟨rfl, hh⟩ := readExact_eq_some_iff.mp h₁
        obtain ⟨rfl, hp⟩ := readExact_eq_some_iff.mp h₂
        exact ⟨by simp [Frame.bytes], hh, hp.symm⟩
  · rintro ⟨rfl, hh, hp⟩
    have h₁ : readExact F.header (f.bytes ++ r) = some (f.hdr, f.payload ++ r) :=
      readExact_eq_some_iff.mpr ⟨by simp [Frame.bytes], hh⟩
    have h₂ : readExact (F.len f.hdr) (f.payload ++ r) = some (f.payload, r) :=
      readExact_eq_some_iff.mpr ⟨rfl, hp.symm⟩
    rw [readFrame, h₁]
    simp only [h₂]

theorem readFrame_append {bs r : List β} {f : Frame β} (h : F.readFrame bs = some (f, r))
    (x : List β) : F.readFrame (bs ++ x) = some (f, r ++ x) := by
  obtain ⟨rfl, hf⟩ := F.readFrame_eq_some_iff.mp h
  exact F.readFrame_eq_some_iff.mpr ⟨List.append_assoc _ _ _, hf⟩

theorem WellFormed.header_le_length {f : Frame β} (h : F.WellFormed f) :
    F.header ≤ f.bytes.length := by
  rw [Frame.bytes, List.length_append, h.1]
  exact Nat.le_add_right _ _

theorem length_lt_of_readFrame {bs r : List β} {f : Frame β}
    (h : F.readFrame bs = some (f, r)) : r.length < bs.length := by
  obtain ⟨rfl, hf⟩ := F.readFrame_eq_some_iff.mp h
  have hpos := F.header_pos
  have hle := WellFormed.header_le_length F hf
  rw [List.length_append]
  omega

/-- **A frame cut short is not read**: no proper prefix of a frame's symbols holds a
frame, whatever the cut. -/
theorem readFrame_cut {f : Frame β} (hf : F.WellFormed f) {k : ℕ} (hk : k < f.bytes.length) :
    F.readFrame (f.bytes.take k) = none := by
  rcases hr : F.readFrame (f.bytes.take k) with _ | ⟨g, r⟩
  · rfl
  · -- a frame read off the cut would be read off the whole too, and there it is `f`
    have hwhole := F.readFrame_append hr (f.bytes.drop k)
    rw [List.take_append_drop] at hwhole
    have hself : F.readFrame f.bytes = some (f, []) :=
      F.readFrame_eq_some_iff.mpr ⟨(List.append_nil _).symm, hf⟩
    rw [hself] at hwhole
    have hdrop : r ++ f.bytes.drop k = [] := (congrArg Prod.snd (Option.some.inj hwhole)).symm
    have hlen := congrArg List.length hdrop
    rw [List.length_append, List.length_drop, List.length_nil] at hlen
    omega

/-! ### All the frames of a stream -/

/-- The frames read off a stream and what is left when the reader is stuck. The first
argument bounds the number of frames read. -/
def readAll : ℕ → List β → List (Frame β) × List β
  | 0, bs => ([], bs)
  | n + 1, bs =>
    match F.readFrame bs with
    | none => ([], bs)
    | some (f, r) => (f :: (readAll n r).1, (readAll n r).2)

/-- The frames of a stream: every frame that can be read before the stream is too short. -/
def frames (bs : List β) : List (Frame β) := (F.readAll bs.length bs).1

/-- What a stream holds behind its last frame. -/
def leftover (bs : List β) : List β := (F.readAll bs.length bs).2

/-- The bound of `readAll` does not matter once it reaches the length of the stream. -/
theorem readAll_eq : ∀ (n : ℕ) (bs : List β), bs.length ≤ n →
    F.readAll n bs = (F.frames bs, F.leftover bs) := by
  suffices h : ∀ (n m : ℕ) (bs : List β), bs.length ≤ n → bs.length ≤ m →
      F.readAll n bs = F.readAll m bs from
    fun n bs hn => h n bs.length bs hn le_rfl
  intro n
  induction n with
  | zero =>
    intro m bs hn _
    have hnil : bs = [] := List.length_eq_zero_iff.mp (Nat.le_zero.mp hn)
    subst hnil
    cases m with
    | zero => rfl
    | succ m =>
      have hr : F.readFrame ([] : List β) = none := by
        have hx : readExact F.header ([] : List β) = none :=
          readExact_eq_none_iff.mpr (by simpa using F.header_pos)
        rw [readFrame, hx]
      simp [readAll, hr]
  | succ n ih =>
    intro m bs hn hm
    rcases hr : F.readFrame bs with _ | ⟨f, r⟩
    · cases m with
      | zero => simp [readAll, hr]
      | succ m => simp [readAll, hr]
    · have hlt := F.length_lt_of_readFrame hr
      cases m with
      | zero => omega
      | succ m => simp only [readAll, hr, ih m r (by omega) (by omega)]

theorem frames_of_none {bs : List β} (h : F.readFrame bs = none) : F.frames bs = [] := by
  rw [frames]
  cases bs.length <;> simp [readAll, h]

theorem leftover_of_none {bs : List β} (h : F.readFrame bs = none) : F.leftover bs = bs := by
  rw [leftover]
  cases bs.length <;> simp [readAll, h]

theorem readAll_of_some {bs r : List β} {f : Frame β} (h : F.readFrame bs = some (f, r)) :
    F.frames bs = f :: F.frames r ∧ F.leftover bs = F.leftover r := by
  have hlt := F.length_lt_of_readFrame h
  obtain ⟨n, hn⟩ : ∃ n, bs.length = n + 1 := ⟨bs.length - 1, by omega⟩
  rw [frames, leftover, hn]
  simp only [readAll, h, F.readAll_eq n r (by omega), and_self]

theorem frames_of_some {bs r : List β} {f : Frame β} (h : F.readFrame bs = some (f, r)) :
    F.frames bs = f :: F.frames r := (F.readAll_of_some h).1

theorem leftover_of_some {bs r : List β} {f : Frame β} (h : F.readFrame bs = some (f, r)) :
    F.leftover bs = F.leftover r := (F.readAll_of_some h).2

/-- Induction on a stream as the reader sees it: a stream it is stuck on, or a frame and
the stream behind it. -/
theorem stream_induction {P : List β → Prop} (stuck : ∀ bs, F.readFrame bs = none → P bs)
    (frame : ∀ bs f r, F.readFrame bs = some (f, r) → P r → P bs) (bs : List β) : P bs := by
  induction hn : bs.length using Nat.strongRecOn generalizing bs with
  | ind n ih =>
    rcases hr : F.readFrame bs with _ | ⟨f, r⟩
    · exact stuck bs hr
    · exact frame bs f r hr (ih r.length (hn ▸ F.length_lt_of_readFrame hr) r rfl)

theorem wellFormed_of_mem_frames (bs : List β) : ∀ f ∈ F.frames bs, F.WellFormed f := by
  induction bs using F.stream_induction with
  | stuck bs h => simp [F.frames_of_none h]
  | frame bs f r h ih =>
    rw [F.frames_of_some h]
    intro g hg
    rcases List.mem_cons.mp hg with rfl | hg
    · exact (F.readFrame_eq_some_iff.mp h).2
    · exact ih g hg

/-- **A stream is its frames and its leftover.** -/
theorem encode_frames_append_leftover (bs : List β) :
    Frame.encode (F.frames bs) ++ F.leftover bs = bs := by
  induction bs using F.stream_induction with
  | stuck bs h => simp [F.frames_of_none h, F.leftover_of_none h]
  | frame bs f r h ih =>
    rw [F.frames_of_some h, F.leftover_of_some h, Frame.encode_cons, List.append_assoc, ih]
    exact ((F.readFrame_eq_some_iff.mp h).1).symm

/-- **More input changes nothing already read.** The frames of a stream are still the
first ones when symbols are appended; the leftover is read again with them. -/
theorem frames_append (bs x : List β) :
    F.frames (bs ++ x) = F.frames bs ++ F.frames (F.leftover bs ++ x) := by
  induction bs using F.stream_induction with
  | stuck bs h => simp [F.frames_of_none h, F.leftover_of_none h]
  | frame bs f r h ih =>
    rw [F.frames_of_some (F.readFrame_append h x), F.frames_of_some h, F.leftover_of_some h, ih]
    rfl

theorem leftover_append (bs x : List β) :
    F.leftover (bs ++ x) = F.leftover (F.leftover bs ++ x) := by
  induction bs using F.stream_induction with
  | stuck bs h => simp [F.leftover_of_none h]
  | frame bs f r h ih =>
    rw [F.leftover_of_some (F.readFrame_append h x), F.leftover_of_some h, ih]

theorem frames_prefix_append (bs x : List β) : F.frames bs <+: F.frames (bs ++ x) := by
  rw [frames_append]
  exact List.prefix_append _ _

/-- A stream that ends on a frame boundary reads apart from what is appended to it. -/
theorem frames_append_of_leftover_nil {bs : List β} (h : F.leftover bs = []) (x : List β) :
    F.frames (bs ++ x) = F.frames bs ++ F.frames x := by
  rw [frames_append, h, List.nil_append]

theorem leftover_append_of_leftover_nil {bs : List β} (h : F.leftover bs = []) (x : List β) :
    F.leftover (bs ++ x) = F.leftover x := by
  rw [leftover_append, h, List.nil_append]

/-- **Reading back what was written**: the frames of the format, written one after the
other in front of a stream, are the frames read off it. -/
theorem frames_encode_append {fs : List (Frame β)} (hfs : ∀ f ∈ fs, F.WellFormed f)
    (x : List β) :
    F.frames (Frame.encode fs ++ x) = fs ++ F.frames x ∧
      F.leftover (Frame.encode fs ++ x) = F.leftover x := by
  induction fs with
  | nil => simp
  | cons f fs ih =>
    obtain ⟨ih₁, ih₂⟩ := ih fun g hg => hfs g (List.mem_cons_of_mem f hg)
    have hread : F.readFrame (Frame.encode (f :: fs) ++ x) = some (f, Frame.encode fs ++ x) :=
      F.readFrame_eq_some_iff.mpr
        ⟨by rw [Frame.encode_cons, List.append_assoc], hfs f (List.mem_cons_self ..)⟩
    rw [F.frames_of_some hread, F.leftover_of_some hread, ih₁, ih₂]
    exact ⟨rfl, rfl⟩

/-- **What is left of a written stream cut short**: the frames that fit into what remains. -/
theorem frames_take_encode {fs : List (Frame β)} (hfs : ∀ f ∈ fs, F.WellFormed f) (m : ℕ) :
    F.frames ((Frame.encode fs).take m) = fitting (fun f => f.bytes.length) m fs := by
  induction fs generalizing m with
  | nil =>
    rw [Frame.encode_nil, List.take_nil, fitting]
    rfl
  | cons f fs ih =>
    have hf := hfs f (List.mem_cons_self ..)
    rw [fitting, Frame.encode_cons]
    split_ifs with hm
    · have hread : F.readFrame ((f.bytes ++ Frame.encode fs).take m) =
          some (f, (Frame.encode fs).take (m - f.bytes.length)) := by
        refine F.readFrame_eq_some_iff.mpr ⟨?_, hf⟩
        rw [List.take_append, List.take_of_length_le hm]
      rw [F.frames_of_some hread, ih fun g hg => hfs g (List.mem_cons_of_mem f hg)]
    · have hlt : m < f.bytes.length := Nat.lt_of_not_le hm
      have hcut : (f.bytes ++ Frame.encode fs).take m = f.bytes.take m :=
        List.take_append_of_le_length hlt.le
      rw [hcut, F.frames_of_none (F.readFrame_cut hf hlt)]

theorem frames_nil : F.frames ([] : List β) = [] := by
  rw [frames]
  rfl

theorem leftover_nil : F.leftover ([] : List β) = [] := by
  rw [leftover]
  rfl

theorem frames_bytes {f : Frame β} (hf : F.WellFormed f) : F.frames f.bytes = [f] := by
  have h := (F.frames_encode_append (List.forall_mem_singleton.mpr hf) []).1
  simpa [F.frames_nil] using h

theorem leftover_bytes {f : Frame β} (hf : F.WellFormed f) : F.leftover f.bytes = [] := by
  have h := (F.frames_encode_append (List.forall_mem_singleton.mpr hf) []).2
  simpa [F.leftover_nil] using h

end FrameFormat
