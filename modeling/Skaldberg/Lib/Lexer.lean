import Mathlib.Data.List.Basic

/-!
# Literals in a text

A text is made of words, symbols and literals. A literal stands between two quotes, and a quote in
it is doubled; nothing else in it is special. Whether a quote ends its literal is known at the next
character, so a text is read with one character in hand (`Lexer.step`).

| of a text | |
|---|---|
| a literal is read back, whatever it is | `tokenize_quoted` |
| one part ends where the next begins | `Fits` |
| then the parts have the tokens they have alone | `tokenize_append` |

A text that is put together from fixed parts and literals is read the same way whatever the
literals are: it has a skeleton, and contents (`Reads`), and both are put together with it
(`Reads.append`, `Reads.intercalate`). The alphabet is arbitrary.
-/

/-- The characters that a lexer tells apart. -/
structure Lexer (α : Type) where
  /-- Begins and ends a literal. -/
  quote : α
  /-- Separates tokens. -/
  isBlank : α → Bool
  /-- Makes up words. -/
  isWord : α → Bool

namespace Lexer

/-- A token. -/
inductive Token (α : Type)
  /-- A longest run of the characters of words. -/
  | word (w : List α)
  /-- A character by itself. -/
  | symbol (c : α)
  /-- What a literal stands for. -/
  | literal (s : List α)
  deriving DecidableEq

/-- A token without the content of a literal. -/
def Token.erase {α : Type} : Token α → Token α
  | .literal _ => .literal []
  | t => t

/-- The content of a literal. -/
def Token.content? {α : Type} : Token α → Option (List α)
  | .literal s => some s
  | _ => none

/-- Where the lexer is in a text. -/
inductive Mode (α : Type)
  /-- Between two tokens. -/
  | between
  /-- In a word, of which this has been read. -/
  | inWord (w : List α)
  /-- In a literal, of which this has been read. -/
  | inLiteral (s : List α)
  /-- Behind a quote in a literal: its end, or the first of two. -/
  | afterQuote (s : List α)
  deriving DecidableEq

section

variable {α : Type} [DecidableEq α] (G : Lexer α)

/-! ### Reading -/

/-- Begin a token. -/
def start (c : α) : List (Token α) × Mode α :=
  if c = G.quote then ([], .inLiteral [])
  else if G.isBlank c then ([], .between)
  else if G.isWord c then ([], .inWord [c])
  else ([.symbol c], .between)

/-- Read a character: the tokens that end before it or with it, and where the lexer is then. -/
def step : Mode α → α → List (Token α) × Mode α
  | .between, c => G.start c
  | .inWord w, c =>
    if c ≠ G.quote ∧ G.isWord c then ([], .inWord (w ++ [c]))
    else (.word w :: (G.start c).1, (G.start c).2)
  | .inLiteral s, c => if c = G.quote then ([], .afterQuote s) else ([], .inLiteral (s ++ [c]))
  | .afterQuote s, c =>
    if c = G.quote then ([], .inLiteral (s ++ [c]))
    else (.literal s :: (G.start c).1, (G.start c).2)

/-- Read a text. -/
def run : Mode α → List α → List (Token α) × Mode α
  | m, [] => ([], m)
  | m, c :: cs => ((G.step m c).1 ++ (run (G.step m c).2 cs).1, (run (G.step m c).2 cs).2)

/-- The token at the end of a text. A literal without an end is none. -/
def Mode.finish : Mode α → Option (List (Token α))
  | .between => some []
  | .inWord w => some [.word w]
  | .inLiteral _ => none
  | .afterQuote s => some [.literal s]

/-- The tokens of a text. -/
def tokenize (text : List α) : Option (List (Token α)) :=
  (G.run .between text).2.finish.map fun ts => (G.run .between text).1 ++ ts

/-- Double the quotes. -/
def escape (s : List α) : List α := s.flatMap fun c => if c = G.quote then [c, c] else [c]

/-- A text as a literal. -/
def quoted (s : List α) : List α := G.quote :: G.escape s ++ [G.quote]

variable {G}

theorem run_append (m : Mode α) (a b : List α) :
    G.run m (a ++ b) =
      ((G.run m a).1 ++ (G.run (G.run m a).2 b).1, (G.run (G.run m a).2 b).2) := by
  induction a generalizing m with
  | nil => rfl
  | cons c a ih => rw [List.cons_append, run, ih, run, List.append_assoc]

theorem run_append_of_eq {m m' m'' : Mode α} {a b : List α} {ta tb : List (Token α)}
    (ha : G.run m a = (ta, m')) (hb : G.run m' b = (tb, m'')) :
    G.run m (a ++ b) = (ta ++ tb, m'') := by
  rw [run_append, ha, hb]

/-! ### Literals -/

/-- **A literal is read as what was escaped.** -/
theorem run_escape (s t : List α) :
    G.run (.inLiteral s) (G.escape t) = ([], .inLiteral (s ++ t)) := by
  induction t generalizing s with
  | nil => rw [List.append_nil, escape, List.flatMap_nil, run]
  | cons c t ih =>
    have hchar : G.run (.inLiteral s) (if c = G.quote then [c, c] else [c]) =
        ([], .inLiteral (s ++ [c])) := by
      by_cases hc : c = G.quote <;> simp [run, step, hc]
    have htail := ih (s ++ [c])
    rw [List.append_assoc, List.singleton_append] at htail
    exact run_append_of_eq hchar htail

theorem run_quoted (s : List α) : G.run .between (G.quoted s) = ([], .afterQuote s) := by
  have hopen : G.run .between [G.quote] = ([], .inLiteral []) := by simp [run, step, start]
  have hclose : G.run (.inLiteral s) [G.quote] = ([], .afterQuote s) := by simp [run, step]
  exact run_append_of_eq (run_append_of_eq hopen (run_escape [] s)) hclose

/-- **A literal decodes to what it was written for.** -/
theorem tokenize_quoted (s : List α) : G.tokenize (G.quoted s) = some [.literal s] := by
  rw [tokenize, run_quoted]
  rfl

/-! ### Parts of a text -/

/-- The text ends with a whole token, whatever follows. -/
def Ends (G : Lexer α) (text : List α) : Prop := (G.run .between text).2 = .between

/-- The text does not continue a token. -/
def Breaks (G : Lexer α) (text : List α) : Prop :=
  ∀ c ∈ text.head?, c ≠ G.quote ∧ G.isWord c = false

instance (text : List α) : Decidable (G.Ends text) :=
  inferInstanceAs (Decidable (_ = _))

instance (text : List α) : Decidable (G.Breaks text) :=
  inferInstanceAs (Decidable (∀ c ∈ text.head?, c ≠ G.quote ∧ G.isWord c = false))

/-- No token goes from the first text into the second one. -/
def Fits (G : Lexer α) (a b : List α) : Prop := G.Ends a ∨ G.Breaks b

omit [DecidableEq α] in
theorem Breaks.append {a : List α} (h : G.Breaks a) (hne : a ≠ []) (b : List α) :
    G.Breaks (a ++ b) := by
  rwa [Breaks, List.head?_append_of_ne_nil a hne]

/-- A character that continues no token ends it. -/
theorem step_of_breaks {m : Mode α} {ts : List (Token α)} (hm : m.finish = some ts) {c : α}
    (hquote : c ≠ G.quote) (hword : G.isWord c = false) :
    G.step m c = (ts ++ (G.start c).1, (G.start c).2) := by
  cases m with
  | between =>
    obtain rfl := Option.some.inj hm
    rfl
  | inWord w =>
    obtain rfl := Option.some.inj hm
    rw [step, if_neg (by simp [hword])]
    rfl
  | inLiteral s => cases hm
  | afterQuote s =>
    obtain rfl := Option.some.inj hm
    rw [step, if_neg hquote]
    rfl

/-- **Parts that fit have the tokens they have alone.** -/
theorem tokenize_append {a b : List α} {ta tb : List (Token α)} (ha : G.tokenize a = some ta)
    (hb : G.tokenize b = some tb) (h : G.Fits a b) : G.tokenize (a ++ b) = some (ta ++ tb) := by
  obtain ⟨ea, hea, rfl⟩ := Option.map_eq_some_iff.mp ha
  obtain ⟨eb, heb, rfl⟩ := Option.map_eq_some_iff.mp hb
  rcases h with hends | hbreaks
  · rw [hends] at hea
    obtain rfl := Option.some.inj hea
    rw [tokenize, run_append, hends, heb]
    simp
  · cases b with
    | nil =>
      obtain rfl := Option.some.inj heb
      rw [List.append_nil, tokenize, hea]
      simp [run]
    | cons c b =>
      obtain ⟨hquote, hword⟩ := hbreaks c rfl
      rw [run, step] at heb
      rw [tokenize, run_append, run, step_of_breaks hea hquote hword, heb]
      simp [run, step]

/-! ### The skeleton of a text -/

/-- A text with the tokens of a skeleton, in which the literals have some contents. -/
def Reads (G : Lexer α) (text : List α) (skeleton : List (Token α)) (contents : List (List α)) :
    Prop :=
  ∃ ts, G.tokenize text = some ts ∧ ts.map Token.erase = skeleton ∧
    ts.filterMap Token.content? = contents

instance (text : List α) (k : List (Token α)) (c : List (List α)) : Decidable (G.Reads text k c) :=
  inferInstanceAs (Decidable (∃ ts, ts ∈ G.tokenize text ∧ ts.map Token.erase = k ∧
    ts.filterMap Token.content? = c))

theorem reads_quoted (s : List α) : G.Reads (G.quoted s) [.literal []] [s] :=
  ⟨_, tokenize_quoted s, rfl, rfl⟩

theorem Reads.append {a b : List α} {ka kb : List (Token α)} {ca cb : List (List α)}
    (ha : G.Reads a ka ca) (hb : G.Reads b kb cb) (h : G.Fits a b) :
    G.Reads (a ++ b) (ka ++ kb) (ca ++ cb) := by
  obtain ⟨ta, hta, rfl, rfl⟩ := ha
  obtain ⟨tb, htb, rfl, rfl⟩ := hb
  exact ⟨ta ++ tb, tokenize_append hta htb h, List.map_append .., List.filterMap_append ..⟩

/-- **Parts between separators** have the skeletons they have alone, between those of the
separators. -/
theorem Reads.intercalate {ι : Type} {sep : List α} {ksep : List (Token α)}
    (hsep : G.Reads sep ksep []) (hne : sep ≠ []) (hends : G.Ends sep) (hbreaks : G.Breaks sep)
    {text : ι → List α} {k : ι → List (Token α)} {c : ι → List (List α)} {l : List ι}
    (h : ∀ i ∈ l, G.Reads (text i) (k i) (c i)) :
    G.Reads (sep.intercalate (l.map text)) (ksep.intercalate (l.map k)) (l.flatMap c) := by
  induction l with
  | nil => exact ⟨[], rfl, rfl, rfl⟩
  | cons i l ih =>
    have hi := h i (List.mem_cons_self ..)
    cases l with
    | nil => simpa using hi
    | cons j l =>
      have hrest := ih fun x hx => h x (List.mem_cons_of_mem _ hx)
      simp only [List.map_cons, List.intercalate_cons_cons, List.flatMap_cons] at hrest ⊢
      have htail := hsep.append hrest (.inl hends)
      simpa using hi.append htail (.inr (hbreaks.append hne _))

end

end Lexer
