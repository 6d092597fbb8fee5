import Skaldberg.Lib.Lexer
import Skaldberg.Prometheus.Selector

/-!
# The text of a query

A query is a text, in which the strings of a selector stand as literals. They come from whoever
asks, so what matters is that no string ends its literal early: the text must be read as the same
words and symbols whatever the strings are, and each literal as the string it stands for.

What is read is stated in two parts (`Lexer.Reads`). The skeleton of the conditions is a function of
what a selector is apart from its strings (`SelectorShape`), so it cannot depend on them; the
contents are the strings themselves. `queryText_reads` is the statement for the conditions of a
selector, for lists of keys and for the query of `label_values`.
-/

namespace Skaldberg.Prometheus

/-! ### The texts -/

/-- `sql_escape`: a string with its quotes doubled. -/
def sqlEscape (s : String) : String :=
  .ofList (s.toList.flatMap fun c => if c = '\'' then ['\'', '\''] else [c])

/-- The text of a condition, as `selector_predicates` writes it. -/
def SeriesCond.text : SeriesCond → String
  | .metricNameEq name => "s.metric_name = '" ++ sqlEscape name ++ "'"
  | .labelEq key val =>
    "element_at(s.labels, '" ++ sqlEscape key ++ "')[1] = '" ++ sqlEscape val ++ "'"
  | .labelNe key val =>
    "COALESCE(element_at(s.labels, '" ++ sqlEscape key ++ "')[1], '') != '" ++ sqlEscape val ++ "'"

/-- The conditions of a selector in a `WHERE` clause. -/
def conditionsText (sel : VectorSelector) : String :=
  " AND ".intercalate ((selectorPredicates sel).map SeriesCond.text)

/-- `quoted_keys_list`: the keys of an `IN` or a `NOT IN`. -/
def quotedKeysList (keys : List String) : String :=
  ", ".intercalate (keys.map fun k => "'" ++ sqlEscape k ++ "'")

/-- The column of a label, as a grouping by it writes it. -/
def labelExpr (key : String) : String := "element_at(s.labels, '" ++ sqlEscape key ++ "')[1]"

/-- The columns of some labels in a `GROUP BY` clause. -/
def labelExprsText (keys : List String) : String := ", ".intercalate (keys.map labelExpr)

/-- `DF_CATALOG_NAME`. -/
def dfCatalogName : String := "iceberg"

/-- The query of `label_values`. -/
def labelValuesSql (name : String) : String :=
  if name = "__name__" then
    "SELECT DISTINCT metric_name AS v FROM " ++ dfCatalogName ++ ".skaldberg.series ORDER BY v"
  else
    "SELECT DISTINCT element_at(labels, '" ++ sqlEscape name ++ "')[1] AS v FROM " ++
      dfCatalogName ++ ".skaldberg.series WHERE element_at(labels, '" ++ sqlEscape name ++
      "')[1] IS NOT NULL ORDER BY v"

/-! ### What there is to read -/

/-- The characters of SQL: a quote ends a literal unless another one follows, and no other
character is special in one. -/
def sql : Lexer Char where
  quote := '\''
  isBlank := Char.isWhitespace
  isWord c := c.isAlphanum || c == '_'

/-- A word. -/
def word (s : String) : Lexer.Token Char := .word s.toList

/-- What a matcher is apart from its strings. -/
inductive MatcherShape
  /-- On the metric name, by `=`. -/
  | nameEqual
  /-- On the metric name, in another way. -/
  | nameOther
  /-- On a label, by `=`. -/
  | equal
  /-- On a label, by `!=`. -/
  | notEqual
  /-- On a label, by a regular expression. -/
  | regex
  deriving DecidableEq

/-- What a selector is apart from its strings. -/
structure SelectorShape where
  /-- Whether there is a name before the braces. -/
  named : Bool
  /-- The matchers. -/
  matchers : List MatcherShape

/-- What a matcher is apart from its strings; whether it is on the metric name is all that is seen
of them. -/
def Matcher.shape (m : Matcher) : MatcherShape :=
  match m.op with
  | .equal => if m.name = "__name__" then .nameEqual else .equal
  | .notEqual => if m.name = "__name__" then .nameOther else .notEqual
  | .re _ | .notRe _ => if m.name = "__name__" then .nameOther else .regex

/-- What a selector is apart from its strings. -/
def VectorSelector.shape (sel : VectorSelector) : SelectorShape :=
  ⟨sel.name.isSome, sel.matchers.map Matcher.shape⟩

/-- `element_at(s.labels, '…')[1]`. -/
def labelSkeleton : List (Lexer.Token Char) :=
  [word "element_at", .symbol '(', word "s", .symbol '.', word "labels", .symbol ',', .literal [],
    .symbol ')', .symbol '[', word "1", .symbol ']']

/-- `s.metric_name = '…'`. -/
def nameSkeleton : List (Lexer.Token Char) :=
  [word "s", .symbol '.', word "metric_name", .symbol '=', .literal []]

/-- `element_at(s.labels, '…')[1] = '…'`. -/
def equalSkeleton : List (Lexer.Token Char) := labelSkeleton ++ [.symbol '=', .literal []]

/-- `COALESCE(element_at(s.labels, '…')[1], '') != '…'`. -/
def notEqualSkeleton : List (Lexer.Token Char) :=
  [word "COALESCE", .symbol '('] ++ labelSkeleton ++
    [.symbol ',', .literal [], .symbol ')', .symbol '!', .symbol '=', .literal []]

/-- The condition a matcher becomes. -/
def MatcherShape.skeleton : MatcherShape → Option (List (Lexer.Token Char))
  | .equal => some equalSkeleton
  | .notEqual => some notEqualSkeleton
  | .nameEqual | .nameOther | .regex => none

/-- The conditions of a selector. -/
def SelectorShape.skeletons (s : SelectorShape) : List (List (Lexer.Token Char)) :=
  (if s.named ∨ .nameEqual ∈ s.matchers then [nameSkeleton] else []) ++
    s.matchers.filterMap MatcherShape.skeleton

/-- The strings of the condition a matcher becomes. A missing label is the empty string. -/
def Matcher.strings (m : Matcher) : List String :=
  if m.name = "__name__" then []
  else
    match m.op with
    | .equal => [m.name, m.value]
    | .notEqual => [m.name, "", m.value]
    | .re _ | .notRe _ => []

/-- The strings of the conditions of a selector. -/
def VectorSelector.strings (sel : VectorSelector) : List String :=
  (effectiveMetricName sel).toList ++ sel.matchers.flatMap Matcher.strings

/-- `AS v FROM iceberg.skaldberg.series`. -/
def tableSkeleton : List (Lexer.Token Char) :=
  [word "AS", word "v", word "FROM", word "iceberg", .symbol '.', word "skaldberg", .symbol '.',
    word "series"]

/-- `element_at(labels, '…')[1]`. -/
def columnSkeleton : List (Lexer.Token Char) :=
  [word "element_at", .symbol '(', word "labels", .symbol ',', .literal [], .symbol ')',
    .symbol '[', word "1", .symbol ']']

/-- The query of `label_values`, which for the metric name is another one. -/
def labelValuesSkeleton (onName : Bool) : List (Lexer.Token Char) :=
  [word "SELECT", word "DISTINCT"] ++
    (if onName then word "metric_name" :: tableSkeleton
    else columnSkeleton ++ tableSkeleton ++ [word "WHERE"] ++ columnSkeleton ++
      [word "IS", word "NOT", word "NULL"]) ++
    [word "ORDER", word "BY", word "v"]

/-! ### Reading a literal -/

theorem toList_sqlEscape (s : String) : (sqlEscape s).toList = sql.escape s.toList := by
  rw [sqlEscape, String.toList_ofList, Lexer.escape]
  congr 1
  funext c
  show _ = if c = '\'' then [c, c] else [c]
  by_cases hc : c = '\''
  · rw [if_pos hc, if_pos hc, hc]
  · rw [if_neg hc, if_neg hc]

/-- A literal between two texts. -/
theorem toList_literal {a b a' b' : String} (s : String) (ha : a = a' ++ "'")
    (hb : b = "'" ++ b') :
    (a ++ sqlEscape s ++ b).toList = a'.toList ++ (sql.quoted s.toList ++ b'.toList) := by
  rw [ha, hb]
  simp only [String.toList_append, toList_sqlEscape, Lexer.quoted, List.append_assoc]
  rfl

section

variable {a b c a' b' c' : String} {ka kb kc : List (Lexer.Token Char)} {cb : List (List Char)}

/-- **Two literals**, and what stands around them. -/
theorem reads_literals (s s' : String) (hka : sql.Reads a'.toList ka [])
    (hkb : sql.Reads b'.toList kb cb) (hkc : sql.Reads c'.toList kc []) (ha : a = a' ++ "'")
    (hb : b = "'" ++ b' ++ "'") (hc : c = "'" ++ c') (henda : sql.Ends a'.toList)
    (hb' : sql.Breaks b'.toList ∧ sql.Ends b'.toList ∧ b'.toList ≠ [])
    (hbreakc : sql.Breaks c'.toList) :
    sql.Reads (a ++ sqlEscape s ++ b ++ sqlEscape s' ++ c).toList
      (ka ++ .literal [] :: (kb ++ .literal [] :: kc)) (s.toList :: (cb ++ [s'.toList])) := by
  obtain ⟨hbreakb, hendb, hne⟩ := hb'
  have hfirst := toList_literal s ha (hb.trans (String.append_assoc ..))
  have htext : (a ++ sqlEscape s ++ b ++ sqlEscape s' ++ c).toList = a'.toList ++
      (sql.quoted s.toList ++ (b'.toList ++ (sql.quoted s'.toList ++ c'.toList))) := by
    rw [hc, String.toList_append, String.toList_append, hfirst, toList_sqlEscape, Lexer.quoted]
    simp only [String.toList_append, Lexer.quoted, List.append_assoc]
    rfl
  have hlast := (Lexer.reads_quoted s'.toList).append hkc (.inr hbreakc)
  have hmid := (Lexer.reads_quoted s.toList).append (hkb.append hlast (.inl hendb))
    (.inr (hbreakb.append hne _))
  rw [htext]
  simpa using hka.append hmid (.inl henda)

end

/-! ### Reading the conditions -/

theorem reads_elementAt : sql.Reads "element_at(s.labels, ".toList
    [word "element_at", .symbol '(', word "s", .symbol '.', word "labels", .symbol ','] [] := by
  decide

theorem reads_labelExpr (key : String) :
    sql.Reads (labelExpr key).toList labelSkeleton [key.toList] := by
  have htext : (labelExpr key).toList =
      "element_at(s.labels, ".toList ++ (sql.quoted key.toList ++ ")[1]".toList) :=
    toList_literal key (by decide) (by decide)
  have hafter : sql.Reads ")[1]".toList [.symbol ')', .symbol '[', word "1", .symbol ']'] [] := by
    decide
  rw [htext]
  exact reads_elementAt.append ((Lexer.reads_quoted _).append hafter (.inr (by decide)))
    (.inl (by decide))

theorem reads_metricNameEq (name : String) :
    sql.Reads (SeriesCond.metricNameEq name).text.toList nameSkeleton [name.toList] := by
  have htext : (SeriesCond.metricNameEq name).text.toList =
      "s.metric_name = ".toList ++ (sql.quoted name.toList ++ "".toList) :=
    toList_literal name (by decide) (by decide)
  have hbefore : sql.Reads "s.metric_name = ".toList
      [word "s", .symbol '.', word "metric_name", .symbol '='] [] := by
    decide
  rw [htext, String.toList_empty, List.append_nil]
  exact hbefore.append (Lexer.reads_quoted _) (.inl (by decide))

theorem reads_labelEq (key val : String) :
    sql.Reads (SeriesCond.labelEq key val).text.toList equalSkeleton [key.toList, val.toList] := by
  have hmid : sql.Reads ")[1] = ".toList
      [.symbol ')', .symbol '[', word "1", .symbol ']', .symbol '='] [] := by
    decide
  have hafter : sql.Reads "".toList [] [] := by decide
  exact reads_literals key val reads_elementAt hmid hafter (by decide) (by decide) (by decide)
    (by decide) (by decide) (by decide)

theorem reads_labelNe (key val : String) :
    sql.Reads (SeriesCond.labelNe key val).text.toList notEqualSkeleton
      [key.toList, [], val.toList] := by
  have hbefore : sql.Reads "COALESCE(element_at(s.labels, ".toList
      [word "COALESCE", .symbol '(', word "element_at", .symbol '(', word "s", .symbol '.',
        word "labels", .symbol ','] [] := by
    decide
  have hmid : sql.Reads ")[1], '') != ".toList
      [.symbol ')', .symbol '[', word "1", .symbol ']', .symbol ',', .literal [], .symbol ')',
        .symbol '!', .symbol '='] [[]] := by
    decide
  have hafter : sql.Reads "".toList [] [] := by decide
  exact reads_literals key val hbefore hmid hafter (by decide) (by decide) (by decide)
    (by decide) (by decide) (by decide)

/-- The tokens of a condition, without its strings. -/
def SeriesCond.skeleton : SeriesCond → List (Lexer.Token Char)
  | .metricNameEq _ => nameSkeleton
  | .labelEq _ _ => equalSkeleton
  | .labelNe _ _ => notEqualSkeleton

/-- The strings of a condition. -/
def SeriesCond.strings : SeriesCond → List String
  | .metricNameEq name => [name]
  | .labelEq key val => [key, val]
  | .labelNe key val => [key, "", val]

/-- **A condition** is read as its tokens and its strings. -/
theorem SeriesCond.reads (c : SeriesCond) :
    sql.Reads c.text.toList c.skeleton (c.strings.map String.toList) := by
  cases c with
  | metricNameEq name => exact reads_metricNameEq name
  | labelEq key val => exact reads_labelEq key val
  | labelNe key val => exact reads_labelNe key val

/-- Whether a selector has a condition on the metric name is seen from its shape. -/
theorem isSome_effectiveMetricName (sel : VectorSelector) :
    (effectiveMetricName sel).isSome = true ↔
      sel.shape.named = true ∨ .nameEqual ∈ sel.shape.matchers := by
  cases hname : sel.name with
  | some name => simp [effectiveMetricName, VectorSelector.shape, hname]
  | none =>
    simp only [effectiveMetricName, VectorSelector.shape, hname, Option.isSome_map,
      Option.isSome_none, Bool.false_eq_true, false_or, List.find?_isSome, List.mem_map]
    refine exists_congr fun m => and_congr_right fun _ => ?_
    rw [Matcher.shape]
    cases m.op <;> by_cases hm : m.name = "__name__" <;> simp [hm]

theorem skeleton_labelPredicate (m : Matcher) :
    (labelPredicate m).map SeriesCond.skeleton = m.shape.skeleton := by
  rw [labelPredicate, Matcher.shape]
  cases m.op <;> by_cases hm : m.name = "__name__" <;> simp only [hm, if_true, if_false] <;> rfl

theorem strings_labelPredicate (m : Matcher) :
    (labelPredicate m).toList.flatMap SeriesCond.strings = m.strings := by
  rw [labelPredicate, Matcher.strings]
  cases m.op <;> by_cases hm : m.name = "__name__" <;> simp only [hm, if_true, if_false] <;> rfl

/-- The tokens of the conditions of a selector are a function of its shape. -/
theorem map_skeleton_selectorPredicates (sel : VectorSelector) :
    (selectorPredicates sel).map SeriesCond.skeleton = sel.shape.skeletons := by
  have hlabels : (sel.matchers.filterMap labelPredicate).map SeriesCond.skeleton =
      sel.shape.matchers.filterMap MatcherShape.skeleton := by
    rw [List.map_filterMap, VectorSelector.shape, List.filterMap_map]
    congr 1
    funext m
    exact skeleton_labelPredicate m
  have hname : ((effectiveMetricName sel).map SeriesCond.metricNameEq).toList.map
      SeriesCond.skeleton = if sel.shape.named = true ∨ .nameEqual ∈ sel.shape.matchers
        then [nameSkeleton] else [] := by
    simp only [← isSome_effectiveMetricName]
    cases effectiveMetricName sel with
    | none => rfl
    | some name => rfl
  rw [selectorPredicates, List.map_append, SelectorShape.skeletons, hlabels, hname]

/-- The strings of the conditions of a selector are its own. -/
theorem flatMap_strings_selectorPredicates (sel : VectorSelector) :
    (selectorPredicates sel).flatMap SeriesCond.strings = sel.strings := by
  have hlabels : (sel.matchers.filterMap labelPredicate).flatMap SeriesCond.strings =
      sel.matchers.flatMap Matcher.strings := by
    rw [List.filterMap_eq_flatMap_toList, List.flatMap_assoc]
    congr 1
    funext m
    exact strings_labelPredicate m
  have hname : ((effectiveMetricName sel).map SeriesCond.metricNameEq).toList.flatMap
      SeriesCond.strings = (effectiveMetricName sel).toList := by
    cases effectiveMetricName sel with
    | none => rfl
    | some name => rfl
  rw [selectorPredicates, List.flatMap_append, VectorSelector.strings, hlabels, hname]

/-! ### Reading lists -/

/-- Texts between commas. -/
theorem reads_commas {text : String → String} {k : List (Lexer.Token Char)} (keys : List String)
    (h : ∀ key, sql.Reads (text key).toList k [key.toList]) :
    sql.Reads (", ".intercalate (keys.map text)).toList
      ([.symbol ','].intercalate (List.replicate keys.length k)) (keys.map String.toList) := by
  have hsep : sql.Reads ", ".toList [.symbol ','] [] := by decide
  have hlist := hsep.intercalate (by decide) (by decide) (by decide) (l := keys)
    fun key _ => h key
  rw [← List.map_eq_flatMap, List.map_const'] at hlist
  rw [String.toList_intercalate, List.map_map]
  exact hlist

theorem reads_quotedKey (key : String) :
    sql.Reads ("'" ++ sqlEscape key ++ "'").toList [.literal []] [key.toList] := by
  have htext : ("'" ++ sqlEscape key ++ "'").toList =
      "".toList ++ (sql.quoted key.toList ++ "".toList) :=
    toList_literal key (by decide) (by decide)
  rw [htext, String.toList_empty, List.append_nil, List.nil_append]
  exact Lexer.reads_quoted _

/-- **The conditions of a `WHERE` clause.** -/
theorem reads_conditionsText (sel : VectorSelector) :
    sql.Reads (conditionsText sel).toList ([word "AND"].intercalate sel.shape.skeletons)
      (sel.strings.map String.toList) := by
  have hsep : sql.Reads " AND ".toList [word "AND"] [] := by decide
  have hlist := hsep.intercalate (by decide) (by decide) (by decide)
    (l := selectorPredicates sel) fun cond _ => cond.reads
  rw [conditionsText, String.toList_intercalate, List.map_map, ← map_skeleton_selectorPredicates,
    ← flatMap_strings_selectorPredicates, List.map_flatMap]
  exact hlist

/-- **The query of `label_values`.** -/
theorem reads_labelValuesSql (name : String) :
    sql.Reads (labelValuesSql name).toList (labelValuesSkeleton (name == "__name__"))
      (if name = "__name__" then [] else [name.toList, name.toList]) := by
  by_cases hname : name = "__name__"
  · rw [labelValuesSql, if_pos hname, if_pos hname, hname]
    decide +kernel
  · have hassoc (a e b₁ b₂ b₃ c : String) :
        a ++ e ++ b₁ ++ b₂ ++ b₃ ++ e ++ c = a ++ e ++ (b₁ ++ b₂ ++ b₃) ++ e ++ c := by
      simp only [String.append_assoc]
    have hbefore : sql.Reads "SELECT DISTINCT element_at(labels, ".toList
        [word "SELECT", word "DISTINCT", word "element_at", .symbol '(', word "labels",
          .symbol ','] [] := by
      decide
    have hmid : sql.Reads
        ")[1] AS v FROM iceberg.skaldberg.series WHERE element_at(labels, ".toList
        ([.symbol ')', .symbol '[', word "1", .symbol ']'] ++ tableSkeleton ++
          [word "WHERE", word "element_at", .symbol '(', word "labels", .symbol ',']) [] := by
      decide +kernel
    have hafter : sql.Reads ")[1] IS NOT NULL ORDER BY v".toList
        [.symbol ')', .symbol '[', word "1", .symbol ']', word "IS", word "NOT", word "NULL",
          word "ORDER", word "BY", word "v"] [] := by
      decide +kernel
    have hquotes : "')[1] AS v FROM " ++ dfCatalogName ++
        ".skaldberg.series WHERE element_at(labels, '" =
          "'" ++ ")[1] AS v FROM iceberg.skaldberg.series WHERE element_at(labels, " ++ "'" := by
      decide
    have hreads := reads_literals name name hbefore hmid hafter rfl hquotes rfl (by decide)
      (by decide +kernel) (by decide)
    rw [labelValuesSql, if_neg hname, if_neg hname, hassoc]
    simpa [labelValuesSkeleton, columnSkeleton, hname] using hreads

/-- **Query text cannot escape its literal**: the conditions of a selector, the lists of keys and
the query of `label_values` are read as tokens that are a function of the shape of the selector,
the number of keys, and whether a label is the metric name. Each literal is read as the string it
stands for. -/
theorem queryText_reads (sel : VectorSelector) (keys : List String) (name : String) :
    List.Forall₂
      (fun cond k => sql.Reads cond.text.toList k (cond.strings.map String.toList))
      (selectorPredicates sel) sel.shape.skeletons ∧
    sql.Reads (conditionsText sel).toList ([word "AND"].intercalate sel.shape.skeletons)
      (sel.strings.map String.toList) ∧
    sql.Reads (quotedKeysList keys).toList
      ([.symbol ','].intercalate (List.replicate keys.length [.literal []]))
      (keys.map String.toList) ∧
    sql.Reads (labelExprsText keys).toList
      ([.symbol ','].intercalate (List.replicate keys.length labelSkeleton))
      (keys.map String.toList) ∧
    sql.Reads (labelValuesSql name).toList (labelValuesSkeleton (name == "__name__"))
      (if name = "__name__" then [] else [name.toList, name.toList]) := by
  refine ⟨?_, reads_conditionsText sel, reads_commas keys reads_quotedKey,
    reads_commas keys reads_labelExpr, reads_labelValuesSql name⟩
  rw [← map_skeleton_selectorPredicates, List.forall₂_map_right_iff, List.forall₂_same]
  exact fun cond _ => cond.reads

/-- A name that tries to go on behind its literal. -/
example : sql.tokenize (SeriesCond.metricNameEq "' OR 'a'='a").text.toList =
    some [word "s", .symbol '.', word "metric_name", .symbol '=',
      .literal "' OR 'a'='a".toList] := by
  decide +kernel

end Skaldberg.Prometheus
