import QueryForms.Proofs.Date.Text
import QueryForms.Proofs.Sql.Rendered
import QueryForms.Proofs.Sql.Token

/-!
# The vocabulary of statements

The words and marks that the compiler writes, and what else a statement may hold: names in quotes,
placeholders, offsets of a frame, timestamps. `Lexical` says of a text that it is read as such
phrases, that its quotations end within it and that it does not begin with a minus, so no two dashes
can meet. `textComposes_lexical`: every way of composition leaves texts lexical, seams included.
-/

namespace QueryForms.Sql

/-! ## Phrases -/

/-- The words of the compiler. -/
def keywords : List String :=
  ["SELECT", "FROM", "JOIN", "LEFT", "ON", "TRUE", "WHERE", "GROUP", "BY", "HAVING", "ORDER", "ASC",
    "DESC", "LIMIT", "OFFSET", "UNION", "ALL", "AS", "AND", "OR", "NOT", "IS", "NULL", "IN", "ANY",
    "LIKE", "ILIKE", "CASE", "WHEN", "THEN", "END", "CONCAT", "EXTRACT", "EPOCH", "DAY", "MONTH",
    "YEAR", "COUNT", "SUM", "AVG", "MIN", "MAX", "FILTER", "OVER", "PARTITION", "ROWS", "BETWEEN",
    "UNBOUNDED", "PRECEDING", "FOLLOWING", "CURRENT", "ROW", "ROW_NUMBER", "RANK", "DENSE_RANK",
    "LAG", "LEAD"]

/-- The marks of the compiler. -/
def marks : List String :=
  ["(", ")", ",", ".", "*", "=", "<>", "<", "<=", ">", ">=", "@>", "+", "-", "/"]

/-- Tokens that the compiler writes together. -/
inductive Phrase : List Token → Prop where
  | keyword (w : String) (known : w ∈ keywords) : Phrase [.word w]
  | mark (s : String) (known : s ∈ marks) : Phrase [.mark s]
  | identifier (name : String) : Phrase [.identifier name]
  | dollar (n : Nat) : Phrase [.dollar n]
  | question : Phrase [.question]
  | preceding (offset : Nat) : Phrase [.number offset, .word "PRECEDING"]
  | following (offset : Nat) : Phrase [.number offset, .word "FOLLOWING"]
  | timestamp (t : Instant) :
    Phrase [.text (DateText.millisZulu t), .mark "::", .word "TIMESTAMPTZ"]

/-- Phrases one after the other. -/
inductive Phrases : List Token → Prop where
  | nil : Phrases []
  | cons {phrase rest : List Token} (first : Phrase phrase) (others : Phrases rest) :
    Phrases (phrase ++ rest)

theorem Phrases.append {a b : List Token} (ha : Phrases a) (hb : Phrases b) : Phrases (a ++ b) := by
  induction ha with
  | nil => exact hb
  | cons first _ ih => rw [List.append_assoc]; exact .cons first ih

theorem Phrases.single {phrase : List Token} (h : Phrase phrase) : Phrases phrase := by
  simpa using Phrases.cons h .nil

/-- Whether a token is a word or a mark of the compiler. -/
def Token.isKnown : Token → Bool
  | .word w => keywords.contains w
  | .mark s => marks.contains s
  | _ => false

/-- Words and marks of the compiler are phrases. -/
theorem Phrases.of_isKnown {tokens : List Token} (h : ∀ t ∈ tokens, t.isKnown = true) :
    Phrases tokens := by
  induction tokens with
  | nil => exact .nil
  | cons t rest ih =>
    have first : Phrase [t] := by
      have known : t.isKnown = true := h t (List.mem_cons_self ..)
      cases t with
      | word w => exact .keyword w (List.contains_iff_mem.1 known)
      | mark s => exact .mark s (List.contains_iff_mem.1 known)
      | _ => cases known
    exact .cons first (ih fun u hu => h u (List.mem_cons_of_mem _ hu))

/-! ## Lexical texts -/

/-- A text that is read as phrases and may stand beside other texts. -/
structure Lexical (text : List Char) : Prop where
  /-- Its quotations end within it. -/
  closed : Closed text
  /-- It does not begin with a minus. -/
  unsigned : text.head? ≠ some '-'
  /-- Its tokens are phrases. -/
  phrases : Phrases (tokensOf text)

namespace Lexical

theorem empty : Lexical [] :=
  ⟨rfl, by simp, .nil⟩

/-- Two lexical texts side by side, the first of which the second cuts off. -/
theorem append {a b : List Char} (ha : Lexical a) (hb : Lexical b)
    (cut : (run .start a).2.CutBy b) : Lexical (a ++ b) where
  closed := ha.closed.append hb.closed cut
  unsigned := by
    cases a with
    | nil => exact hb.unsigned
    | cons c rest => exact ha.unsigned
  phrases := by
    rw [tokensOf_append cut]
    exact ha.phrases.append hb.phrases

/-- A lexical text after one that leaves nothing pending. -/
theorem append_of_ready {a b : List Char} (ha : Lexical a) (hb : Lexical b)
    (ready : (run .start a).2 = .start) : Lexical (a ++ b) :=
  ha.append hb (by rw [ready]; exact Pending.cutBy_start b)

end Lexical

/-! ## The texts between parts -/

/-- Words and marks of the compiler are lexical. -/
theorem lexical_of_isKnown {text : List Char}
    (h : (run .start text).2.isClosed = true ∧ text.head? ≠ some '-' ∧
      ∀ t ∈ tokensOf text, t.isKnown = true) : Lexical text :=
  ⟨h.1, h.2.1, .of_isKnown h.2.2⟩

theorem lexical_leading {s : String} (hs : s ∈ leadingTexts) :
    Lexical s.toList ∧ (run .start s.toList).2 = .start := by
  have known : ∀ s ∈ leadingTexts, (run .start s.toList).2 = .start ∧
      s.toList.head? ≠ some '-' ∧ ∀ t ∈ tokensOf s.toList, t.isKnown = true := by decide +kernel
  obtain ⟨ready, rest⟩ := known s hs
  exact ⟨lexical_of_isKnown ⟨by rw [ready]; rfl, rest⟩, ready⟩

theorem lexical_trailing {s : String} (hs : s ∈ trailingTexts) :
    Lexical s.toList ∧ ∀ c ∈ s.toList.head?, isTerminator c = true := by
  have known : ∀ s ∈ trailingTexts, ((run .start s.toList).2.isClosed = true ∧
      s.toList.head? ≠ some '-' ∧ ∀ t ∈ tokensOf s.toList, t.isKnown = true) ∧
      s.toList.head?.all isTerminator = true := by decide +kernel
  exact ⟨lexical_of_isKnown (known s hs).1, (Option.all_eq_true _ _).1 (known s hs).2⟩

/-- A text that opens a parenthesis leaves nothing pending but a minus. -/
theorem lexical_opening {s : String} (hs : s ∈ openingTexts) :
    Lexical s.toList ∧
      ((run .start s.toList).2 = .start ∨ (run .start s.toList).2 = .mark '-') := by
  have known : ∀ s ∈ openingTexts, ((run .start s.toList).2.isClosed = true ∧
      s.toList.head? ≠ some '-' ∧ ∀ t ∈ tokensOf s.toList, t.isKnown = true) ∧
      ((run .start s.toList).2 = .start ∨ (run .start s.toList).2 = .mark '-') := by decide +kernel
  exact ⟨lexical_of_isKnown (known s hs).1, (known s hs).2⟩

/-- The texts that stand between two parts. -/
def betweenTexts : List String :=
  middleTexts ++ attachingTexts ++ [" AS "]

theorem lexical_between {s : String} (hs : s ∈ betweenTexts) :
    Lexical s.toList ∧ (∀ c ∈ s.toList.head?, isTerminator c = true) ∧ s.toList ≠ [] ∧
      (run .start s.toList).2 = .start := by
  have known : ∀ s ∈ betweenTexts, ((run .start s.toList).2.isClosed = true ∧
      s.toList.head? ≠ some '-' ∧ ∀ t ∈ tokensOf s.toList, t.isKnown = true) ∧
      s.toList.head?.all isTerminator = true ∧ s.toList ≠ [] ∧
      (run .start s.toList).2 = .start := by decide +kernel
  obtain ⟨text, ends, rest⟩ := known s hs
  exact ⟨lexical_of_isKnown text, (Option.all_eq_true _ _).1 ends, rest⟩

/-! ## Seams of statements -/

namespace Lexical

variable {a b : List Char}

/-- A text between two parts cuts the first off and is cut off by the second. -/
theorem cutBy_between (ha : Lexical a) {s : String} (hs : s ∈ betweenTexts) (b : List Char) :
    (run .start a).2.CutBy s.toList ∧ (run .start (a ++ s.toList)).2.CutBy b := by
  obtain ⟨-, ends, some, ready⟩ := lexical_between hs
  have cut := Pending.cutBy_of_isClosed ha.closed ends
  refine ⟨cut, ?_⟩
  rw [pending_append cut some, ready]
  exact Pending.cutBy_start b

theorem cutBy_close (ha : Lexical a) (rest : List Char) : (run .start a).2.CutBy (')' :: rest) :=
  Pending.cutBy_of_isClosed ha.closed fun _ hc => Option.some.inj hc ▸ rfl

theorem cutBy_opening {s : String} (hs : s ∈ openingTexts) (ha : Lexical a) :
    (run .start s.toList).2.CutBy a := by
  rcases (lexical_opening hs).2 with ready | minus
  · rw [ready]
    exact Pending.cutBy_start a
  · -- a minus grows only into a comment, and no lexical text begins with a second minus
    rw [minus]
    intro c hc
    have other : c ≠ '-' := by
      rintro rfl
      exact ha.unsigned hc
    simp [advance, pair?, other]

theorem between {s : String} (hs : s ∈ betweenTexts) (ha : Lexical a) (hb : Lexical b) :
    Lexical (a ++ s.toList ++ b) :=
  (ha.append (lexical_between hs).1 (ha.cutBy_between hs b).1).append hb (ha.cutBy_between hs b).2

theorem opened {s : String} (hs : s ∈ openingTexts) (ha : Lexical a) : Lexical (s.toList ++ a) :=
  (lexical_opening hs).1.append ha (cutBy_opening hs ha)

theorem parenthesized (ha : Lexical a) : Lexical (a ++ [')']) :=
  ha.append (lexical_of_isKnown (by decide)) (ha.cutBy_close [])

end Lexical

/-! ### Tokens of the parts -/

theorem tokensOf_leading {s : String} (hs : s ∈ leadingTexts) (b : List Char) :
    tokensOf (s.toList ++ b) = tokensOf s.toList ++ tokensOf b :=
  tokensOf_append (by rw [(lexical_leading hs).2]; exact Pending.cutBy_start b)

namespace Lexical

variable {a : List Char}

theorem tokensOf_trailing (ha : Lexical a) {s : String} (hs : s ∈ trailingTexts) :
    tokensOf (a ++ s.toList) = tokensOf a ++ tokensOf s.toList :=
  tokensOf_append (Pending.cutBy_of_isClosed ha.closed (lexical_trailing hs).2)

theorem tokensOf_between (ha : Lexical a) {s : String} (hs : s ∈ betweenTexts) (b : List Char) :
    tokensOf (a ++ s.toList ++ b) = tokensOf a ++ tokensOf s.toList ++ tokensOf b := by
  rw [tokensOf_append (ha.cutBy_between hs b).2, tokensOf_append (ha.cutBy_between hs b).1]

theorem tokensOf_parenthesized (ha : Lexical a) :
    tokensOf (a ++ [')']) = tokensOf a ++ [.mark ")"] :=
  tokensOf_append (ha.cutBy_close [])

theorem tokensOf_opened {s : String} (hs : s ∈ openingTexts) (ha : Lexical a) :
    tokensOf (s.toList ++ a) = tokensOf s.toList ++ tokensOf a :=
  tokensOf_append (cutBy_opening hs ha)

end Lexical

/-! ## Names, placeholders, timestamps, frames -/

theorem tokensOf_quoteIdent (name : String) :
    tokensOf (quoteIdent name).toList = [.identifier name] := by
  rw [tokensOf, run_quoteIdent]
  simp [Pending.flush]

theorem lexical_quoteIdent (name : String) : Lexical (quoteIdent name).toList where
  closed := by rw [Closed, run_quoteIdent]; rfl
  unsigned := by simp [quoteIdent]
  phrases := by rw [tokensOf_quoteIdent]; exact .single (.identifier name)

theorem lexical_column (c : ColumnRef) : Lexical c.text.toList := by
  have name : Lexical (if c.name = "*" then "*" else quoteIdent c.name).toList := by
    split
    · exact lexical_of_isKnown (by decide)
    · exact lexical_quoteIdent c.name
  rw [ColumnRef.text]
  split
  · next table _ =>
    have dot : Lexical ".".toList := lexical_of_isKnown (by decide)
    rw [String.toList_append, String.toList_append]
    refine ((lexical_quoteIdent table).append dot ?_).append name ?_
    · rw [run_quoteIdent]
      exact fun d hd => Option.some.inj hd ▸ rfl
    · rw [run_append, run_quoteIdent]
      exact Pending.cutBy_start _
  · exact name

theorem toList_dollarMark (n : Nat) :
    (PlaceholderStyle.dollar.mark n).toList = '$' :: (toString n).toList := by
  simp [PlaceholderStyle.mark]

theorem tokensOf_dollarMark (n : Nat) :
    tokensOf (PlaceholderStyle.dollar.mark n).toList = [.dollar n] := by
  rw [toList_dollarMark, tokensOf_dollar]

theorem tokensOf_questionMark (n : Nat) :
    tokensOf (PlaceholderStyle.question.mark n).toList = [.question] := by
  have text : PlaceholderStyle.question.mark n = "?" := rfl
  rw [text]
  rfl

theorem lexical_mark (style : PlaceholderStyle) (n : Nat) : Lexical (style.mark n).toList := by
  cases style with
  | dollar =>
    refine ⟨?_, by simp [PlaceholderStyle.mark], ?_⟩
    · rw [toList_dollarMark, Closed, run_dollar]; rfl
    · rw [tokensOf_dollarMark]; exact .single (.dollar n)
  | question =>
    have text : PlaceholderStyle.question.mark n = "?" := rfl
    rw [text]
    exact ⟨rfl, by decide, .single .question⟩

/-- The text of an instant holds digits and the marks between them. -/
theorem mem_millisZulu {t : Instant} {c : Char} (h : c ∈ (DateText.millisZulu t).toList) :
    c.isDigit = true ∨ c ∈ "-+T:.Z".toList := by
  have padded : ∀ {width n}, c ∈ (DateText.padded width n).toList →
      c.isDigit = true ∨ c ∈ "-+T:.Z".toList := fun h => .inl (DateText.isDigit_of_mem_padded h)
  have mark : ∀ {s : String}, s ∈ ["-", "+", "T", ":", ".", "Z"] → c ∈ s.toList →
      c.isDigit = true ∨ c ∈ "-+T:.Z".toList := by
    intro s hs hc
    have inside : ∀ s ∈ ["-", "+", "T", ":", ".", "Z"], s.toList ⊆ "-+T:.Z".toList := by decide
    exact .inr (inside s hs hc)
  have year : ∀ {year}, c ∈ (DateText.writeYear year).toList →
      c.isDigit = true ∨ c ∈ "-+T:.Z".toList := by
    intro year h
    rw [DateText.writeYear] at h
    split at h
    · exact padded h
    · rw [String.toList_append] at h
      refine (List.mem_append.1 h).elim (mark ?_) padded
      split <;> decide
  simp only [DateText.millisZulu, DateText.write, DateText.writeFraction, String.toList_append,
    List.mem_append] at h
  rcases h with (((((((((((y | m) | p) | m) | p) | m) | p) | m) | p) | m) | p) | m | p) | m
  all_goals first | exact year y | exact padded p | exact mark (by decide) m

theorem tokensOf_timestampText (t : Instant) :
    (run .start (timestampText t).toList).2 = .word "TIMESTAMPTZ".toList ∧
      tokensOf (timestampText t).toList
        = [.text (DateText.millisZulu t), .mark "::", .word "TIMESTAMPTZ"] := by
  -- no quote stands in the instant, so what is quoted is one token
  have plain : ∀ c ∈ (DateText.millisZulu t).toList, c ≠ '\'' := by
    rintro c hc rfl
    exact absurd (mem_millisZulu hc) (by decide)
  have text : (timestampText t).toList
      = ('\'' :: ((DateText.millisZulu t).toList ++ ['\''])) ++ "::TIMESTAMPTZ".toList := by
    simp [timestampText]
  have quoted : run .start ('\'' :: ((DateText.millisZulu t).toList ++ ['\'']))
      = ([], .textEnd (DateText.millisZulu t).toList) := by
    have first : advance .start '\'' = ([], .text []) := rfl
    simp only [run, first, run_content plain [], List.nil_append]
  have cut : (run .start ('\'' :: ((DateText.millisZulu t).toList ++ ['\'']))).2.CutBy
      "::TIMESTAMPTZ".toList := by
    rw [quoted]
    exact fun c hc => Option.some.inj hc ▸ rfl
  rw [text, pending_append cut (by decide), tokensOf_append cut, tokensOf, quoted]
  refine ⟨by decide, ?_⟩
  simp only [Pending.flush, String.ofList_toList]
  rfl

theorem lexical_timestamp (t : Instant) : Lexical (timestampText t).toList where
  closed := by rw [Closed, (tokensOf_timestampText t).1]; rfl
  unsigned := by simp [timestampText]
  phrases := by rw [(tokensOf_timestampText t).2]; exact .single (.timestamp t)

/-- A number ends at the blank before its word. -/
theorem cutBy_number (n : Nat) {s : String} (ends : s.toList.head?.all isTerminator = true) :
    (run .start (toString n).toList).2.CutBy s.toList := by
  have whole : (run .start (toString n).toList).2.isClosed = true := by rw [run_toString]; rfl
  exact Pending.cutBy_of_isClosed whole ((Option.all_eq_true _ _).1 ends)

theorem tokensOf_counted (n : Nat) {s : String} (ends : s.toList.head?.all isTerminator = true) :
    tokensOf (toString n ++ s).toList = .number n :: tokensOf s.toList := by
  rw [String.toList_append, tokensOf_append (cutBy_number n ends), tokensOf_toString]
  rfl

theorem lexical_bound (b : Bound) (edge : Edge) : Lexical (b.toSql edge).toList := by
  have counted : ∀ (n : Nat) (s : String),
      (run .start s.toList).2.isClosed = true ∧ s.toList.head?.all isTerminator = true →
      Phrase (.number n :: tokensOf s.toList) → Lexical (toString n ++ s).toList := by
    intro n s ⟨closed, ends⟩ phrase
    have whole : Closed (toString n).toList := by rw [Closed, run_toString]; rfl
    refine ⟨?_, ?_, by rw [tokensOf_counted n ends]; exact .single phrase⟩
    · rw [String.toList_append]
      exact whole.append closed (cutBy_number n ends)
    · rw [String.toList_append]
      cases h : (toString n).toList with
      | nil => exact absurd (toList_toString n ▸ h) Nat.toDigits_ne_nil
      | cons c rest =>
        have digit : c.isDigit = true := isDigit_of_mem_toString (h ▸ List.mem_cons_self ..)
        rintro eq
        cases eq
        cases digit
  cases b with
  | unbounded => cases edge <;> exact lexical_of_isKnown (by decide)
  | current =>
    have row : Lexical "CURRENT ROW".toList := lexical_of_isKnown (by decide)
    exact row
  | preceding n => exact counted n " PRECEDING" (by decide) (.preceding n)
  | following n => exact counted n " FOLLOWING" (by decide) (.following n)

theorem lexical_frame (start stop : Bound) : Lexical (frameText start stop).toList := by
  rw [frameText, String.toList_append, String.toList_append, String.toList_append]
  refine Lexical.between (by decide) ?_ (lexical_bound stop .last)
  exact (lexical_of_isKnown (by decide)).append_of_ready (lexical_bound start .first) (by decide)

/-- Every way of composition leaves texts lexical. -/
theorem textComposes_lexical : TextComposes Lexical where
  columnText := lexical_column
  timestamp := lexical_timestamp
  asterisk := lexical_of_isKnown (by decide)
  frame := lexical_frame
  empty := .empty
  mark := lexical_mark
  leading s hs a ha := (lexical_leading hs).1.append_of_ready ha (lexical_leading hs).2
  trailing s hs a ha :=
    ha.append (lexical_trailing hs).1 (Pending.cutBy_of_isClosed ha.closed (lexical_trailing hs).2)
  middle s hs a b ha hb := ha.between (by simp [betweenTexts, hs]) hb
  wrapped s hs a ha := (ha.opened hs).parenthesized
  attached s hs a b ha hb := (ha.between (by simp [betweenTexts, hs]) hb).parenthesized
  aliased a name ha := ha.between (by decide) (lexical_quoteIdent name)

end QueryForms.Sql
