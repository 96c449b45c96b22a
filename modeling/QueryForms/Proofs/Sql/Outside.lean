import QueryForms.Proofs.Sql.Vocabulary

/-!
# Outside of quoted names

What a statement says outside of its quoted names, character by character: how deep its parentheses
are nested and whether two marks stand together that open a comment. `Sober` says of a text that its
parentheses balance, that no comment opens in it and that none opens where it meets other texts.
-/

namespace QueryForms.Sql

/-- The characters outside of double quotes, and the quotes themselves. -/
def outside (quoted : Bool) : List Char → List Char
  | [] => []
  | c :: cs =>
    if c = '"' then c :: outside (!quoted) cs
    else if quoted then outside quoted cs
    else c :: outside quoted cs

/-- Whether a text ends in double quotes. -/
def endsQuoted (quoted : Bool) (text : List Char) : Bool :=
  text.foldl (fun inside c => if c = '"' then !inside else inside) quoted

/-- How many parentheses are open after a character; none if it closes one that was not open. -/
def openNext (opened : Nat) (c : Char) : Option Nat :=
  if c = '(' then some (opened + 1)
  else if c = ')' then (if opened = 0 then none else some (opened - 1))
  else some opened

/-- How many parentheses are open after a text. -/
def openAfter (opened : Nat) (text : List Char) : Option Nat :=
  text.foldlM openNext opened

/-- A text in which a number of parentheses stay open and no comment opens. -/
structure Tidy (opened : Nat) (text : List Char) : Prop where
  parentheses : openAfter 0 text = some opened
  dashes : ¬['-', '-'] <:+: text
  stars : ¬['/', '*'] <:+: text

/-- No comment opens where two texts meet. -/
def Apart (a b : List Char) : Prop :=
  ¬(a.getLast? = some '-' ∧ b.head? = some '-') ∧ ¬(a.getLast? = some '/' ∧ b.head? = some '*')

/-! ## Texts side by side -/

theorem outside_append (quoted : Bool) (a b : List Char) :
    outside quoted (a ++ b) = outside quoted a ++ outside (endsQuoted quoted a) b := by
  induction a generalizing quoted with
  | nil => rfl
  | cons c rest ih =>
    have step : endsQuoted quoted (c :: rest)
        = endsQuoted (if c = '"' then !quoted else quoted) rest := rfl
    rw [List.cons_append, outside, outside, step]
    by_cases quote : c = '"'
    · simp [quote, ih]
    · cases quoted <;> simp [quote, ih]

theorem endsQuoted_append (quoted : Bool) (a b : List Char) :
    endsQuoted quoted (a ++ b) = endsQuoted (endsQuoted quoted a) b :=
  List.foldl_append

theorem openAfter_append (opened : Nat) (a b : List Char) :
    openAfter opened (a ++ b) = (openAfter opened a).bind fun now => openAfter now b :=
  List.foldlM_append

theorem openAfter_cons (opened : Nat) (c : Char) (rest : List Char) :
    openAfter opened (c :: rest) = (openNext opened c).bind fun now => openAfter now rest :=
  List.foldlM_cons

theorem openNext_add {opened now : Nat} {c : Char} (more : Nat) (h : openNext opened c = some now) :
    openNext (opened + more) c = some (now + more) := by
  simp only [openNext] at h ⊢
  grind

/-- Parentheses that are open before a text that closes only its own stay open. -/
theorem openAfter_add {opened now : Nat} {text : List Char} (more : Nat)
    (h : openAfter opened text = some now) :
    openAfter (opened + more) text = some (now + more) := by
  induction text generalizing opened with
  | nil => exact Option.some.inj h ▸ rfl
  | cons c rest ih =>
    rw [openAfter_cons] at h ⊢
    obtain ⟨next, first, h⟩ := Option.bind_eq_some_iff.1 h
    rw [openNext_add more first]
    exact ih h

/-- Two characters that stand together in two texts do so in one of them or at the seam. -/
theorem pair_infix_append {x y : Char} {a b : List Char} (h : [x, y] <:+: a ++ b) :
    [x, y] <:+: a ∨ [x, y] <:+: b ∨ a.getLast? = some x ∧ b.head? = some y := by
  rcases List.infix_append_iff_ne_nil.1 h with h | h | ⟨l, r, hl, hr, split, left, right⟩
  · exact .inl h
  · exact .inr (.inl h)
  · -- both sides of the cut are not empty, so it goes between the two characters
    refine .inr (.inr ?_)
    obtain ⟨first, rfl⟩ := left
    obtain ⟨last, rfl⟩ := right
    rcases l with _ | ⟨c, _ | ⟨d, l⟩⟩
    · exact absurd rfl hl
    · cases split
      simp
    · cases l <;> simp_all

/-- A text without parentheses opens none and closes none. -/
theorem openAfter_of_forall {text : List Char} (h : ∀ c ∈ text, c ≠ '(' ∧ c ≠ ')') :
    openAfter 0 text = some 0 := by
  induction text with
  | nil => rfl
  | cons c rest ih =>
    obtain ⟨opening, closing⟩ := h c (List.mem_cons_self ..)
    have same : openNext 0 c = some 0 := by simp [openNext, opening, closing]
    rw [openAfter_cons, same]
    exact ih fun d hd => h d (List.mem_cons_of_mem _ hd)

namespace Tidy

theorem append {k l : Nat} {a b : List Char} (ha : Tidy k a) (hb : Tidy l b) (apart : Apart a b) :
    Tidy (l + k) (a ++ b) where
  parentheses := by
    rw [openAfter_append, ha.parentheses]
    simpa using openAfter_add k hb.parentheses
  dashes h := by
    rcases pair_infix_append h with h | h | h
    · exact ha.dashes h
    · exact hb.dashes h
    · exact apart.1 h
  stars h := by
    rcases pair_infix_append h with h | h | h
    · exact ha.stars h
    · exact hb.stars h
    · exact apart.2 h

/-- Closing a parenthesis that is open. -/
theorem close {k : Nat} {a : List Char} (ha : Tidy (k + 1) a) : Tidy k (a ++ [')']) where
  parentheses := by
    rw [openAfter_append, ha.parentheses]
    rfl
  dashes h := by
    rcases pair_infix_append h with h | h | h
    · exact ha.dashes h
    · simpa using h.mem (List.mem_cons_self ..)
    · simpa using h.2
  stars h := by
    rcases pair_infix_append h with h | h | h
    · exact ha.stars h
    · simpa using h.mem (List.mem_cons_self ..)
    · simpa using h.2

/-- A text without parentheses, dashes and slashes. -/
theorem of_forall {text : List Char} (h : ∀ c ∈ text, c ∉ ['(', ')', '-', '/']) : Tidy 0 text where
  parentheses := openAfter_of_forall fun c hc => by
    have other := h c hc
    simp_all
  dashes pair := absurd (by simp) (h _ (pair.mem (List.mem_cons_self ..)))
  stars pair := absurd (by simp) (h _ (pair.mem (List.mem_cons_self ..)))

end Tidy

/-! ## Sober texts -/

/-- A text of which nothing outside of its quotations disturbs what stands beside it. -/
structure Sober (opened : Nat) (text : List Char) : Prop where
  /-- Its quotations end within it. -/
  closed : endsQuoted false text = false
  /-- Outside of them its parentheses are in order, and no comment opens. -/
  tidy : Tidy opened (outside false text)
  /-- It does not begin with the second half of what opens a comment. -/
  first : text.head? ≠ some '-'
  /-- It does not end with the first half. -/
  last : ∀ c ∈ (outside false text).getLast?, c ≠ '-' ∧ c ≠ '/'

theorem sober_iff {opened : Nat} {text : List Char} : Sober opened text ↔
    endsQuoted false text = false ∧ Tidy opened (outside false text) ∧ text.head? ≠ some '-' ∧
      ∀ c ∈ (outside false text).getLast?, c ≠ '-' ∧ c ≠ '/' :=
  ⟨fun h => ⟨h.closed, h.tidy, h.first, h.last⟩, fun ⟨a, b, c, d⟩ => ⟨a, b, c, d⟩⟩

/-- Whether two characters stand together in a text. -/
def hasPair (x y : Char) : List Char → Bool
  | a :: b :: rest => (a == x && b == y) || hasPair x y (b :: rest)
  | _ => false

theorem hasPair_iff {x y : Char} {text : List Char} :
    hasPair x y text = true ↔ [x, y] <:+: text := by
  induction text with
  | nil => simp [hasPair]
  | cons a rest ih =>
    rw [List.infix_cons_iff]
    cases rest with
    | nil => simp [hasPair]
    | cons b rest =>
      rw [hasPair, Bool.or_eq_true, ih, List.cons_prefix_cons, List.cons_prefix_cons]
      simp only [Bool.and_eq_true, beq_iff_eq, List.nil_prefix, and_true]
      rw [eq_comm (a := a), eq_comm (a := b)]

instance (opened : Nat) (text : List Char) : Decidable (Tidy opened text) :=
  decidable_of_iff (openAfter 0 text = some opened ∧ ¬hasPair '-' '-' text = true ∧
      ¬hasPair '/' '*' text = true)
    ⟨fun ⟨a, b, c⟩ => ⟨a, mt hasPair_iff.2 b, mt hasPair_iff.2 c⟩,
      fun ⟨a, b, c⟩ => ⟨a, mt hasPair_iff.1 b, mt hasPair_iff.1 c⟩⟩

instance (opened : Nat) (text : List Char) : Decidable (Sober opened text) :=
  decidable_of_iff (endsQuoted false text = false ∧ Tidy opened (outside false text) ∧
      text.head? ≠ some '-' ∧
      (outside false text).getLast?.all (fun c => c != '-' && c != '/') = true)
    (by simp [Option.all_eq_true, sober_iff])

theorem head?_outside (text : List Char) : (outside false text).head? = text.head? := by
  cases text with
  | nil => rfl
  | cons c rest => by_cases quote : c = '"' <;> simp [outside, quote]

theorem mem_of_mem_outside {quoted : Bool} {text : List Char} {c : Char}
    (h : c ∈ outside quoted text) : c ∈ text := by
  induction text generalizing quoted with
  | nil => exact h
  | cons d rest ih =>
    rw [outside] at h
    split at h
    · exact (List.mem_cons.1 h).elim (fun eq => eq ▸ List.mem_cons_self ..)
        fun h => List.mem_cons_of_mem _ (ih h)
    · split at h
      · exact List.mem_cons_of_mem _ (ih h)
      · exact (List.mem_cons.1 h).elim (fun eq => eq ▸ List.mem_cons_self ..)
          fun h => List.mem_cons_of_mem _ (ih h)

/-- Nothing of a text without quotes is quoted. -/
theorem outside_eq_self {text : List Char} (h : '"' ∉ text) :
    outside false text = text ∧ endsQuoted false text = false := by
  induction text with
  | nil => exact ⟨rfl, rfl⟩
  | cons c rest ih =>
    have other : c ≠ '"' := fun eq => h (eq ▸ List.mem_cons_self ..)
    have inside := ih fun hc => h (List.mem_cons_of_mem _ hc)
    have step : endsQuoted false (c :: rest) = endsQuoted false rest := by
      simp [endsQuoted, other]
    rw [outside, step]
    simp [other, inside]

namespace Sober

/-- A text whose quotations end and that has neither parentheses nor dashes outside of them. -/
theorem of_forall {text : List Char} (closed : endsQuoted false text = false)
    (h : ∀ c ∈ outside false text, c ∉ ['(', ')', '-', '/']) : Sober 0 text where
  closed := closed
  tidy := .of_forall h
  first eq := by
    rw [← head?_outside] at eq
    exact absurd (by simp) (h _ (List.mem_of_mem_head? eq))
  last c hc := by
    have other := h c (List.mem_of_getLast? hc)
    simp_all

theorem append {k l : Nat} {a b : List Char} (ha : Sober k a) (hb : Sober l b) :
    Sober (l + k) (a ++ b) where
  closed := by rw [endsQuoted_append, ha.closed, hb.closed]
  tidy := by
    rw [outside_append, ha.closed]
    refine ha.tidy.append hb.tidy ⟨fun h => ?_, fun h => ?_⟩
    · exact (ha.last _ h.1).1 rfl
    · exact (ha.last _ h.1).2 rfl
  first := by
    cases a with
    | nil => exact hb.first
    | cons c rest => exact ha.first
  last c hc := by
    rw [outside_append, ha.closed, List.getLast?_append] at hc
    cases h : (outside false b).getLast? with
    | none => exact ha.last c (by simpa [h] using hc)
    | some d => exact hb.last c (by simpa [h] using hc)

/-- A parenthesis that is open in a text closes after it, however the text ends. -/
theorem close {k : Nat} {a : List Char} (closed : endsQuoted false a = false)
    (tidy : Tidy (k + 1) (outside false a)) (first : a.head? ≠ some '-') :
    Sober k (a ++ [')']) where
  closed := by rw [endsQuoted_append, closed]; rfl
  tidy := by rw [outside_append, closed]; exact tidy.close
  first := by
    cases a with
    | nil => simp
    | cons c rest => exact first
  last := by
    rw [outside_append, closed]
    simp [outside]

theorem parenthesized {k : Nat} {a : List Char} (ha : Sober (k + 1) a) : Sober k (a ++ [')']) :=
  close ha.closed ha.tidy ha.first

/-- A minus stands well before a text that does not begin with one. -/
theorem negated {a : List Char} (ha : Sober 0 a) : Sober 0 ("(-".toList ++ a ++ [')']) := by
  have minus : outside false "(-".toList = ['(', '-'] ∧ endsQuoted false "(-".toList = false := by
    decide
  refine close ?_ ?_ (by simp)
  · rw [endsQuoted_append, minus.2, ha.closed]
  · rw [outside_append, minus.1, minus.2]
    -- the minus is the last of its text, so what follows must not begin with another
    refine Tidy.append (k := 1) (by decide) ha.tidy ⟨fun h => ?_, fun h => absurd h.1 (by decide)⟩
    exact ha.first (head?_outside a ▸ h.2)

end Sober

/-! ## What the compiler writes -/

theorem outside_quoted (name : List Char) :
    (∀ c ∈ outside true (doubleQuotes name ++ ['"']), c = '"') ∧
      endsQuoted true (doubleQuotes name ++ ['"']) = false := by
  induction name with
  | nil => simp [doubleQuotes, outside, endsQuoted]
  | cons c rest ih =>
    by_cases quote : c = '"'
    · simpa [doubleQuotes, quote, outside, endsQuoted] using ih
    · simpa [doubleQuotes, quote, outside, endsQuoted] using ih

theorem outside_quoteIdent (name : String) :
    (∀ c ∈ outside false (quoteIdent name).toList, c = '"') ∧
      endsQuoted false (quoteIdent name).toList = false := by
  rw [quoteIdent, String.toList_ofList]
  simpa [outside, endsQuoted] using outside_quoted name.toList

theorem sober_quoteIdent (name : String) : Sober 0 (quoteIdent name).toList :=
  .of_forall (outside_quoteIdent name).2 fun c hc => by
    rw [(outside_quoteIdent name).1 c hc]
    decide

theorem sober_column (c : ColumnRef) : Sober 0 c.text.toList := by
  have name : Sober 0 (if c.name = "*" then "*" else quoteIdent c.name).toList := by
    split
    · exact (by decide : Sober 0 "*".toList)
    · exact sober_quoteIdent c.name
  rw [ColumnRef.text]
  split
  · next table _ =>
    rw [String.toList_append, String.toList_append]
    exact ((sober_quoteIdent table).append (by decide : Sober 0 ".".toList)).append name
  · exact name

/-- A text without quotes, parentheses, dashes and slashes. -/
theorem sober_of_forall {text : List Char} (h : ∀ c ∈ text, c ∉ ['"', '(', ')', '-', '/']) :
    Sober 0 text := by
  have none : '"' ∉ text := fun quote => absurd (by simp) (h _ quote)
  refine .of_forall (outside_eq_self none).2 fun c hc => ?_
  have other := h c (mem_of_mem_outside hc)
  simp_all

theorem not_mem_of_isDigit {c : Char} (h : c.isDigit = true) :
    c ∉ ['"', '(', ')', '-', '/'] := by
  intro hc
  simp only [List.mem_cons, List.not_mem_nil, or_false] at hc
  rcases hc with rfl | rfl | rfl | rfl | rfl <;> cases h

theorem sober_mark (style : PlaceholderStyle) (n : Nat) : Sober 0 (style.mark n).toList := by
  cases style with
  | dollar =>
    have dollar : Sober 0 "$".toList := by decide
    have digits : Sober 0 (toString n).toList :=
      sober_of_forall fun c hc => not_mem_of_isDigit (isDigit_of_mem_toString hc)
    rw [PlaceholderStyle.mark, String.toList_append]
    exact dollar.append digits
  | question =>
    have question : Sober 0 "?".toList := by decide
    exact question

theorem sober_bound (b : Bound) (edge : Edge) : Sober 0 (b.toSql edge).toList := by
  have counted : ∀ (n : Nat) (s : String), Sober 0 s.toList → Sober 0 (toString n ++ s).toList := by
    intro n s hs
    have digits : Sober 0 (toString n).toList :=
      sober_of_forall fun c hc => not_mem_of_isDigit (isDigit_of_mem_toString hc)
    rw [String.toList_append]
    exact digits.append hs
  cases b with
  | unbounded => cases edge <;> decide
  | current =>
    have row : Sober 0 "CURRENT ROW".toList := by decide
    exact row
  | preceding n => exact counted n " PRECEDING" (by decide)
  | following n => exact counted n " FOLLOWING" (by decide)

theorem sober_frame (start stop : Bound) : Sober 0 (frameText start stop).toList := by
  rw [frameText, String.toList_append, String.toList_append, String.toList_append]
  have words : Sober 0 "ROWS BETWEEN ".toList ∧ Sober 0 " AND ".toList := by decide
  exact ((words.1.append (sober_bound start .first)).append words.2).append (sober_bound stop .last)

/-! ## Timestamps -/

/-- In a text no dashes meet, and none can meet after it. -/
def Dashed (text : List Char) : Prop :=
  ¬['-', '-'] <:+: text ∧ text.getLast? ≠ some '-'

namespace Dashed

variable {a b : List Char}

theorem of_not_mem (h : '-' ∉ a) : Dashed a :=
  ⟨fun pair => h (pair.mem (List.mem_cons_self ..)), fun last => h (List.mem_of_getLast? last)⟩

/-- A dash before digits. -/
theorem dash (h : '-' ∉ a) (some : a ≠ []) : Dashed ('-' :: a) := by
  refine ⟨fun pair => ?_, fun last => ?_⟩
  · rcases List.infix_cons_iff.1 pair with pair | pair
    · exact h ((List.cons_prefix_cons.1 pair).2.mem (List.mem_cons_self ..))
    · exact h (pair.mem (List.mem_cons_self ..))
  · rw [List.getLast?_cons_of_ne_nil some] at last
    exact h (List.mem_of_getLast? last)

theorem append (ha : Dashed a) (hb : Dashed b) : Dashed (a ++ b) := by
  refine ⟨fun pair => ?_, fun last => ?_⟩
  · rcases pair_infix_append pair with pair | pair | seam
    · exact ha.1 pair
    · exact hb.1 pair
    · exact ha.2 seam.1
  · rw [List.getLast?_append] at last
    cases h : b.getLast? with
    | none => exact ha.2 (by simpa [h] using last)
    | some c => exact hb.2 (by simpa [h] using last)

end Dashed

theorem padded_spec (width n : Nat) :
    '-' ∉ (DateText.padded width n).toList ∧ (DateText.padded width n).toList ≠ [] := by
  refine ⟨fun h => absurd (DateText.isDigit_of_mem_padded h) (by decide), ?_⟩
  rw [DateText.padded, String.toList_append, toList_toString]
  exact List.append_ne_nil_of_right_ne_nil _ Nat.toDigits_ne_nil

theorem dashed_year (year : Int) : Dashed (DateText.writeYear year).toList := by
  have digits : ∀ n, Dashed (DateText.padded 4 n).toList :=
    fun n => .of_not_mem (padded_spec 4 n).1
  rw [DateText.writeYear]
  split
  · exact digits _
  · rw [String.toList_append]
    split
    · exact .dash (padded_spec 4 _).1 (padded_spec 4 _).2
    · exact .append (.of_not_mem (by decide)) (digits _)

/-- The dashes of a date stand between digits. -/
theorem dashed_timestamp (t : Instant) : Dashed (timestampText t).toList := by
  -- the text is cut before each dash of the date; the clock after it has none
  have parts : ∃ (date : CivilDate) (clock : List Char), (timestampText t).toList
      = ('\'' :: (DateText.writeYear date.year).toList)
        ++ ('-' :: (DateText.padded 2 date.month).toList)
        ++ ('-' :: (DateText.padded 2 date.day).toList) ++ clock ∧ '-' ∉ clock := by
    refine ⟨t.date, _, by simp [timestampText, DateText.millisZulu, DateText.write]; rfl, ?_⟩
    simp [DateText.writeFraction, (padded_spec _ _).1]
  obtain ⟨date, clock, text, plain⟩ := parts
  rw [text]
  have year : Dashed ('\'' :: (DateText.writeYear date.year).toList) :=
    (Dashed.of_not_mem (a := ['\'']) (by decide)).append (dashed_year date.year)
  refine ((year.append ?_).append ?_).append (.of_not_mem plain)
  · exact .dash (padded_spec 2 _).1 (padded_spec 2 _).2
  · exact .dash (padded_spec 2 _).1 (padded_spec 2 _).2

theorem sober_timestamp (t : Instant) : Sober 0 (timestampText t).toList := by
  -- dashes apart, a timestamp has no character that disturbs
  have marks : ∀ c ∈ "-+T:.Z'::TIMESTAMPTZ".toList, c ∉ ['"', '(', ')', '/'] := by
    simp
  have clean : ∀ c ∈ (timestampText t).toList, c ∉ ['"', '(', ')', '/'] := by
    intro c hc
    rw [timestampText, String.toList_append, String.toList_append] at hc
    rcases List.mem_append.1 hc with hc | hc
    · rcases List.mem_append.1 hc with hc | hc
      · exact marks c ((by decide : "'".toList ⊆ "-+T:.Z'::TIMESTAMPTZ".toList) hc)
      · rcases mem_millisZulu hc with digit | mark
        · have fewer : ['"', '(', ')', '/'] ⊆ ['"', '(', ')', '-', '/'] := by decide
          exact fun h => not_mem_of_isDigit digit (fewer h)
        · exact marks c ((by decide : "-+T:.Z".toList ⊆ "-+T:.Z'::TIMESTAMPTZ".toList) mark)
    · exact marks c ((by decide : "'::TIMESTAMPTZ".toList ⊆ "-+T:.Z'::TIMESTAMPTZ".toList) hc)
  have whole := outside_eq_self fun h => absurd (by simp) (clean _ h)
  refine ⟨whole.2, ?_, by simp [timestampText], ?_⟩
  · rw [whole.1]
    refine ⟨openAfter_of_forall fun c hc => ?_, (dashed_timestamp t).1, fun h => ?_⟩
    · have other := clean c hc
      simp_all
    · exact absurd (by simp) (clean _ (h.mem (List.mem_cons_self ..)))
  · have last : (timestampText t).toList.getLast? = some 'Z' := by
      rw [timestampText, String.toList_append, List.getLast?_append]
      rfl
    rw [whole.1, last]
    exact fun c hc => Option.some.inj hc ▸ by decide

/-- Every way of composition leaves texts sober. -/
theorem textComposes_sober : TextComposes (Sober 0) where
  columnText := sober_column
  timestamp := sober_timestamp
  asterisk := by decide
  frame := sober_frame
  empty := by decide
  mark := sober_mark
  leading s hs a ha := by
    have sober : ∀ s ∈ leadingTexts, Sober 0 s.toList := by decide +kernel
    exact (sober s hs).append ha
  trailing s hs a ha := by
    have sober : ∀ s ∈ trailingTexts, Sober 0 s.toList := by decide +kernel
    exact ha.append (sober s hs)
  middle s hs a b ha hb := by
    have sober : ∀ s ∈ middleTexts, Sober 0 s.toList := by decide +kernel
    exact (ha.append (sober s hs)).append hb
  wrapped s hs a ha := by
    -- the minus ends its text with half of a comment, so its case is a lemma of its own
    have known : ∀ s ∈ openingTexts, s = "(-" ∨ Sober 1 s.toList := by decide +kernel
    rcases known s hs with rfl | sober
    · exact ha.negated
    · exact (sober.append ha).parenthesized
  attached s hs a b ha hb := by
    have sober : ∀ s ∈ attachingTexts, Sober 1 s.toList := by decide +kernel
    exact ((ha.append (sober s hs)).append hb).parenthesized
  aliased a name ha :=
    (ha.append (by decide : Sober 0 " AS ".toList)).append (sober_quoteIdent name)

end QueryForms.Sql
