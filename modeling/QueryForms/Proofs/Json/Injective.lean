import QueryForms.Proofs.Json.Number
import QueryForms.Proofs.Json.Scan
import QueryForms.Proofs.Number.Equality

/-!
# Documents are told by their text

No compact text of a document begins the text of another one that goes on with a mark
(`compactChars_append_inj`): numbers and words end where their characters do, strings at their quote,
arrays and objects at their bracket. So documents with finite floats are the same if their texts are
(`compact_injective`).
-/

namespace QueryForms.Json

/-! ## Documents with finite floats -/

mutual

/-- Whether all floats in a document are finite. -/
def isFinite : Json → Bool
  | .float x => x.isFinite
  | .array items => isFiniteList items
  | .object fields => isFiniteFields fields
  | _ => true

/-- Whether all floats in documents are finite. -/
def isFiniteList : List Json → Bool
  | [] => true
  | j :: rest => isFinite j && isFiniteList rest

/-- Whether all floats in the fields of an object are finite. -/
def isFiniteFields : List (String × Json) → Bool
  | [] => true
  | (_, j) :: rest => isFinite j && isFiniteFields rest

end

/-! ## Numbers and words -/

/-- Whether a document is written as a number or a word. -/
def isWord : Json → Bool
  | .null => true
  | .boolean _ => true
  | .integer _ => true
  | .float _ => true
  | _ => false

/-- The text that goes on after a word does so with no character of words. -/
def Ends (rest : List Char) : Prop :=
  ∀ c ∈ rest.head?, isWordChar c = false

theorem ends_cons {c : Char} (h : isWordChar c = false) (cs : List Char) : Ends (c :: cs) := by
  rintro d ⟨⟩
  exact h

/-- The text of a finite float: a minus or nothing, and a text with a point or an exponent. -/
theorem exists_reads {x : Float} (finite : x.isFinite = true) :
    ∃ sign text q, (FloatLayout.json.render x).toList = sign ++ text ∧ (sign = ['-'] ∨ sign = []) ∧
      FloatLayout.Reads text q := by
  obtain ⟨d, found⟩ := exists_ofFloat?_of_isFinite finite
  obtain ⟨text, written, reads⟩ := FloatLayout.toList_finite d
  refine ⟨if d.negative then ['-'] else [], text, _, ?_, ?_, reads⟩
  · simp only [FloatLayout.render, found]
    exact written
  · split
    · exact .inl rfl
    · exact .inr rfl

theorem isWordChar_of_mem_compactChars {j : Json} (word : j.isWord = true)
    (finite : j.isFinite = true) : j.compactChars ≠ [] ∧ ∀ c ∈ j.compactChars, isWordChar c = true := by
  cases j with
  | null => exact ⟨List.cons_ne_nil _ _, List.all_eq_true.1 rfl⟩
  | boolean b => cases b <;> exact ⟨List.cons_ne_nil _ _, List.all_eq_true.1 rfl⟩
  | integer n =>
    refine ⟨integerText_ne_nil _, fun c hc => ?_⟩
    have digit := digit_of_mem_integerText hc
    rcases Bool.or_eq_true _ _ ▸ digit with sign | digit
    · simp [isWordChar, sign]
    · exact FloatLayout.isWordChar_of_isDigit digit
  | float x =>
    obtain ⟨sign, text, q, written, signs, reads⟩ := exists_reads finite
    obtain ⟨c, cs, rfl, -⟩ := reads.front
    rw [compactChars, written]
    refine ⟨List.append_ne_nil_of_right_ne_nil _ (List.cons_ne_nil _ _),
      List.forall_mem_append.2 ⟨?_, reads.word⟩⟩
    rcases signs with rfl | rfl
    · exact List.forall_mem_singleton.2 rfl
    · exact fun _ none => absurd none List.not_mem_nil
  | _ => cases word

/-- The text of a finite float is not that of null or a truth value, which begin with a letter, nor
that of an integer, which has no point and no exponent. -/
theorem render_ne_of_isExact {x : Float} (finite : x.isFinite = true) {j : Json}
    (word : j.isWord = true) (exact : j.isExact = true) :
    (FloatLayout.json.render x).toList ≠ j.compactChars := by
  obtain ⟨sign, text, q, written, signs, reads⟩ := exists_reads finite
  obtain ⟨c, cs, rfl, digit⟩ := reads.front
  have letter : ∀ {d : Char} {ds : List Char}, d ≠ '-' → d.isDigit = false →
      sign ++ c :: cs ≠ d :: ds := by
    rintro d ds noSign noDigit same
    rcases signs with rfl | rfl
    · exact noSign (List.cons.inj same).1.symm
    · rw [(List.cons.inj same).1, noDigit] at digit
      cases digit
  rw [written]
  cases j with
  | null => exact letter (by decide) rfl
  | boolean b => cases b <;> exact letter (by decide) rfl
  | integer n =>
    intro same
    have digits : ∀ d ∈ sign ++ c :: cs, (d == '-' || d.isDigit) = true := by
      rw [same]
      exact fun d => digit_of_mem_integerText
    rcases reads.mark with mark | mark
    · exact Bool.noConfusion (digits '.' (List.mem_append_right sign mark))
    · exact Bool.noConfusion (digits 'e' (List.mem_append_right sign mark))
  | float _ => cases exact
  | string _ | array _ | object _ => cases word

theorem readWord?_compactChars {j : Json} (word : j.isWord = true) (exact : j.isExact = true) :
    readWord? j.compactChars = some j := by
  cases j with
  | null => rfl
  | boolean b => cases b <;> rfl
  | integer n => exact readWord?_integerText n
  | float _ => cases exact
  | string _ | array _ | object _ => cases word

/-- Numbers and words are told by their text. -/
theorem compactChars_inj_of_isWord {j k : Json} (word : j.isWord = true) (word' : k.isWord = true)
    (finite : j.isFinite = true) (finite' : k.isFinite = true)
    (h : j.compactChars = k.compactChars) : j = k := by
  have float : ∀ {j : Json}, j.isWord = true → j.isExact = false → ∃ x, j = .float x := by
    intro j word inexact
    cases j with
    | float x => exact ⟨x, rfl⟩
    | null | boolean _ | integer _ => cases inexact
    | string _ | array _ | object _ => cases word
  cases exact : j.isExact with
  | true =>
    cases exact' : k.isExact with
    | true =>
      rw [← Option.some_inj, ← readWord?_compactChars word exact, h,
        readWord?_compactChars word' exact']
    | false =>
      obtain ⟨y, rfl⟩ := float word' exact'
      exact absurd h.symm (render_ne_of_isExact finite' word exact)
  | false =>
    obtain ⟨x, rfl⟩ := float word exact
    cases exact' : k.isExact with
    | true => exact absurd h (render_ne_of_isExact finite word' exact')
    | false =>
      obtain ⟨y, rfl⟩ := float word' exact'
      obtain ⟨d, found⟩ := exists_ofFloat?_of_isFinite finite
      obtain ⟨d', found'⟩ := exists_ofFloat?_of_isFinite finite'
      exact congrArg Json.float (FloatLayout.render_injective found found' (String.toList_inj.1 h))

/-- Where the characters of words end, the text before is the same. -/
theorem append_inj_of_isWordChar {cs ds r t : List Char} (hc : ∀ c ∈ cs, isWordChar c = true)
    (hd : ∀ c ∈ ds, isWordChar c = true) (hr : Ends r) (ht : Ends t) (h : cs ++ r = ds ++ t) :
    cs = ds ∧ r = t := by
  have cut : ∀ {cs r : List Char}, (∀ c ∈ cs, isWordChar c = true) → Ends r →
      (cs ++ r).takeWhile isWordChar = cs := by
    intro cs r hc hr
    rw [List.takeWhile_append_of_pos hc]
    cases r with
    | nil => exact List.append_nil cs
    | cons c rest =>
      rw [List.takeWhile_cons_of_neg (Bool.eq_false_iff.1 (hr c rfl)), List.append_nil]
  have words : cs = ds := by rw [← cut hc hr, h, cut hd ht]
  subst words
  exact ⟨rfl, List.append_cancel_left h⟩

/-- A text that begins with a mark is not that of a number or a word. -/
theorem cons_ne_of_isWord {k : Json} (word : k.isWord = true) (finite : k.isFinite = true) {c : Char}
    (hc : isWordChar c = false) (cs t : List Char) : c :: cs ≠ k.compactChars ++ t := by
  intro h
  obtain ⟨some, chars⟩ := isWordChar_of_mem_compactChars word finite
  obtain ⟨d, ds, text⟩ := List.exists_cons_of_ne_nil some
  rw [text] at h chars
  have inside := chars d List.mem_cons_self
  rw [← (List.cons.inj h).1, hc] at inside
  cases inside

/-! ## Strings -/

theorem escapeChar_injective {c d : Char} (h : escapeChar c = escapeChar d) : c = d := by
  have read := run?_escapeChar c [] []
  rw [h, run?_escapeChar, Option.some.injEq, Scan.mk.injEq, Mode.text.injEq] at read
  exact (List.cons.inj read.1).1.symm

/-- How many characters are written for one is told by the first two. -/
def escapeLength : List Char → ℕ
  | '\\' :: 'u' :: _ => 6
  | '\\' :: _ => 2
  | _ => 1

theorem escapeLength_append (c : Char) (rest : List Char) :
    escapeLength (escapeChar c ++ rest) = (escapeChar c).length := by
  unfold escapeChar
  repeat' split
  all_goals first | rfl | skip
  next noSlash _ _ _ _ _ _ =>
    rw [List.singleton_append, escapeLength.eq_3 _ (by simp_all) (by simp_all)]
    rfl

/-- No character is written with a quote in front. -/
theorem quote_ne_escapeChar (c : Char) (cs rest : List Char) :
    '"' :: cs ≠ escapeChar c ++ rest := by
  unfold escapeChar
  repeat' split
  all_goals simp_all [eq_comm]

/-- A string ends at its quote. -/
theorem flatMap_escapeChar_append_inj : ∀ {cs ds r t : List Char},
    cs.flatMap escapeChar ++ '"' :: r = ds.flatMap escapeChar ++ '"' :: t → cs = ds ∧ r = t
  | [], [], r, t, h => ⟨rfl, (List.cons.inj h).2⟩
  | [], d :: ds, r, t, h => by
    rw [List.flatMap_cons, List.append_assoc] at h
    exact absurd h (quote_ne_escapeChar d _ _)
  | c :: cs, [], r, t, h => by
    rw [List.flatMap_cons, List.append_assoc] at h
    exact absurd h.symm (quote_ne_escapeChar c _ _)
  | c :: cs, d :: ds, r, t, h => by
    rw [List.flatMap_cons, List.flatMap_cons, List.append_assoc, List.append_assoc] at h
    have length : (escapeChar c).length = (escapeChar d).length := by
      rw [← escapeLength_append c, h, escapeLength_append]
    obtain ⟨first, rest⟩ := List.append_inj h length
    obtain ⟨rfl, rfl⟩ := flatMap_escapeChar_append_inj rest
    exact ⟨congrArg (· :: cs) (escapeChar_injective first), rfl⟩

theorem quote_append_inj {s s' : String} {r t : List Char} (h : quote s ++ r = quote s' ++ t) :
    s = s' ∧ r = t := by
  simp only [quote, List.cons_append, List.append_assoc, List.cons.injEq, true_and] at h
  obtain ⟨chars, rest⟩ := flatMap_escapeChar_append_inj h
  exact ⟨String.toList_inj.1 chars, rest⟩

/-! ## Documents -/

/-- No document begins with a closing bracket. -/
theorem cons_ne_of_close {k : Json} (finite : k.isFinite = true) {close : Char}
    (hc : close = ']' ∨ close = '\x7d') (cs t : List Char) : close :: cs ≠ k.compactChars ++ t := by
  have mark : isWordChar close = false := by rcases hc with rfl | rfl <;> rfl
  have noBracket : ∀ {c : Char} {ds : List Char}, c ≠ ']' → c ≠ '\x7d' → close :: cs ≠ c :: ds := by
    rintro c ds h h' same
    rcases hc with rfl | rfl
    · exact h (List.cons.inj same).1.symm
    · exact h' (List.cons.inj same).1.symm
  cases k with
  | string s => exact noBracket (by decide) (by decide)
  | array items => cases items <;> exact noBracket (by decide) (by decide)
  | object fields =>
    cases fields with
    | nil => exact noBracket (by decide) (by decide)
    | cons field rest => exact noBracket (by decide) (by decide)
  | null | boolean _ | integer _ | float _ => exact cons_ne_of_isWord rfl finite mark cs t

/-- After an item comes another one or the end. -/
theorem ends_compactItems (items : List Json) (r : List Char) :
    Ends (compactItems items ++ ']' :: r) := by
  cases items with
  | nil => exact ends_cons rfl _
  | cons item rest => exact ends_cons rfl _

theorem ends_compactFields (fields : List (String × Json)) (r : List Char) :
    Ends (compactFields fields ++ '\x7d' :: r) := by
  cases fields with
  | nil => exact ends_cons rfl _
  | cons field rest => exact ends_cons rfl _

/-- A number or a word begins only the document that it is. -/
theorem word_append_inj {j k : Json} {r t : List Char} (word : j.isWord = true)
    (finite : j.isFinite = true) (finite' : k.isFinite = true) (hr : Ends r) (ht : Ends t)
    (h : j.compactChars ++ r = k.compactChars ++ t) : j = k ∧ r = t := by
  have other : ∀ {c : Char} {cs : List Char}, isWordChar c = false →
      j.compactChars ++ r ≠ c :: cs := fun mark same =>
    cons_ne_of_isWord word finite mark _ r same.symm
  cases k with
  | string s => exact absurd h (other rfl)
  | array items => cases items <;> exact absurd h (other rfl)
  | object fields =>
    cases fields with
    | nil => exact absurd h (other rfl)
    | cons field rest => exact absurd h (other rfl)
  | null | boolean _ | integer _ | float _ =>
    obtain ⟨-, chars⟩ := isWordChar_of_mem_compactChars word finite
    obtain ⟨-, chars'⟩ := isWordChar_of_mem_compactChars rfl finite'
    obtain ⟨same, rest⟩ := append_inj_of_isWordChar chars chars' hr ht h
    exact ⟨compactChars_inj_of_isWord word rfl finite finite' same, rest⟩

theorem string_append_inj {s : String} {k : Json} {r t : List Char} (finite : k.isFinite = true)
    (h : (string s).compactChars ++ r = k.compactChars ++ t) : .string s = k ∧ r = t := by
  cases k with
  | string s' =>
    obtain ⟨rfl, rest⟩ := quote_append_inj h
    exact ⟨rfl, rest⟩
  | array items => cases items <;> simp [compactChars, quote] at h
  | object fields =>
    cases fields with
    | nil => simp [compactChars, quote] at h
    | cons field rest => simp [compactChars, quote] at h
  | null | boolean _ | integer _ | float _ =>
    exact absurd h (cons_ne_of_isWord rfl finite rfl _ t)

mutual

/-- No document begins another one that goes on differently. -/
theorem compactChars_append_inj : ∀ {j k : Json} {r t : List Char}, j.isFinite = true →
    k.isFinite = true → Ends r → Ends t → j.compactChars ++ r = k.compactChars ++ t → j = k ∧ r = t
  | .array [], k, r, t, _, finite, _, _, h => by
    cases k with
    | array others =>
      cases others with
      | nil => simpa [compactChars] using h
      | cons other more =>
        rw [isFinite, isFiniteList, Bool.and_eq_true] at finite
        simp only [compactChars, List.cons_append, List.nil_append, List.append_assoc] at h
        exact absurd (List.cons.inj h).2 (cons_ne_of_close finite.1 (.inl rfl) _ _)
    | object others => cases others <;> simp [compactChars] at h
    | string s => simp [compactChars, quote] at h
    | _ => exact absurd h (cons_ne_of_isWord rfl finite rfl _ t)
  | .array (item :: rest), k, r, t, finite, finite', _, _, h => by
    rw [isFinite, isFiniteList, Bool.and_eq_true] at finite
    cases k with
    | array others =>
      cases others with
      | nil =>
        simp only [compactChars, List.cons_append, List.nil_append, List.append_assoc] at h
        exact absurd (List.cons.inj h).2.symm (cons_ne_of_close finite.1 (.inl rfl) _ _)
      | cons other more =>
        rw [isFinite, isFiniteList, Bool.and_eq_true] at finite'
        simp only [compactChars, List.cons_append, List.nil_append, List.append_assoc] at h
        obtain ⟨rfl, items⟩ := compactChars_append_inj finite.1 finite'.1 (ends_compactItems rest r)
          (ends_compactItems more t) (List.cons.inj h).2
        obtain ⟨rfl, rfl⟩ := compactItems_append_inj finite.2 finite'.2 items
        exact ⟨rfl, rfl⟩
    | object others => cases others <;> simp [compactChars] at h
    | string s => simp [compactChars, quote] at h
    | _ => exact absurd h (cons_ne_of_isWord rfl finite' rfl _ t)
  | .object [], k, r, t, _, finite, _, _, h => by
    cases k with
    | object others => cases others <;> simp_all [compactChars, quote]
    | array others => cases others <;> simp [compactChars] at h
    | string s => simp [compactChars, quote] at h
    | _ => exact absurd h (cons_ne_of_isWord rfl finite rfl _ t)
  | .object ((name, value) :: rest), k, r, t, finite, finite', _, _, h => by
    rw [isFinite, isFiniteFields, Bool.and_eq_true] at finite
    cases k with
    | object others =>
      cases others with
      | nil => simp [compactChars, quote] at h
      | cons other more =>
        rw [isFinite, isFiniteFields, Bool.and_eq_true] at finite'
        simp only [compactChars, List.cons_append, List.append_assoc] at h
        obtain ⟨rfl, field⟩ := quote_append_inj (List.cons.inj h).2
        obtain ⟨rfl, fields⟩ := compactChars_append_inj finite.1 finite'.1
          (ends_compactFields rest r) (ends_compactFields more t) (List.cons.inj field).2
        obtain ⟨rfl, rfl⟩ := compactFields_append_inj finite.2 finite'.2 fields
        exact ⟨rfl, rfl⟩
    | array others => cases others <;> simp [compactChars] at h
    | string s => simp [compactChars, quote] at h
    | _ => exact absurd h (cons_ne_of_isWord rfl finite' rfl _ t)
  | .string _, _, _, _, _, finite, _, _, h => string_append_inj finite h
  | .null, _, _, _, finite, finite', hr, ht, h => word_append_inj rfl finite finite' hr ht h
  | .boolean _, _, _, _, finite, finite', hr, ht, h => word_append_inj rfl finite finite' hr ht h
  | .integer _, _, _, _, finite, finite', hr, ht, h => word_append_inj rfl finite finite' hr ht h
  | .float _, _, _, _, finite, finite', hr, ht, h => word_append_inj rfl finite finite' hr ht h

theorem compactItems_append_inj : ∀ {items others : List Json} {r t : List Char},
    isFiniteList items = true → isFiniteList others = true →
    compactItems items ++ ']' :: r = compactItems others ++ ']' :: t → items = others ∧ r = t
  | [], [], r, t, _, _, h => by simpa [compactItems] using h
  | [], other :: more, r, t, _, _, h => by simp [compactItems] at h
  | item :: rest, [], r, t, _, _, h => by simp [compactItems] at h
  | item :: rest, other :: more, r, t, finite, finite', h => by
    rw [isFiniteList, Bool.and_eq_true] at finite finite'
    simp only [compactItems, List.cons_append, List.append_assoc, List.cons.injEq, true_and] at h
    obtain ⟨rfl, items⟩ := compactChars_append_inj finite.1 finite'.1 (ends_compactItems rest r)
      (ends_compactItems more t) h
    obtain ⟨rfl, rfl⟩ := compactItems_append_inj finite.2 finite'.2 items
    exact ⟨rfl, rfl⟩

theorem compactFields_append_inj : ∀ {fields others : List (String × Json)} {r t : List Char},
    isFiniteFields fields = true → isFiniteFields others = true →
    compactFields fields ++ '\x7d' :: r = compactFields others ++ '\x7d' :: t →
      fields = others ∧ r = t
  | [], [], r, t, _, _, h => by simpa [compactFields] using h
  | [], other :: more, r, t, _, _, h => by simp [compactFields] at h
  | field :: rest, [], r, t, _, _, h => by simp [compactFields] at h
  | (name, value) :: rest, (name', value') :: more, r, t, finite, finite', h => by
    rw [isFiniteFields, Bool.and_eq_true] at finite finite'
    simp only [compactFields, List.cons_append, List.append_assoc, List.cons.injEq, true_and] at h
    obtain ⟨rfl, field⟩ := quote_append_inj h
    obtain ⟨rfl, fields⟩ := compactChars_append_inj finite.1 finite'.1 (ends_compactFields rest r)
      (ends_compactFields more t) (List.cons.inj field).2
    obtain ⟨rfl, rfl⟩ := compactFields_append_inj finite.2 finite'.2 fields
    exact ⟨rfl, rfl⟩

end

/-- Documents with finite floats are the same if their texts are. -/
theorem compact_injective {j k : Json} (finite : j.isFinite = true) (finite' : k.isFinite = true)
    (h : j.compact = k.compact) : j = k := by
  have chars : j.compactChars ++ [] = k.compactChars ++ [] :=
    congrArg (· ++ []) (String.ofList_injective h)
  have ends : Ends [] := fun c none => by cases none
  exact (compactChars_append_inj finite finite' ends ends chars).1

end QueryForms.Json
