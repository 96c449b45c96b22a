import Mathlib.Data.List.TakeWhile
import QueryForms.Json.Token
import QueryForms.Proofs.Number.Digits

/-!
# The tokens of a written document

The text of a document without floats is read back token by token: `Writes` says that from between
tokens a text leads to the tokens that it spells, whatever comes next, and has a rule for each way
texts are put together. `writes_compactChars` gathers this for whole documents.
-/

namespace QueryForms.Json

/-! ## Numbers -/

/-- Only zero is written with a zero in front. -/
theorem eq_zero_of_toDigits {n : Nat} {rest : List Char}
    (h : Nat.toDigits 10 n = '0' :: rest) : n = 0 := by
  induction n using Nat.strongRecOn generalizing rest with
  | ind n ih =>
    by_cases one : n < 10
    · have single : ∀ m < 10, Nat.digitChar m = '0' → m = 0 := by decide
      rw [Nat.toDigits_of_lt_base one] at h
      exact single n one (List.cons.inj h).1
    · have more : 10 ≤ n := Nat.le_of_not_lt one
      rw [Nat.toDigits_of_base_le (by decide) more] at h
      rcases List.append_eq_cons_iff.1 h with ⟨none, -⟩ | ⟨tail, front, -⟩
      · exact absurd none Nat.toDigits_ne_nil
      · have := ih (n / 10) (by omega) front
        omega

/-- All characters are digits. -/
def AllDigits (cs : List Char) : Prop :=
  ∀ c ∈ cs, c.isDigit = true

theorem splitDigits_append {digits rest : List Char} (h : AllDigits digits)
    (stop : ∀ c ∈ rest.head?, c.isDigit = false) : splitDigits (digits ++ rest) = (digits, rest) := by
  cases rest with
  | nil =>
    rw [List.append_nil, splitDigits, List.takeWhile_eq_self_iff.2 h, List.dropWhile_eq_nil_iff.2 h]
  | cons c cs =>
    have other : ¬c.isDigit = true := Bool.eq_false_iff.1 (stop c rfl)
    rw [splitDigits, List.takeWhile_append_of_pos h, List.dropWhile_append_of_pos h,
      List.takeWhile_cons_of_neg other, List.dropWhile_cons_of_neg other, List.append_nil]

theorem splitDigits_self {digits : List Char} (h : AllDigits digits) :
    splitDigits digits = (digits, []) := by
  have := @splitDigits_append digits [] h nofun
  rwa [List.append_nil] at this

theorem splitDigits_toDigits (n : Nat) :
    splitDigits (Nat.toDigits 10 n) = (Nat.toDigits 10 n, []) :=
  splitDigits_self fun _ => Nat.isDigit_of_mem_toDigits (by decide) (by decide)

theorem isEmpty_toDigits (n : Nat) : (Nat.toDigits 10 n).isEmpty = false := by
  rw [List.isEmpty_eq_false_iff]
  exact Nat.toDigits_ne_nil

/-- No number is written with too many zeros. -/
theorem zeros_toDigits (n : Nat) :
    ((Nat.toDigits 10 n).length != 1 && (Nat.toDigits 10 n).head? == some '0') = false := by
  cases digits : Nat.toDigits 10 n with
  | nil => exact absurd digits Nat.toDigits_ne_nil
  | cons first rest =>
    by_cases zero : first = '0'
    · subst zero
      rw [eq_zero_of_toDigits digits, Nat.toDigits_zero] at digits
      rw [← digits]
      rfl
    · simp [zero]

/-- Digits after a sign are a negative whole number. -/
theorem readNumber?_negative (n : Nat) :
    readNumber? ('-' :: Nat.toDigits 10 n) = readWhole? true (Nat.toDigits 10 n) := by
  rw [readNumber?, splitDigits_toDigits]
  simp only [isEmpty_toDigits, zeros_toDigits, Bool.or_self]
  rfl

/-- Digits are a whole number. -/
theorem readNumber?_digits (n : Nat) :
    readNumber? (Nat.toDigits 10 n) = readWhole? false (Nat.toDigits 10 n) := by
  have unsigned : ∀ rest, Nat.toDigits 10 n ≠ '-' :: rest := fun rest signed =>
    absurd (Nat.isDigit_of_mem_toDigits (by decide) (by decide)
      (signed ▸ List.mem_cons_self .. : '-' ∈ Nat.toDigits 10 n)) (by decide)
  rw [readNumber?.eq_def]
  split
  next negative cs found =>
    split at found
    · next rest signed => exact absurd signed (unsigned rest)
    · cases found
      simp only [splitDigits_toDigits, isEmpty_toDigits, zeros_toDigits, Bool.or_self]
      rfl

theorem readNumber?_integerText (n : Int64) :
    readNumber? (integerText n.toInt) = some (.integer n) := by
  by_cases negative : n.toInt < 0
  · have value : -(n.toInt.natAbs : Int) = n.toInt := by omega
    have positive : n.toInt.natAbs ≠ 0 := by omega
    rw [integerText, if_pos negative, readNumber?_negative, readWhole?]
    simp only [digitsValue_toDigits, positive, and_false, if_false, if_true, value,
      fit?_eq_some_iff.2 rfl]
  · have value : (n.toInt.natAbs : Int) = n.toInt := by omega
    rw [integerText, if_neg negative, readNumber?_digits, readWhole?]
    simp only [digitsValue_toDigits, Bool.false_eq_true, false_and, if_false, value,
      fit?_eq_some_iff.2 rfl]

/-- An integer is written with digits and a sign. -/
theorem digit_of_mem_integerText {n : Int} {c : Char} (h : c ∈ integerText n) :
    (c == '-' || c.isDigit) = true := by
  have digits : ∀ d ∈ Nat.toDigits 10 n.natAbs, (d == '-' || d.isDigit) = true := fun d hd => by
    rw [Nat.isDigit_of_mem_toDigits (by decide) (by decide) hd, Bool.or_true]
  rw [integerText] at h
  split at h
  · rcases List.mem_cons.1 h with rfl | h
    · rfl
    · exact digits c h
  · exact digits c h

theorem integerText_ne_nil (n : Int) : integerText n ≠ [] := by
  rw [integerText]
  split
  · exact List.cons_ne_nil _ _
  · exact Nat.toDigits_ne_nil

/-- The text of an integer is read as the integer. -/
theorem readWord?_integerText (n : Int64) : readWord? (integerText n.toInt) = some (.integer n) := by
  have noWord : ∀ word : List Char, (∃ c ∈ word, (c == '-' || c.isDigit) = false) →
      integerText n.toInt ≠ word := by
    rintro word ⟨c, hc, letter⟩ rfl
    exact Bool.false_ne_true (letter.symm.trans (digit_of_mem_integerText hc))
  rw [readWord?, if_neg (noWord _ ⟨'n', by decide, rfl⟩), if_neg (noWord _ ⟨'t', by decide, rfl⟩),
    if_neg (noWord _ ⟨'f', by decide, rfl⟩), readNumber?_integerText]

/-! ## Scans -/

/-- Go on with a scan. -/
def Scan.run? (s : Scan) (cs : List Char) : Option Scan :=
  cs.foldlM scanChar? s

namespace Scan

@[simp] theorem run?_nil (s : Scan) : s.run? [] = some s :=
  rfl

theorem run?_cons (s : Scan) (c : Char) (cs : List Char) :
    s.run? (c :: cs) = (scanChar? s c).bind fun next => next.run? cs :=
  List.foldlM_cons ..

theorem run?_append (s : Scan) (cs ds : List Char) :
    s.run? (cs ++ ds) = (s.run? cs).bind fun next => next.run? ds :=
  List.foldlM_append ..

/-- A scan is done with some tokens: a number or a word may still stand at the end, but whatever
character comes next that is in no word, it ends there. -/
def Settles (s : Scan) (back : List Token) : Prop :=
  s = ⟨.between, back⟩ ∨ ∃ word j before, s = ⟨.word word, before⟩ ∧
    readWord? word.reverse = some j ∧ back = .scalar j :: before

theorem Settles.next {s : Scan} {back : List Token} (h : s.Settles back) {c : Char}
    (hc : isWordChar c = false) : scanChar? s c = begin? back c := by
  rcases h with rfl | ⟨word, j, before, rfl, read, rfl⟩
  · rfl
  · simp [scanChar?, hc, read]

theorem Settles.finish {s : Scan} {back : List Token} (h : s.Settles back) :
    s.finish? = some back.reverse := by
  rcases h with rfl | ⟨word, j, before, rfl, read, rfl⟩
  · rfl
  · simp [finish?, read]

end Scan

/-! ## What a text spells -/

/-- From between tokens a text leads to the tokens that it spells. -/
def Writes (cs : List Char) (tokens : List Token) : Prop :=
  ∀ back, ∃ s, Scan.run? ⟨.between, back⟩ cs = some s ∧ s.Settles (tokens.reverse ++ back)

/-- A character that is a token by itself. -/
theorem begin?_of_punctuation {c : Char} {token : Token} (h : punctuation? c = some token)
    (back : List Token) : isWordChar c = false ∧ begin? back c = some ⟨.between, token :: back⟩ := by
  have mark : isSpace c = false ∧ (c == '"') = false ∧ isWordChar c = false := by
    rw [punctuation?] at h
    repeat' split at h
    all_goals first | (subst c; decide) | cases h
  simp_all [begin?]

/-- A character that begins a number or a word. -/
theorem begin?_of_isWordChar {c : Char} (h : isWordChar c = true) (back : List Token) :
    begin? back c = some ⟨.word [c], back⟩ := by
  have noSpace : isSpace c = false := by
    by_contra space
    simp only [isSpace, Bool.not_eq_false, Bool.or_eq_true, beq_iff_eq] at space
    rcases space with ((rfl | rfl) | rfl) | rfl <;> exact absurd h (by decide)
  have noQuote : c ≠ '"' := by
    rintro rfl
    exact absurd h (by decide)
  rw [begin?, noSpace, if_neg Bool.false_ne_true, if_neg noQuote, if_pos h]

namespace Writes

variable {cs ds : List Char} {tokens others : List Token}

theorem nil : Writes [] [] :=
  fun _ => ⟨_, rfl, .inl rfl⟩

/-- After a text comes a mark, and then another text. -/
theorem append (h : Writes cs tokens) {c : Char} {mark : Token} (hc : punctuation? c = some mark)
    (ho : Writes ds others) : Writes (cs ++ c :: ds) (tokens ++ mark :: others) := by
  intro back
  obtain ⟨s, run, settles⟩ := h back
  obtain ⟨t, rest, settles'⟩ := ho (mark :: (tokens.reverse ++ back))
  obtain ⟨noWord, begins⟩ := begin?_of_punctuation hc (tokens.reverse ++ back)
  refine ⟨t, ?_, ?_⟩
  · rw [Scan.run?_append, run, Option.bind_some, Scan.run?_cons, settles.next noWord, begins,
      Option.bind_some, rest]
  · simpa using settles'

/-- A mark, and then a text. -/
theorem cons {c : Char} {mark : Token} (hc : punctuation? c = some mark) (h : Writes ds others) :
    Writes (c :: ds) (mark :: others) :=
  nil.append hc h

/-- A text, and then a mark. -/
theorem concat (h : Writes cs tokens) {c : Char} {mark : Token} (hc : punctuation? c = some mark) :
    Writes (cs ++ [c]) (tokens ++ [mark]) :=
  h.append hc nil

/-- A number or a word. -/
theorem word {j : Json} (nonempty : cs ≠ []) (hc : ∀ c ∈ cs, isWordChar c = true)
    (read : readWord? cs = some j) : Writes cs [.scalar j] := by
  intro back
  have rest : ∀ (ds word : List Char), (∀ c ∈ ds, isWordChar c = true) →
      Scan.run? ⟨.word word, back⟩ ds = some ⟨.word (ds.reverse ++ word), back⟩ := by
    intro ds
    induction ds with
    | nil => exact fun word _ => rfl
    | cons d ds ih =>
      intro word hd
      have inside : scanChar? ⟨.word word, back⟩ d = some ⟨.word (d :: word), back⟩ :=
        if_pos (hd d (List.mem_cons_self ..))
      rw [Scan.run?_cons, inside, Option.bind_some,
        ih _ fun c hc => hd c (List.mem_cons_of_mem _ hc), List.reverse_cons, List.append_assoc,
        List.singleton_append]
  cases cs with
  | nil => exact absurd rfl nonempty
  | cons c ds =>
    have first : scanChar? ⟨.between, back⟩ c = some ⟨.word [c], back⟩ :=
      begin?_of_isWordChar (hc c (List.mem_cons_self ..)) back
    refine ⟨⟨.word (ds.reverse ++ [c]), back⟩, ?_, .inr ⟨_, j, back, rfl, by simpa using read, rfl⟩⟩
    rw [Scan.run?_cons, first, Option.bind_some,
      rest ds [c] fun d hd => hc d (List.mem_cons_of_mem _ hd)]

end Writes

/-! ## Strings -/

theorem hexValue?_hexDigit {d : Nat} (h : d < 16) : hexValue? (hexDigit d) = some d := by
  have all : ∀ d < 16, hexValue? (hexDigit d) = some d := by decide
  exact all d h

/-- A control character is read back from its code. -/
theorem run?_code {c : Char} (h : c.toNat < 0x20) (text : List Char) (back : List Token) :
    Scan.run? ⟨.text text, back⟩
        ['\\', 'u', '0', '0', hexDigit (c.toNat / 16), hexDigit (c.toNat % 16)]
      = some ⟨.text (c :: text), back⟩ := by
  have zeros : Scan.run? ⟨.text text, back⟩ ['\\', 'u', '0', '0']
      = some ⟨.code text none 2 0, back⟩ := rfl
  have high : scanChar? ⟨.code text none 2 0, back⟩ (hexDigit (c.toNat / 16))
      = some ⟨.code text none 1 (c.toNat / 16), back⟩ := by
    simp [scanChar?, hexValue?_hexDigit (show c.toNat / 16 < 16 by omega)]
  have value : c.toNat / 16 * 16 + c.toNat % 16 = c.toNat := by omega
  have low : scanChar? ⟨.code text none 1 (c.toNat / 16), back⟩ (hexDigit (c.toNat % 16))
      = some ⟨.text (c :: text), back⟩ := by
    have noPair : ¬(0xd800 ≤ c.toNat ∧ c.toNat ≤ 0xdbff) ∧ ¬(0xdc00 ≤ c.toNat ∧ c.toNat ≤ 0xdfff) := by
      omega
    simp [scanChar?, hexValue?_hexDigit (show c.toNat % 16 < 16 by omega), value, endCode?,
      noPair.1, noPair.2, Char.ofNat_toNat]
  have split : ['\\', 'u', '0', '0', hexDigit (c.toNat / 16), hexDigit (c.toNat % 16)]
      = ['\\', 'u', '0', '0'] ++ [hexDigit (c.toNat / 16), hexDigit (c.toNat % 16)] := rfl
  rw [split, Scan.run?_append, zeros, Option.bind_some, Scan.run?_cons, high, Option.bind_some,
    Scan.run?_cons, low, Option.bind_some, Scan.run?_nil]

/-- A character of a string is read back, escaped or not. -/
theorem run?_escapeChar (c : Char) (text : List Char) (back : List Token) :
    Scan.run? ⟨.text text, back⟩ (escapeChar c) = some ⟨.text (c :: text), back⟩ := by
  by_cases named : c ∈ ['"', '\\', '\n', '\r', '\t', '\x08', '\x0c']
  · simp only [List.mem_cons, List.not_mem_nil, or_false] at named
    rcases named with rfl | rfl | rfl | rfl | rfl | rfl | rfl <;> rfl
  · simp only [List.mem_cons, List.not_mem_nil, or_false, not_or] at named
    obtain ⟨noQuote, noSlash, h₁, h₂, h₃, h₄, h₅⟩ := named
    simp only [escapeChar, noQuote, noSlash, h₁, h₂, h₃, h₄, h₅, if_false]
    split
    · next control => exact run?_code control text back
    · next shown =>
      rw [Scan.run?_cons]
      simp [scanChar?, noQuote, noSlash, shown]

theorem run?_flatMap_escapeChar (cs text : List Char) (back : List Token) :
    Scan.run? ⟨.text text, back⟩ (cs.flatMap escapeChar)
      = some ⟨.text (cs.reverse ++ text), back⟩ := by
  induction cs generalizing text with
  | nil => rfl
  | cons c cs ih =>
    rw [List.flatMap_cons, Scan.run?_append, run?_escapeChar, Option.bind_some, ih,
      List.reverse_cons, List.append_assoc, List.singleton_append]

/-- A string is written so that it is read back. -/
theorem writes_quote (s : String) : Writes (quote s) [.scalar (.string s)] := by
  intro back
  refine ⟨_, ?_, .inl rfl⟩
  rw [quote, List.cons_append, Scan.run?_cons]
  show Scan.run? ⟨.text [], back⟩ (s.toList.flatMap escapeChar ++ ['"']) = _
  rw [Scan.run?_append, run?_flatMap_escapeChar, Option.bind_some, Scan.run?_cons]
  simp [scanChar?]

/-- A name, a colon and a text. -/
theorem writes_field (name : String) {cs : List Char} {tokens : List Token}
    (h : Writes cs tokens) :
    Writes (quote name ++ ':' :: cs) (.scalar (.string name) :: .colon :: tokens) := by
  have colon : punctuation? ':' = some .colon := rfl
  exact (writes_quote name).append colon h

/-! ## Documents -/

mutual

/-- Whether no float is in a document. -/
def isExact : Json → Bool
  | .float _ => false
  | .array items => isExactList items
  | .object fields => isExactFields fields
  | _ => true

/-- Whether no float is in documents. -/
def isExactList : List Json → Bool
  | [] => true
  | j :: rest => isExact j && isExactList rest

/-- Whether no float is in the fields of an object. -/
def isExactFields : List (String × Json) → Bool
  | [] => true
  | (_, j) :: rest => isExact j && isExactFields rest

end

mutual

/-- The tokens that spell a document. -/
def tokens : Json → List Token
  | .array [] => [.openArray, .closeArray]
  | .array (item :: rest) => .openArray :: (tokens item ++ itemTokens rest ++ [.closeArray])
  | .object [] => [.openObject, .closeObject]
  | .object ((name, value) :: rest) =>
    .openObject :: .scalar (.string name) :: .colon ::
      (tokens value ++ fieldTokens rest ++ [.closeObject])
  | j => [.scalar j]

/-- The tokens of the further items of an array, a comma before each. -/
def itemTokens : List Json → List Token
  | [] => []
  | item :: rest => .comma :: (tokens item ++ itemTokens rest)

/-- The tokens of the further fields of an object, a comma before each. -/
def fieldTokens : List (String × Json) → List Token
  | [] => []
  | (name, value) :: rest =>
    .comma :: .scalar (.string name) :: .colon :: (tokens value ++ fieldTokens rest)

end

mutual

/-- The compact text of a document spells its tokens. -/
theorem writes_compactChars : ∀ {j : Json}, j.isExact = true → Writes j.compactChars j.tokens
  | .null, _ => .word (List.cons_ne_nil _ _) (List.all_eq_true.1 rfl) rfl
  | .boolean b, _ => by cases b <;> exact .word (List.cons_ne_nil _ _) (List.all_eq_true.1 rfl) rfl
  | .integer n, _ => by
    refine .word (integerText_ne_nil _) (fun c hc => ?_) (readWord?_integerText n)
    have digit := digit_of_mem_integerText hc
    rw [Bool.or_eq_true] at digit
    rcases digit with sign | digit
    · simp [isWordChar, sign]
    · simp [isWordChar, Char.isAlphanum, digit]
  | .string s, _ => writes_quote s
  | .array [], _ => .cons rfl (.cons rfl .nil)
  | .array (item :: rest), exact => by
    rw [isExact, isExactList, Bool.and_eq_true] at exact
    rw [compactChars, tokens]
    exact .cons rfl ((writes_compactItems exact.2 (writes_compactChars exact.1)).concat rfl)
  | .object [], _ => .cons rfl (.cons rfl .nil)
  | .object ((name, value) :: rest), exact => by
    rw [isExact, isExactFields, Bool.and_eq_true] at exact
    rw [compactChars, tokens]
    have field := writes_field name (writes_compactChars exact.1)
    exact .cons rfl ((writes_compactFields exact.2 field).concat rfl)

/-- Further items after a text. -/
theorem writes_compactItems : ∀ {items : List Json}, isExactList items = true →
    ∀ {cs : List Char} {before : List Token}, Writes cs before →
      Writes (cs ++ compactItems items) (before ++ itemTokens items)
  | [], _, cs, before, h => by rwa [compactItems, itemTokens, List.append_nil, List.append_nil]
  | item :: rest, exact, cs, before, h => by
    rw [isExactList, Bool.and_eq_true] at exact
    rw [compactItems, itemTokens]
    exact h.append rfl (writes_compactItems exact.2 (writes_compactChars exact.1))

/-- Further fields after a text. -/
theorem writes_compactFields : ∀ {fields : List (String × Json)}, isExactFields fields = true →
    ∀ {cs : List Char} {before : List Token}, Writes cs before →
      Writes (cs ++ compactFields fields) (before ++ fieldTokens fields)
  | [], _, cs, before, h => by rwa [compactFields, fieldTokens, List.append_nil, List.append_nil]
  | (name, value) :: rest, exact, cs, before, h => by
    rw [isExactFields, Bool.and_eq_true] at exact
    rw [compactFields, fieldTokens]
    have field := writes_field name (writes_compactChars exact.1)
    exact h.append rfl (writes_compactFields exact.2 field)

end

/-- A text that spells the tokens of a document is scanned as these. -/
theorem Writes.scan?_eq {cs : List Char} {tokens : List Token} (h : Writes cs tokens) :
    Token.scan? cs = some tokens := by
  obtain ⟨s, run, settles⟩ := h []
  have scanned : cs.foldlM scanChar? ⟨.between, []⟩ = some s := run
  rw [Token.scan?, scanned, Option.bind_some, settles.finish, List.append_nil, List.reverse_reverse]

end QueryForms.Json
