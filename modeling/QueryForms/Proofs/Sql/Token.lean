import QueryForms.Sql.Identifier

/-!
# The tokens of SQL

A reader of SQL that knows nothing of the compiler. It goes through a text character by character
and keeps in a `Pending` what may still grow: a word, a number, a quoted name, a mark that makes
another one with its neighbour. So two texts that stand side by side are read as a database reads
them, and a token that neither of them has may come into being at the seam. `tokensOf_append` says
when that cannot happen.
-/

namespace QueryForms.Sql

/-! ## Reading -/

/-- A token of SQL. -/
inductive Token where
  /-- A word outside of quotes. -/
  | word (letters : String)
  /-- A number in digits. -/
  | number (n : Nat)
  /-- A placeholder with a number. -/
  | dollar (n : Nat)
  /-- A placeholder without one. -/
  | question
  /-- A name in double quotes, with the quotes inside it as they are meant. -/
  | identifier (name : String)
  /-- A text in single quotes. -/
  | text (content : String)
  /-- A mark of one character or two. -/
  | mark (sign : String)
  /-- The start of a comment. -/
  | comment
  /-- A character that begins no token, or a quotation that does not end. -/
  | stray (c : Char)
deriving DecidableEq

/-- What has been read and may still grow. -/
inductive Pending where
  /-- Nothing. -/
  | start
  /-- A word. -/
  | word (letters : List Char)
  /-- A number. -/
  | number (digits : List Char)
  /-- A placeholder with the digits of its number. -/
  | dollar (digits : List Char)
  /-- A name whose quotation has not ended. -/
  | identifier (name : List Char)
  /-- A name whose quotation ends here, unless another quote follows. -/
  | identifierEnd (name : List Char)
  /-- A text whose quotation has not ended. -/
  | text (content : List Char)
  /-- A text whose quotation ends here, unless another quote follows. -/
  | textEnd (content : List Char)
  /-- A mark that may be the first half of another. -/
  | mark (c : Char)
deriving DecidableEq

namespace Pending

/-- The token that is pending, if nothing makes it grow. -/
def flush : Pending → List Token
  | .start => []
  | .word letters => [.word (String.ofList letters)]
  | .number digits => [.number (Nat.ofDigitChars 10 digits 0)]
  | .dollar [] => [.stray '$']
  | .dollar digits => [.dollar (Nat.ofDigitChars 10 digits 0)]
  | .identifier _ => [.stray '"']
  | .identifierEnd name => [.identifier (String.ofList name)]
  | .text _ => [.stray '\'']
  | .textEnd content => [.text (String.ofList content)]
  | .mark c => [.mark (String.singleton c)]

/-- Whether the pending token is complete as it is. -/
def isClosed : Pending → Bool
  | .identifier _ => false
  | .text _ => false
  | _ => true

end Pending

/-- Whether a character goes on with a word. -/
def isWordChar (c : Char) : Bool :=
  c.isAlphanum || c == '_' || c == '$'

/-- What a character begins. -/
def begin (c : Char) : List Token × Pending :=
  if c.isWhitespace then ([], .start)
  else if c.isAlpha || c = '_' then ([], .word [c])
  else if c.isDigit then ([], .number [c])
  else if c = '$' then ([], .dollar [])
  else if c = '?' then ([.question], .start)
  else if c = '"' then ([], .identifier [])
  else if c = '\'' then ([], .text [])
  else if "().,*+=".toList.contains c then ([.mark (String.singleton c)], .start)
  else if "<>@:-/".toList.contains c then ([], .mark c)
  else ([.stray c], .start)

/-- The token that two marks make together. -/
def pair? : Char → Char → Option Token
  | '<', '>' => some (.mark "<>")
  | '<', '=' => some (.mark "<=")
  | '>', '=' => some (.mark ">=")
  | '@', '>' => some (.mark "@>")
  | ':', ':' => some (.mark "::")
  | '-', '-' => some .comment
  | '/', '*' => some .comment
  | _, _ => none

/-- The pending token ends, and a character begins what comes next. -/
def cut (p : Pending) (c : Char) : List Token × Pending :=
  (p.flush ++ (begin c).1, (begin c).2)

/-- Read one character. -/
def advance (p : Pending) (c : Char) : List Token × Pending :=
  match p with
  | .word letters => if isWordChar c then ([], .word (letters ++ [c])) else cut p c
  | .number digits => if c.isDigit then ([], .number (digits ++ [c])) else cut p c
  | .dollar digits => if c.isDigit then ([], .dollar (digits ++ [c])) else cut p c
  | .identifier name =>
    if c = '"' then ([], .identifierEnd name) else ([], .identifier (name ++ [c]))
  | .identifierEnd name => if c = '"' then ([], .identifier (name ++ ['"'])) else cut p c
  | .text content => if c = '\'' then ([], .textEnd content) else ([], .text (content ++ [c]))
  | .textEnd content => if c = '\'' then ([], .text (content ++ ['\''])) else cut p c
  | .mark first =>
    match pair? first c with
    | some token => ([token], .start)
    | none => cut p c
  | .start => begin c

/-- Read characters: the tokens that are complete, and what is pending after them. -/
def run : Pending → List Char → List Token × Pending
  | p, [] => ([], p)
  | p, c :: cs =>
    ((advance p c).1 ++ (run (advance p c).2 cs).1, (run (advance p c).2 cs).2)

/-- The tokens of a text. -/
def tokensOf (text : List Char) : List Token :=
  (run .start text).1 ++ (run .start text).2.flush

/-! ## Seams -/

/-- What is pending is cut off where a text begins. -/
def Pending.CutBy (p : Pending) (text : List Char) : Prop :=
  ∀ c ∈ text.head?, advance p c = cut p c

/-- A character that ends whatever is complete. -/
def isTerminator (c : Char) : Bool :=
  c == ' ' || c == ')' || c == ','

theorem run_append (p : Pending) (a b : List Char) :
    run p (a ++ b) = ((run p a).1 ++ (run (run p a).2 b).1, (run (run p a).2 b).2) := by
  induction a generalizing p with
  | nil => rfl
  | cons c rest ih =>
    rw [List.cons_append, run, run, ih]
    simp only [List.append_assoc]

/-- At the start there is nothing to grow. -/
theorem Pending.cutBy_start (text : List Char) : Pending.start.CutBy text :=
  fun _ _ => rfl

/-- A complete token ends where a terminator follows, or nothing. -/
theorem Pending.cutBy_of_isClosed {p : Pending} (closed : p.isClosed = true) {text : List Char}
    (ends : ∀ c ∈ text.head?, isTerminator c = true) : p.CutBy text := by
  intro c hc
  have kinds : c = ' ' ∨ c = ')' ∨ c = ',' := by
    simpa [isTerminator, or_assoc] using ends c hc
  cases p with
  | start => rfl
  | identifier name => cases closed
  | text content => cases closed
  | mark first => rcases kinds with rfl | rfl | rfl <;> simp [advance, pair?]
  | _ => rcases kinds with rfl | rfl | rfl <;> rfl

/-- What follows a cut is read as from the start. -/
theorem run_of_cutBy {p : Pending} {text : List Char} (h : p.CutBy text) (some : text ≠ []) :
    run p text = (p.flush ++ (run .start text).1, (run .start text).2) := by
  cases text with
  | nil => exact absurd rfl some
  | cons c rest =>
    have first : advance p c = cut p c := h c rfl
    have start : advance .start c = begin c := rfl
    rw [run, run, first, start, cut]
    simp only [List.append_assoc]

/-- Where the first text is cut off by the second, the tokens are those of the one and those of the
other. -/
theorem tokensOf_append {a b : List Char} (h : (run .start a).2.CutBy b) :
    tokensOf (a ++ b) = tokensOf a ++ tokensOf b := by
  cases b with
  | nil => simp [tokensOf, run, Pending.flush]
  | cons c rest =>
    rw [tokensOf, run_append, run_of_cutBy h (List.cons_ne_nil c rest), tokensOf, tokensOf]
    simp only [List.append_assoc]

/-- What is pending in the end comes from the last text. -/
theorem pending_append {a b : List Char} (h : (run .start a).2.CutBy b) (some : b ≠ []) :
    (run .start (a ++ b)).2 = (run .start b).2 := by
  rw [run_append, run_of_cutBy h some]

/-- The quotations of a text end within it. -/
def Closed (text : List Char) : Prop :=
  (run .start text).2.isClosed = true

theorem Closed.append {a b : List Char} (ha : Closed a) (hb : Closed b)
    (h : (run .start a).2.CutBy b) : Closed (a ++ b) := by
  by_cases none : b = []
  · rwa [none, List.append_nil]
  · rw [Closed, pending_append h none]
    exact hb

/-! ## Quotations and numbers -/

/-- A name in quotes is one identifier, whatever is in the name. -/
theorem run_quoted (name read : List Char) :
    run (.identifier read) (doubleQuotes name ++ ['"']) = ([], .identifierEnd (read ++ name)) := by
  induction name generalizing read with
  | nil => simp [doubleQuotes, run, advance]
  | cons c rest ih =>
    by_cases quote : c = '"'
    · -- the first of the two quotes leaves the quotation, the second comes back to it
      have twice : doubleQuotes (c :: rest) = '"' :: '"' :: doubleQuotes rest := by
        simp [doubleQuotes, quote]
      rw [twice, List.cons_append, List.cons_append, run, run]
      simp [advance, ih, quote]
    · have once : doubleQuotes (c :: rest) = c :: doubleQuotes rest := by
        simp [doubleQuotes, quote]
      rw [once, List.cons_append, run]
      simp [advance, ih, quote]

theorem run_quoteIdent (name : String) :
    run .start (quoteIdent name).toList = ([], .identifierEnd name.toList) := by
  rw [quoteIdent, String.toList_ofList, List.cons_append, run]
  simp only [advance]
  exact run_quoted name.toList []

theorem run_content {content : List Char} (plain : ∀ c ∈ content, c ≠ '\'') (read : List Char) :
    run (.text read) (content ++ ['\'']) = ([], .textEnd (read ++ content)) := by
  induction content generalizing read with
  | nil => simp [run, advance]
  | cons c rest ih =>
    have other : c ≠ '\'' := plain c (List.mem_cons_self ..)
    rw [List.cons_append, run]
    simp [advance, other, ih fun d hd => plain d (List.mem_cons_of_mem _ hd)]

theorem run_digits {digits : List Char} (h : ∀ c ∈ digits, c.isDigit = true) (read : List Char) :
    run (.number read) digits = ([], .number (read ++ digits))
      ∧ run (.dollar read) digits = ([], .dollar (read ++ digits)) := by
  induction digits generalizing read with
  | nil => simp [run]
  | cons c rest ih =>
    have digit : c.isDigit = true := h c (List.mem_cons_self ..)
    have more := ih (fun d hd => h d (List.mem_cons_of_mem _ hd)) (read ++ [c])
    rw [run, run]
    simp [advance, digit, more]

/-- A digit begins a number. -/
theorem begin_of_isDigit {c : Char} (h : c.isDigit = true) : begin c = ([], .number [c]) := by
  have blank : ¬c.isWhitespace = true := by
    intro blank
    have kinds : c = ' ' ∨ c = '\t' ∨ c = '\r' ∨ c = '\n' := by
      simpa [Char.isWhitespace, or_assoc] using blank
    rcases kinds with rfl | rfl | rfl | rfl <;> cases h
  -- digits lie below all letters, and the underscore is no digit
  have letter : ¬(c.isAlpha || decide (c = '_')) = true := by
    have range : 48 ≤ c.toNat ∧ c.toNat ≤ 57 := by
      simpa [Char.isDigit, UInt32.le_iff_toNat_le] using h
    have other : c ≠ '_' := by rintro rfl; cases h
    have upper : c.isUpper = decide (65 ≤ c.val ∧ c.val ≤ 90) := rfl
    have lower : c.isLower = (decide (97 ≤ c.val) && decide (c.val ≤ 122)) := rfl
    have alpha : c.isAlpha = (c.isUpper || c.isLower) := rfl
    simp [alpha, upper, lower, UInt32.le_iff_toNat_le, other]
    omega
  rw [begin, if_neg blank, if_neg letter, if_pos h]

theorem toList_toString (n : Nat) : (toString n).toList = Nat.toDigits 10 n := by
  rw [Nat.toString_eq_ofList_toDigits, String.toList_ofList]

theorem isDigit_of_mem_toString {n : Nat} {c : Char} (h : c ∈ (toString n).toList) :
    c.isDigit = true :=
  Nat.isDigit_of_mem_toDigits (by decide) (by decide) (toList_toString n ▸ h)

/-- The digits of a number are read as the number. -/
theorem run_toString (n : Nat) :
    run .start (toString n).toList = ([], .number (toString n).toList) := by
  have digits : ∀ c ∈ (toString n).toList, c.isDigit = true := fun _ => isDigit_of_mem_toString
  cases h : (toString n).toList with
  | nil => exact absurd (toList_toString n ▸ h) Nat.toDigits_ne_nil
  | cons c rest =>
    rw [h] at digits
    have first : advance .start c = ([], .number [c]) :=
      begin_of_isDigit (digits c (List.mem_cons_self ..))
    rw [run, first]
    simp [(run_digits (fun d hd => digits d (List.mem_cons_of_mem _ hd)) [c]).1]

theorem tokensOf_toString (n : Nat) : tokensOf (toString n).toList = [.number n] := by
  rw [tokensOf, run_toString, Pending.flush, toList_toString, Nat.ofDigitChars_ten_toDigits]
  rfl

/-- A dollar and the digits of a number are read as one placeholder. -/
theorem run_dollar (n : Nat) :
    run .start ('$' :: (toString n).toList) = ([], .dollar (toString n).toList) := by
  have digits : ∀ c ∈ (toString n).toList, c.isDigit = true := fun _ => isDigit_of_mem_toString
  have first : advance .start '$' = ([], .dollar []) := rfl
  rw [run, first, (run_digits digits []).2]
  rfl

theorem tokensOf_dollar (n : Nat) : tokensOf ('$' :: (toString n).toList) = [.dollar n] := by
  rw [tokensOf, run_dollar, toList_toString]
  cases h : Nat.toDigits 10 n with
  | nil => exact absurd h Nat.toDigits_ne_nil
  | cons c rest =>
    rw [Pending.flush, ← h, Nat.ofDigitChars_ten_toDigits]
    · rfl
    · exact fun eq => nomatch eq

end QueryForms.Sql
