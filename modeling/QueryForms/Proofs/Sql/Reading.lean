import Mathlib.Data.List.Forall2
import QueryForms.Proofs.Sql.Vocabulary

/-!
# Reading conditions

What a condition in a statement means. The tokens of the text, with each placeholder replaced by its
parameter, are read with the precedence of SQL: products bind tighter than sums, sums than
comparisons, comparisons than `NOT`, `NOT` than `AND`, `AND` than `OR`, and a parenthesis is read
for itself. What is read has a truth value on a row, in the logic of three values that null asks
for.

`Fragment.Reads` says what the text of a fragment reads as wherever it stands in a statement, so the
reading of a statement is put together as the statement is.
-/

namespace QueryForms

/-- Whether two integers compare so. -/
def SqlScalar.Comparison.holds (c : SqlScalar.Comparison) (a b : Int) : Bool :=
  match c with
  | .equal => a == b
  | .notEqual => a != b
  | .greater => b < a
  | .less => a < b
  | .greaterEqual => b ≤ a
  | .lessEqual => a ≤ b

namespace Sql

/-! ## Syntax -/

/-- A sign or word between two operands. -/
inductive Connector where
  | or
  | and
  | compare (c : SqlScalar.Comparison)
  | arithmetic (op : ArithmeticOp)
deriving DecidableEq

/-- What a condition reads as. -/
inductive Reading where
  /-- A column. -/
  | column (name : String)
  /-- A parameter. -/
  | value (v : Value)
  /-- `NOT` -/
  | negation (inner : Reading)
  /-- Two operands with a connector. -/
  | binary (connector : Connector) (left right : Reading)

/-- A token between parentheses that are read already. -/
inductive Item where
  /-- What stands for itself. -/
  | operand (r : Reading)
  /-- A word. -/
  | word (w : String)
  /-- A mark. -/
  | mark (s : String)
  /-- A token that no condition has. -/
  | other

/-! ## Precedence -/

/-- The connectors of one precedence. -/
abbrev Connectors := Item → Option Connector

/-- `OR` -/
def Connectors.or : Connectors
  | .word "OR" => some .or
  | _ => none

/-- `AND` -/
def Connectors.and : Connectors
  | .word "AND" => some .and
  | _ => none

/-- The signs of comparison. -/
def Connectors.comparison : Connectors
  | .mark "=" => some (.compare .equal)
  | .mark "<>" => some (.compare .notEqual)
  | .mark ">" => some (.compare .greater)
  | .mark "<" => some (.compare .less)
  | .mark ">=" => some (.compare .greaterEqual)
  | .mark "<=" => some (.compare .lessEqual)
  | _ => none

/-- The signs of a sum. -/
def Connectors.sum : Connectors
  | .mark "+" => some (.arithmetic .add)
  | .mark "-" => some (.arithmetic .subtract)
  | _ => none

/-- The signs of a product. -/
def Connectors.product : Connectors
  | .mark "*" => some (.arithmetic .multiply)
  | .mark "/" => some (.arithmetic .divide)
  | _ => none

/-- What stands before the first connector, and each connector with what stands after it. -/
def segments (connectors : Connectors) : List Item → List Item × List (Connector × List Item)
  | [] => ([], [])
  | item :: rest =>
    match connectors item with
    | some c => ([], (c, (segments connectors rest).1) :: (segments connectors rest).2)
    | none => (item :: (segments connectors rest).1, (segments connectors rest).2)

/-- Operands of the next precedence with connectors between them, from left to right. -/
def chain (connectors : Connectors) (next : List Item → Option Reading) (items : List Item) :
    Option Reading := do
  let start ← next (segments connectors items).1
  (segments connectors items).2.foldlM
    (fun left part => (next part.2).map (.binary part.1 left)) start

/-- A single operand. -/
def readOperand : List Item → Option Reading
  | [.operand r] => some r
  | _ => none

/-- A product. -/
def readProduct : List Item → Option Reading :=
  chain .product readOperand

/-- A sum. -/
def readSum : List Item → Option Reading :=
  chain .sum readProduct

/-- A comparison: at most one sign, as comparisons do not associate. -/
def readComparison (items : List Item) : Option Reading :=
  match segments .comparison items with
  | (only, []) => readSum only
  | (left, [(c, right)]) => do return .binary c (← readSum left) (← readSum right)
  | _ => none

/-- A negation, or what binds tighter. -/
def readNegation : List Item → Option Reading
  | .word "NOT" :: rest => (readNegation rest).map .negation
  | items => readComparison items

/-- A conjunction. -/
def readConjunction : List Item → Option Reading :=
  chain .and readNegation

/-- A disjunction, which is a whole condition. -/
def readDisjunction : List Item → Option Reading :=
  chain .or readConjunction

/-! ## Parentheses and parameters -/

/-- Whether an item is a given mark. -/
def Item.isMark (s : String) : Item → Bool
  | .mark t => t == s
  | _ => false

/-- Read every parenthesis for itself: items inside parentheses that are open, innermost first, the
items read in the innermost, and the items that follow. -/
def nest (outer : List (List Item)) (inner : List Item) : List Item → Option (List Item)
  | [] => if outer.isEmpty then some inner else none
  | item :: rest =>
    if item.isMark "(" then nest (inner :: outer) [] rest
    else if item.isMark ")" then
      match outer with
      | [] => none
      | around :: outer =>
        (readDisjunction inner).bind fun r => nest outer (around ++ [.operand r]) rest
    else nest outer (inner ++ [item]) rest

/-- Read every parenthesis as one item, by a given way to read what is inside. -/
def nestBy (read : List Item → Option Item) (outer : List (List Item)) (inner : List Item) :
    List Item → Option (List Item)
  | [] => if outer.isEmpty then some inner else none
  | item :: rest =>
    if item.isMark "(" then nestBy read (inner :: outer) [] rest
    else if item.isMark ")" then
      match outer with
      | [] => none
      | around :: outer => (read inner).bind fun item => nestBy read outer (around ++ [item]) rest
    else nestBy read outer (inner ++ [item]) rest

/-- Whether a token is a placeholder. -/
def Token.isPlaceholder : Token → Bool
  | .dollar _ => true
  | .question => true
  | _ => false

/-- The parameter of a place. -/
def parameterItem (params : List Value) (place : Nat) : Item :=
  match params[place]? with
  | some v => .operand (.value v)
  | none => .other

/-- A token with its parameter; a placeholder without a number takes the next one. -/
def Token.toItem (params : List Value) (next : Nat) : Token → Item
  | .identifier name => .operand (.column name)
  | .dollar n => if n = 0 then .other else parameterItem params (n - 1)
  | .question => parameterItem params next
  | .word w => .word w
  | .mark s => .mark s
  | _ => .other

/-- Tokens with their parameters, of which some came before. -/
def substitute (params : List Value) : Nat → List Token → List Item
  | _, [] => []
  | next, token :: rest =>
    token.toItem params next
      :: substitute params (if token.isPlaceholder then next + 1 else next) rest

/-- What a statement with parameters reads as. -/
def readCondition (statement : String) (params : List Value) : Option Reading :=
  (nest [] [] (substitute params 0 (tokensOf statement.toList))).bind readDisjunction

/-! ## Truth -/

/-- A truth value of SQL; none is unknown. -/
abbrev Truth := Option Bool

namespace Truth

/-- `NOT`: the unknown stays unknown. -/
def not (a : Truth) : Truth :=
  a.map Bool.not

/-- `AND`: false beside anything is false. -/
def and : Truth → Truth → Truth
  | some false, _ => some false
  | _, some false => some false
  | some true, some true => some true
  | _, _ => none

/-- `OR`: true beside anything is true. -/
def or : Truth → Truth → Truth
  | some true, _ => some true
  | _, some true => some true
  | some false, some false => some false
  | _, _ => none

/-- The truth of a value that stands as a condition. -/
def ofValue? : Value → Option Truth
  | .boolean b => some (some b)
  | .null => some none
  | _ => none

end Truth

/-- The truth of a comparison: unknown beside null, and of integers their order. -/
def compareTruth? (c : SqlScalar.Comparison) : Value → Value → Option Truth
  | .null, _ => some none
  | _, .null => some none
  | .integer a, .integer b => some (some (c.holds a.toInt b.toInt))
  | _, _ => none

namespace Reading

/-- The value of a column or a parameter. -/
def scalar? (row : String → Value) : Reading → Option Value
  | .column name => some (row name)
  | .value v => some v
  | _ => none

/-- The truth of a condition on a row, where its operands have a comparison of their own. -/
def truth? (row : String → Value) : Reading → Option Truth
  | .column name => Truth.ofValue? (row name)
  | .value v => Truth.ofValue? v
  | .negation inner => (inner.truth? row).map Truth.not
  | .binary .or left right => do return Truth.or (← left.truth? row) (← right.truth? row)
  | .binary .and left right => do return Truth.and (← left.truth? row) (← right.truth? row)
  | .binary (.compare c) left right => do compareTruth? c (← left.scalar? row) (← right.scalar? row)
  | .binary (.arithmetic _) _ _ => none

end Reading

/-! ## Readings of fragments -/

theorem substitute_append (params : List Value) (next : Nat) (a b : List Token) :
    substitute params next (a ++ b)
      = substitute params next a ++ substitute params (next + a.countP Token.isPlaceholder) b := by
  induction a generalizing next with
  | nil => rfl
  | cons token rest ih =>
    have shift : next + 1 + rest.countP Token.isPlaceholder
        = next + (rest.countP Token.isPlaceholder + 1) := by omega
    rw [List.cons_append, substitute, substitute, ih, List.countP_cons, List.cons_append]
    cases token.isPlaceholder <;> simp [shift]

/-- An item that is no parenthesis. -/
def Item.isPlain (item : Item) : Bool :=
  !item.isMark "(" && !item.isMark ")"

section Nesting

variable {read : List Item → Option Item}

theorem nestBy_plain {item : Item} (h : item.isPlain = true) (outer : List (List Item))
    (inner rest : List Item) :
    nestBy read outer inner (item :: rest) = nestBy read outer (inner ++ [item]) rest := by
  simp only [Item.isPlain, Bool.and_eq_true, Bool.not_eq_true'] at h
  rw [nestBy.eq_def]
  simp [h.1, h.2]

theorem nestBy_open (outer : List (List Item)) (inner rest : List Item) :
    nestBy read outer inner (.mark "(" :: rest) = nestBy read (inner :: outer) [] rest := by
  rw [nestBy.eq_def]
  rfl

theorem nestBy_close (outer : List (List Item)) (around inner rest : List Item) {item : Item}
    (inside : read inner = some item) :
    nestBy read (around :: outer) inner (.mark ")" :: rest)
      = nestBy read outer (around ++ [item]) rest := by
  rw [nestBy.eq_def]
  simp [Item.isMark, inside]

/-- Items that are no parentheses. -/
theorem nestBy_append {items : List Item} (h : ∀ item ∈ items, item.isPlain = true)
    (outer : List (List Item)) (inner rest : List Item) :
    nestBy read outer inner (items ++ rest) = nestBy read outer (inner ++ items) rest := by
  induction items generalizing inner with
  | nil => rw [List.nil_append, List.append_nil]
  | cons item items ih =>
    rw [List.cons_append, nestBy_plain (h item (List.mem_cons_self ..)),
      ih fun i hi => h i (List.mem_cons_of_mem _ hi), List.append_assoc, List.singleton_append]

end Nesting

/-- The items that a text says which has no parentheses and no placeholders. -/
structure Wording (s : String) (items : List Item) : Prop where
  wording : ∀ params next, substitute params next (tokensOf s.toList) = items
  unmarked : (tokensOf s.toList).countP Token.isPlaceholder = 0
  plain : ∀ item ∈ items, item.isPlain = true

/-- The items that a text says before and after a parenthesis that it opens. -/
structure Opening (s : String) (called first : List Item) : Prop where
  wording : ∀ params next,
    substitute params next (tokensOf s.toList) = called ++ .mark "(" :: first
  unmarked : (tokensOf s.toList).countP Token.isPlaceholder = 0
  plain : (∀ item ∈ called, item.isPlain = true) ∧ ∀ item ∈ first, item.isPlain = true

theorem Opening.parenthesis : Opening "(" [] [] :=
  ⟨fun _ _ => rfl, rfl, by simp⟩

/-- A parenthesis as the condition inside it. -/
def readParenthesis (items : List Item) : Option Item :=
  (readDisjunction items).map .operand

theorem nest_eq_nestBy (outer : List (List Item)) (inner items : List Item) :
    nest outer inner items = nestBy readParenthesis outer inner items := by
  induction items generalizing outer inner with
  | nil => rfl
  | cons item rest ih =>
    rw [nest.eq_def, nestBy.eq_def]
    simp only [ih, readParenthesis]
    cases outer with
    | nil => rfl
    | cons around outer => cases readDisjunction inner <;> rfl

end Sql

namespace Fragment

open Sql

/-- What the text of a fragment reads as, wherever it stands in a statement. -/
structure Reads (f : Fragment) (items : List Item) : Prop where
  /-- Its text is lexical. -/
  lexical : ∀ style n, Lexical (f.chars style n)
  /-- It has a placeholder for each of its parameters. -/
  balanced : f.Balanced
  /-- Its tokens have them too. -/
  placeholders : ∀ style n,
    (tokensOf (f.chars style n)).countP Token.isPlaceholder = f.params.length
  /-- Between any other parameters, and after any other items, it reads as the given items. -/
  reads : ∀ (style : PlaceholderStyle) (before after : List Value) (outer : List (List Item))
    (inner rest : List Item),
    nest outer inner (substitute (before ++ f.params ++ after) before.length
      (tokensOf (f.chars style (before.length + 1))) ++ rest) = nest outer (inner ++ items) rest

/-- What the text of a fragment reads as by a way to read parentheses, wherever it stands in a
statement. -/
structure ReadsBy (read : List Item → Option Item) (f : Fragment) (items : List Item) : Prop where
  /-- Its text is lexical. -/
  lexical : ∀ style n, Lexical (f.chars style n)
  /-- It has a placeholder for each of its parameters. -/
  balanced : f.Balanced
  /-- Its tokens have them too. -/
  placeholders : ∀ style n,
    (tokensOf (f.chars style n)).countP Token.isPlaceholder = f.params.length
  /-- Between any other parameters, and after any other items, it reads as the given items. -/
  reads : ∀ (style : PlaceholderStyle) (before after : List Value) (outer : List (List Item))
    (inner rest : List Item),
    nestBy read outer inner (substitute (before ++ f.params ++ after) before.length
      (tokensOf (f.chars style (before.length + 1))) ++ rest)
        = nestBy read outer (inner ++ items) rest

namespace ReadsBy

variable {read : List Item → Option Item} {f g : Fragment} {a b : List Item}

/-- A parameter reads as its value. -/
theorem ofParam (v : Value) : (ofParam v).ReadsBy read [.operand (.value v)] where
  lexical style n := by rw [chars_ofParam]; exact lexical_mark style n
  balanced := rfl
  placeholders style n := by
    rw [chars_ofParam]
    cases style with
    | dollar => rw [tokensOf_dollarMark]; rfl
    | question => rw [tokensOf_questionMark]; rfl
  reads style before after outer inner rest := by
    have found : (before ++ (Fragment.ofParam v).params ++ after)[before.length]? = some v := by
      simp [Fragment.ofParam]
    have item : parameterItem (before ++ (Fragment.ofParam v).params ++ after) before.length
        = .operand (.value v) := by
      rw [parameterItem, found]
    -- a number in the text counts from one, and a place among the parameters from zero
    have read : ∃ token, tokensOf (style.mark (before.length + 1)).toList = [token] ∧
        token.toItem (before ++ (Fragment.ofParam v).params ++ after) before.length
          = .operand (.value v) := by
      cases style with
      | dollar => exact ⟨_, tokensOf_dollarMark _, by simpa [Token.toItem] using item⟩
      | question => exact ⟨.question, tokensOf_questionMark _, item⟩
    obtain ⟨token, tokens, read⟩ := read
    rw [chars_ofParam, tokens, substitute, read, substitute]
    exact nestBy_plain rfl outer inner rest

/-- A column by its name alone reads as the column. -/
theorem ofColumn {name : String} (h : name ≠ "*") :
    (ofText (ColumnRef.text ⟨none, name⟩)).ReadsBy read [.operand (.column name)] := by
  have text : ColumnRef.text ⟨none, name⟩ = quoteIdent name := by simp [ColumnRef.text, h]
  rw [text]
  refine ⟨fun style n => ?_, balanced_ofText _, fun style n => ?_, ?_⟩
  · rw [chars_ofText]; exact lexical_quoteIdent name
  · rw [chars_ofText, tokensOf_quoteIdent]; rfl
  · intro style before after outer inner rest
    rw [chars_ofText, tokensOf_quoteIdent]
    exact nestBy_plain rfl outer inner rest

/-- A text between two fragments. -/
theorem middle (hf : f.ReadsBy read a) (hg : g.ReadsBy read b) {s : String} (hs : s ∈ middleTexts)
    {words : List Item} (w : Wording s words) :
    ((f.pushText s).append g).ReadsBy read (a ++ words ++ b) := by
  have between : s ∈ betweenTexts := by simp [betweenTexts, hs]
  have text : ∀ style n, ((f.pushText s).append g).chars style n
      = f.chars style n ++ s.toList ++ g.chars style (n + f.params.length) := by
    intro style n
    rw [chars_append, chars_pushText, ← hf.balanced]
    simp [Fragment.pushText, count_pushText]
  have tokens : ∀ style n, tokensOf (((f.pushText s).append g).chars style n)
      = tokensOf (f.chars style n) ++ tokensOf s.toList
        ++ tokensOf (g.chars style (n + f.params.length)) := by
    intro style n
    rw [text, (hf.lexical style n).tokensOf_between between]
  have params : ((f.pushText s).append g).params = f.params ++ g.params := rfl
  refine ⟨fun style n => ?_, (hf.balanced.pushText s).append hg.balanced, fun style n => ?_, ?_⟩
  · rw [text]
    exact (hf.lexical style n).between between (hg.lexical style _)
  · rw [tokens, List.countP_append, List.countP_append, hf.placeholders, hg.placeholders, params,
      w.unmarked, List.length_append, Nat.add_zero]
  · intro style before after outer inner rest
    -- for the second fragment the parameters of the first are some that came before
    have values : before ++ (f.params ++ g.params) ++ after
        = before ++ f.params ++ (g.params ++ after) := by simp
    have number : before.length + 1 + f.params.length = (before ++ f.params).length + 1 := by
      rw [List.length_append]
      omega
    have first := hf.reads style before (g.params ++ after) outer inner
    have second := hg.reads style (before ++ f.params) after outer (inner ++ a ++ words) rest
    rw [List.append_assoc (before ++ f.params)] at second
    have split : ∀ params, substitute params before.length
        (tokensOf (f.chars style (before.length + 1)) ++ tokensOf s.toList
          ++ tokensOf (g.chars style ((before ++ f.params).length + 1)))
        = substitute params before.length (tokensOf (f.chars style (before.length + 1)))
          ++ (words ++ substitute params (before ++ f.params).length
            (tokensOf (g.chars style ((before ++ f.params).length + 1)))) := by
      intro params
      rw [List.append_assoc, substitute_append, hf.placeholders, ← List.length_append,
        substitute_append, w.wording, w.unmarked]
      rfl
    rw [params, tokens, number, values, split, List.append_assoc, first, List.append_assoc,
      nestBy_append w.plain, second]
    simp only [List.append_assoc]

/-- A text that opens a parenthesis before a fragment, and the end of the parenthesis after it. -/
theorem parenthesized (hf : f.ReadsBy read a) {s : String} (hs : s ∈ openingTexts)
    {called first : List Item} (w : Opening s called first) {item : Item}
    (inside : read (first ++ a) = some item) :
    (f.wrapped s ")").ReadsBy read (called ++ [item]) := by
  have text : ∀ style n, (f.wrapped s ")").chars style n
      = s.toList ++ f.chars style n ++ [')'] := fun style n => chars_wrapped n s ")" f
  have tokens : ∀ style n, tokensOf ((f.wrapped s ")").chars style n)
      = tokensOf s.toList ++ (tokensOf (f.chars style n) ++ [.mark ")"]) := by
    intro style n
    have lexical := hf.lexical style n
    rw [text, (lexical.opened hs).tokensOf_parenthesized, lexical.tokensOf_opened hs,
      List.append_assoc]
  have params : (f.wrapped s ")").params = f.params := rfl
  refine ⟨fun style n => ?_, hf.balanced.wrapped s ")", fun style n => ?_, ?_⟩
  · rw [text]
    exact ((hf.lexical style n).opened hs).parenthesized
  · rw [tokens, params, List.countP_append, List.countP_append, w.unmarked,
      hf.placeholders style n, Nat.zero_add]
    rfl
  · intro style before after outer inner rest
    -- what was read before waits around the parenthesis, and inside reading starts anew
    have within := hf.reads style before after ((inner ++ called) :: outer) first
      (.mark ")" :: rest)
    rw [nestBy_close outer _ _ rest inside] at within
    rw [params, tokens, substitute_append, substitute_append, w.wording, w.unmarked, Nat.add_zero,
      List.append_assoc, List.append_assoc, nestBy_append w.plain.1, List.cons_append, nestBy_open,
      nestBy_append w.plain.2, List.nil_append, List.append_assoc, ← List.append_assoc inner]
    exact within

/-- A text before a fragment. -/
theorem leading (hf : f.ReadsBy read a) {s : String} (hs : s ∈ leadingTexts) {words : List Item}
    (w : Wording s words) : ((ofText s).append f).ReadsBy read (words ++ a) := by
  obtain ⟨lexical, ready⟩ := lexical_leading hs
  have tokens : ∀ style n, tokensOf (((ofText s).append f).chars style n)
      = tokensOf s.toList ++ tokensOf (f.chars style n) := by
    intro style n
    rw [chars_ofText_append, tokensOf_leading hs]
  have params : ((ofText s).append f).params = f.params := rfl
  refine ⟨fun style n => ?_, (balanced_ofText s).append hf.balanced, fun style n => ?_, ?_⟩
  · rw [chars_ofText_append]
    exact lexical.append_of_ready (hf.lexical style n) ready
  · rw [tokens, params, List.countP_append, w.unmarked, hf.placeholders style n, Nat.zero_add]
  · intro style before after outer inner rest
    rw [params, tokens, substitute_append, w.wording, w.unmarked, Nat.add_zero, List.append_assoc,
      nestBy_append w.plain, hf.reads style before after, List.append_assoc]

/-- Nothing before a fragment. -/
theorem empty_append (hf : f.ReadsBy read a) : (empty.append f).ReadsBy read a :=
  hf.leading (s := "") (by decide) ⟨fun _ _ => rfl, rfl, fun _ h => absurd h List.not_mem_nil⟩

/-- Fragments with a text between them. -/
theorem join {s : String} (hs : s ∈ middleTexts) {words : List Item} (w : Wording s words)
    {rest : List Fragment} {items : List (List Item)} (hf : f.ReadsBy read a)
    (hr : List.Forall₂ (ReadsBy read) rest items) :
    (Fragment.join s (f :: rest)).ReadsBy read (a ++ items.flatMap fun b => words ++ b) := by
  -- what is joined so far is general, as it grows by one fragment at a time
  have step : ∀ {start : Fragment} {a : List Item}, start.ReadsBy read a →
      (appendAll s start rest).ReadsBy read (a ++ items.flatMap fun b => words ++ b) := by
    clear hf
    induction hr with
    | nil => intro start a hs; simpa [appendAll] using hs
    | @cons g b rest items hg _ ih =>
      intro start a hstart
      have next := ih (hstart.middle hg hs w)
      simpa [appendAll] using next
  exact step hf.empty_append

/-- A statement of one fragment reads as the fragment does. -/
theorem statement (hf : f.ReadsBy read a) (style : PlaceholderStyle) :
    nestBy read [] [] (substitute f.params 0 (tokensOf (f.statement style).toList)) = some a := by
  have whole := hf.reads style [] [] [] [] []
  have text : (f.statement style).toList = f.chars style 1 := rfl
  rw [text]
  simpa [nestBy] using whole

end ReadsBy

/-! ### By the precedence of conditions -/

/-- Reading conditions is reading with parentheses of conditions. -/
theorem reads_iff {f : Fragment} {items : List Item} :
    f.Reads items ↔ f.ReadsBy readParenthesis items := by
  constructor
  · intro h
    refine ⟨h.lexical, h.balanced, h.placeholders, fun style before after outer inner rest => ?_⟩
    rw [← nest_eq_nestBy, ← nest_eq_nestBy]
    exact h.reads style before after outer inner rest
  · intro h
    refine ⟨h.lexical, h.balanced, h.placeholders, fun style before after outer inner rest => ?_⟩
    rw [nest_eq_nestBy, nest_eq_nestBy]
    exact h.reads style before after outer inner rest

namespace Reads

variable {f g : Fragment} {a b : List Item}

/-- A parameter reads as its value. -/
theorem ofParam (v : Value) : (ofParam v).Reads [.operand (.value v)] :=
  reads_iff.2 (.ofParam v)

/-- A column by its name alone reads as the column. -/
theorem ofColumn {name : String} (h : name ≠ "*") :
    (ofText (ColumnRef.text ⟨none, name⟩)).Reads [.operand (.column name)] :=
  reads_iff.2 (.ofColumn h)

/-- A word or mark between two fragments. -/
theorem middle (hf : f.Reads a) (hg : g.Reads b) {s : String} (hs : s ∈ middleTexts) {item : Item}
    (w : Wording s [item]) : ((f.pushText s).append g).Reads (a ++ [item] ++ b) :=
  reads_iff.2 ((reads_iff.1 hf).middle (reads_iff.1 hg) hs w)

/-- In parentheses a fragment reads as what it says for itself. -/
theorem parenthesized (hf : f.Reads a) {r : Reading} (read : readDisjunction a = some r) :
    (f.wrapped "(" ")").Reads [.operand r] :=
  reads_iff.2 ((reads_iff.1 hf).parenthesized (by decide) .parenthesis
    (by simp [readParenthesis, read]))

/-- A word before a fragment. -/
theorem leading (hf : f.Reads a) {s : String} (hs : s ∈ leadingTexts) {item : Item}
    (w : Wording s [item]) : ((ofText s).append f).Reads (item :: a) :=
  reads_iff.2 ((reads_iff.1 hf).leading hs w)

theorem empty_append (hf : f.Reads a) : (empty.append f).Reads a :=
  reads_iff.2 (reads_iff.1 hf).empty_append

/-- Fragments with a word or mark between them. -/
theorem join {s : String} (hs : s ∈ middleTexts) {item : Item} (w : Wording s [item])
    {rest : List Fragment} {items : List (List Item)} (hf : f.Reads a)
    (hr : List.Forall₂ Reads rest items) :
    (Fragment.join s (f :: rest)).Reads (a ++ items.flatMap fun b => item :: b) :=
  reads_iff.2 ((reads_iff.1 hf).join hs w (hr.imp fun _ _ => reads_iff.1))

end Reads

end Fragment

/-! ## Readings of connected operands -/

namespace Sql

/-- Operands with a connector between them. -/
def connected (connector : Item) (first : Reading) (rest : List Reading) : List Item :=
  .operand first :: rest.flatMap fun r => [connector, .operand r]

/-- Without a connector of the precedence everything is one segment. -/
theorem segments_of_forall {connectors : Connectors} {items : List Item}
    (h : ∀ item ∈ items, connectors item = none) : segments connectors items = (items, []) := by
  induction items with
  | nil => rfl
  | cons item rest ih =>
    rw [segments, h item (List.mem_cons_self ..), ih fun i hi => h i (List.mem_cons_of_mem _ hi)]

theorem chain_of_forall {connectors : Connectors} {items : List Item}
    (h : ∀ item ∈ items, connectors item = none) (next : List Item → Option Reading) :
    chain connectors next items = next items := by
  rw [chain, segments_of_forall h]
  cases next items <;> rfl

/-- Parts with a connector of the precedence between them associate to the left. -/
theorem chain_parts {connectors : Connectors} {next : List Item → Option Reading} {item : Item}
    {c : Connector} {first : List Item} {rest : List (List Item)} {r : Reading} {rs : List Reading}
    (connects : connectors item = some c)
    (plain : ∀ part ∈ first :: rest, ∀ item ∈ part, connectors item = none)
    (hf : next first = some r) (hr : List.Forall₂ (fun part r => next part = some r) rest rs) :
    chain connectors next (first ++ rest.flatMap fun part => item :: part)
      = some (rs.foldl (.binary c) r) := by
  -- the items up to the next connector are one segment
  have cut : ∀ (first : List Item) (rest : List (List Item)),
      (∀ part ∈ first :: rest, ∀ item ∈ part, connectors item = none) →
      segments connectors (first ++ rest.flatMap fun part => item :: part)
        = (first, rest.map fun part => (c, part)) := by
    intro first rest
    induction rest generalizing first with
    | nil =>
      intro plain
      rw [List.flatMap_nil, List.append_nil]
      exact segments_of_forall (plain first (List.mem_cons_self ..))
    | cons part rest ih =>
      intro plain
      obtain ⟨here, others⟩ := List.forall_mem_cons.1 plain
      induction first with
      | nil =>
        rw [List.nil_append, List.flatMap_cons, List.cons_append, segments, connects,
          ih part others]
        rfl
      | cons i first prefixed =>
        obtain ⟨none, here⟩ := List.forall_mem_cons.1 here
        rw [List.cons_append, segments, none,
          prefixed (List.forall_mem_cons.2 ⟨here, others⟩) here]
  have fold : ∀ start, (rest.map fun part => (c, part)).foldlM
      (fun left part => (next part.2).map (Reading.binary part.1 left)) start
        = some (rs.foldl (Reading.binary c) start) := by
    clear cut plain hf
    induction hr with
    | nil => intro start; rfl
    | cons read _ ih =>
      intro start
      rw [List.map_cons, List.foldlM_cons, read]
      exact ih _
  rw [chain, cut first rest plain]
  simp only [hf]
  exact fold r

/-- Operands with a connector of the precedence between them associate to the left. -/
theorem chain_connected {connectors : Connectors} {next : List Item → Option Reading} {item : Item}
    {c : Connector} (connects : connectors item = some c)
    (operand : ∀ r, connectors (.operand r) = none) (single : ∀ r, next [.operand r] = some r)
    (first : Reading) (rest : List Reading) :
    chain connectors next (connected item first rest) = some (rest.foldl (.binary c) first) := by
  have plain : ∀ part ∈ [Item.operand first] :: rest.map fun r => [.operand r],
      ∀ item ∈ part, connectors item = none :=
    List.forall_mem_cons.2 ⟨List.forall_mem_singleton.2 (operand first),
      List.forall_mem_map.2 fun r _ => List.forall_mem_singleton.2 (operand r)⟩
  have read : List.Forall₂ (fun part r => next part = some r)
      (rest.map fun r => [.operand r]) rest :=
    List.forall₂_map_left_iff.2 (List.forall₂_same.2 fun r _ => single r)
  have parts := chain_parts connects plain (single first) read
  rwa [List.flatMap_map] at parts

@[simp] theorem readConjunction_operand (r : Reading) : readConjunction [.operand r] = some r := rfl

@[simp] theorem readNegation_operand (r : Reading) : readNegation [.operand r] = some r := rfl

@[simp] theorem readDisjunction_operand (r : Reading) : readDisjunction [.operand r] = some r := rfl

/-- A word that connects conditions. -/
inductive Junction where
  | and
  | or

namespace Junction

/-- The word in a statement. -/
def word : Junction → String
  | and => "AND"
  | or => "OR"

/-- What the word is read as. -/
def connector : Junction → Connector
  | and => .and
  | or => .or

/-- What it says of two truths. -/
def combine : Junction → Bool → Bool → Bool
  | and => Bool.and
  | or => Bool.or

end Junction

/-- The word between two conditions. -/
theorem Wording.junction (j : Junction) : Wording (" " ++ j.word ++ " ") [.word j.word] := by
  cases j <;> exact ⟨fun _ _ => rfl, rfl, by decide⟩

theorem sign_mem_middleTexts (c : SqlScalar.Comparison) : " " ++ c.sign ++ " " ∈ middleTexts := by
  cases c <;> decide

/-- The sign between two operands. -/
theorem Wording.sign (c : SqlScalar.Comparison) :
    Wording (" " ++ c.sign ++ " ") [.mark c.sign] := by
  cases c <;> exact ⟨fun _ _ => rfl, rfl, by decide⟩

/-- The word before a condition. -/
theorem Wording.not : Wording "NOT " [.word "NOT"] :=
  ⟨fun _ _ => rfl, rfl, by decide⟩

/-- Operands with one word between them are what the word connects, from left to right. -/
theorem readDisjunction_connected (j : Junction) (first : Reading) (rest : List Reading) :
    readDisjunction (connected (.word j.word) first rest)
      = some (rest.foldl (.binary j.connector) first) := by
  cases j with
  | or => exact chain_connected rfl (fun _ => rfl) readConjunction_operand first rest
  | and =>
    -- no `OR` stands between them, so the whole is the one conjunction of the disjunction
    have none : ∀ item ∈ connected (.word "AND") first rest, Connectors.or item = none := by
      intro item hi
      rcases List.mem_cons.1 hi with rfl | hi
      · rfl
      · obtain ⟨r, -, hi⟩ := List.mem_flatMap.1 hi
        rcases List.mem_cons.1 hi with rfl | hi
        · rfl
        · rw [List.mem_singleton.1 hi]
          rfl
    rw [readDisjunction, Junction.word, chain_of_forall none]
    exact chain_connected rfl (fun _ => rfl) readNegation_operand first rest

theorem readDisjunction_compare (c : SqlScalar.Comparison) (left right : Reading) :
    readDisjunction [.operand left, .mark c.sign, .operand right]
      = some (.binary (.compare c) left right) := by
  cases c <;> rfl

/-- The items of a comparison. -/
def comparisonItems (c : SqlScalar.Comparison) (sides : Reading × Reading) : List Item :=
  [.operand sides.1, .mark c.sign, .operand sides.2]

/-- Comparisons with `AND` between them are their conjunction. -/
theorem readDisjunction_comparisons (c : SqlScalar.Comparison) (first : Reading × Reading)
    (rest : List (Reading × Reading)) :
    readDisjunction (comparisonItems c first
        ++ (rest.map (comparisonItems c)).flatMap fun part => .word "AND" :: part)
      = some ((rest.map fun sides => .binary (.compare c) sides.1 sides.2).foldl (.binary .and)
          (.binary (.compare c) first.1 first.2)) := by
  have noWord : ∀ part ∈ comparisonItems c first :: rest.map (comparisonItems c),
      ∀ item ∈ part, Connectors.or item = none ∧ Connectors.and item = none := by
    have plain : ∀ sides, ∀ item ∈ comparisonItems c sides,
        Connectors.or item = none ∧ Connectors.and item = none := fun sides item hi => by
      simp only [comparisonItems, List.mem_cons, List.not_mem_nil, or_false] at hi
      rcases hi with rfl | rfl | rfl <;> exact ⟨rfl, rfl⟩
    exact List.forall_mem_cons.2 ⟨plain first, List.forall_mem_map.2 fun sides _ => plain sides⟩
  have noOr : ∀ item ∈ comparisonItems c first
      ++ (rest.map (comparisonItems c)).flatMap fun part => .word "AND" :: part,
      Connectors.or item = none := by
    refine List.forall_mem_append.2 ⟨fun item hi => (noWord _ (List.mem_cons_self ..) item hi).1,
      List.forall_mem_flatMap.2 fun part hp => List.forall_mem_cons.2 ⟨rfl, fun item hi => ?_⟩⟩
    exact (noWord part (List.mem_cons_of_mem _ hp) item hi).1
  have read : ∀ sides, readNegation (comparisonItems c sides)
      = some (.binary (.compare c) sides.1 sides.2) := fun sides => by cases c <;> rfl
  rw [readDisjunction, chain_of_forall noOr]
  refine chain_parts rfl (fun part hp item hi => (noWord part hp item hi).2) (read first) ?_
  exact List.forall₂_map_left_iff.2 (List.forall₂_map_right_iff.2
    (List.forall₂_same.2 fun sides _ => read sides))

theorem readDisjunction_not (r : Reading) :
    readDisjunction [.word "NOT", .operand r] = some (.negation r) := rfl

/-- Connected conditions that are not unknown have the truth that the word gives their truths. -/
theorem truth?_foldl (j : Junction) {row : String → Value} {first : Reading} {b : Bool}
    {rest : List Reading} {bs : List Bool} (hf : first.truth? row = some (some b))
    (hr : List.Forall₂ (fun r b => Reading.truth? row r = some (some b)) rest bs) :
    (rest.foldl (.binary j.connector) first).truth? row
      = some (some (bs.foldl j.combine b)) := by
  -- the first condition grows by one of the others at a time
  induction hr generalizing first b with
  | nil => exact hf
  | @cons r c rest bs hc _ ih =>
    have both : (Reading.binary j.connector first r).truth? row
        = some (some (j.combine b c)) := by
      cases j <;> rw [Junction.connector, Reading.truth?, hf, hc] <;> cases b <;> cases c <;> rfl
    rw [List.foldl_cons, List.foldl_cons]
    exact ih both

end Sql

end QueryForms
