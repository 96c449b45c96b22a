import QueryForms.Proofs.Text.Like

/-!
# Patterns as regular expressions

What a regular expression means is said on its syntax tree (`Regex.Matches`), and the tree is read from
its text (`Regex.read?`): first its tokens, under the flags set so far, then each star with the token
before it. The text that a pattern becomes is read as a tree which holds the items of the pattern
between the two ends of the text (`Pattern.read?_regex`), so that it is found in the texts that match
the pattern and in no others (`like_iff`).
-/

namespace QueryForms.Text

/-- A regular expression. What flags change is settled where they apply. -/
inductive Regex where
  /-- Nothing. -/
  | empty
  /-- The start of the text. -/
  | start
  /-- The end of the text. -/
  | finish
  /-- One character, which may be a line feed or not. -/
  | point (lineFeed : Bool)
  /-- A given character, in either case or not. -/
  | literal (ignoreCase : Bool) (c : Char)
  /-- One after the other. -/
  | cat (first second : Regex)
  /-- Any number of times. -/
  | star (repeated : Regex)

namespace Regex

/-- A regular expression matches a part of a text, given what stands before and after it. -/
inductive Matches : Regex → List Char → List Char → List Char → Prop
  | empty (before after : List Char) : Matches .empty before [] after
  | start (after : List Char) : Matches .start [] [] after
  | finish (before : List Char) : Matches .finish before [] []
  | point {lineFeed : Bool} {c : Char} (allowed : c = '\n' → lineFeed = true)
    (before after : List Char) : Matches (.point lineFeed) before [c] after
  | literal {ignoreCase : Bool} {c d : Char} (agree : Agree ignoreCase c d)
    (before after : List Char) : Matches (.literal ignoreCase c) before [d] after
  | cat {first second : Regex} {before left right after : List Char}
    (leftMatches : Matches first before left (right ++ after))
    (rightMatches : Matches second (before ++ left) right after) :
    Matches (.cat first second) before (left ++ right) after
  | never {repeated : Regex} (before after : List Char) : Matches (.star repeated) before [] after
  | again {repeated : Regex} {before left right after : List Char}
    (leftMatches : Matches repeated before left (right ++ after))
    (rightMatches : Matches (.star repeated) (before ++ left) right after) :
    Matches (.star repeated) before (left ++ right) after

/-- A regular expression is found in a text if it matches a part of it. -/
def Found (re : Regex) (text : List Char) : Prop :=
  ∃ before part after, text = before ++ part ++ after ∧ re.Matches before part after

theorem matches_cat_iff {first second : Regex} {before part after : List Char} :
    (Regex.cat first second).Matches before part after ↔
      ∃ left right, part = left ++ right ∧ first.Matches before left (right ++ after) ∧
        second.Matches (before ++ left) right after := by
  constructor
  · intro h
    cases h with
    | cat leftMatches rightMatches => exact ⟨_, _, rfl, leftMatches, rightMatches⟩
  · rintro ⟨left, right, rfl, leftMatches, rightMatches⟩
    exact .cat leftMatches rightMatches

/-! ## Reading -/

/-- The flags that groups such as `(?i)` set for what follows. -/
structure Flags where
  /-- Whether a letter stands for the letter of the other case too. -/
  ignoreCase : Bool
  /-- Whether a point stands for a line feed too. -/
  lineFeed : Bool

/-- What a regular expression is read as before stars are put to what they repeat. -/
inductive Token where
  | one (re : Regex)
  | star

/-- The characters that do not stand for themselves. -/
def isSpecial (c : Char) : Bool :=
  ['\\', '.', '+', '*', '?', '(', ')', '|', '[', '\x7b', '^', '$'].contains c

/-- The characters that a backslash makes stand for themselves: of ASCII, all but letters, digits and
angle brackets. -/
def isEscapable (c : Char) : Bool :=
  c.toNat < 128 && !c.isAlphanum && c != '<' && c != '>'

/-- The token of a character. Groups, classes, alternatives and counted repetitions are not read. -/
def token? (flags : Flags) (c : Char) : Option Token :=
  if c = '^' then some (.one .start)
  else if c = '$' then some (.one .finish)
  else if c = '.' then some (.one (.point flags.lineFeed))
  else if c = '*' then some .star
  else if isSpecial c then none
  else some (.one (.literal flags.ignoreCase c))

/-- The tokens of a text. -/
def tokens? : Flags → List Char → Option (List Token)
  | _, [] => some []
  | flags, '(' :: '?' :: 'i' :: ')' :: cs => tokens? { flags with ignoreCase := true } cs
  | flags, '(' :: '?' :: 's' :: ')' :: cs => tokens? { flags with lineFeed := true } cs
  | flags, '\\' :: c :: cs =>
    if isEscapable c then (tokens? flags cs).map (.one (.literal flags.ignoreCase c) :: ·) else none
  | flags, c :: cs => (token? flags c).bind fun token => (tokens? flags cs).map (token :: ·)

/-- The tree of a list of tokens. A star repeats the token before it. -/
def tree? : List Token → Option Regex
  | [] => some .empty
  | .one re :: .star :: tokens => (tree? tokens).map (.cat (.star re))
  | .one re :: tokens => (tree? tokens).map (.cat re)
  | .star :: _ => none

/-- The regular expression that a text is, if it is written in what is read here. -/
def read? (text : String) : Option Regex :=
  (tokens? ⟨false, false⟩ text.toList).bind tree?

end Regex

open Regex

namespace Pattern

/-- The tokens of an item. -/
def itemTokens (ignoreCase : Bool) : PatternItem → List Token
  | .any => [.one (.point true), .star]
  | .one => [.one (.point true)]
  | .exactly c => [.one (.literal ignoreCase c)]

/-- The regular expression of the items up to the end of the text. -/
def tree (ignoreCase : Bool) : List PatternItem → Regex
  | [] => .cat .finish .empty
  | .any :: items => .cat (.star (.point true)) (tree ignoreCase items)
  | .one :: items => .cat (.point true) (tree ignoreCase items)
  | .exactly c :: items => .cat (.literal ignoreCase c) (tree ignoreCase items)

theorem isEscapable_of_isMeta {c : Char} (h : isMeta c = true) : isEscapable c = true := by
  rw [isMeta, List.contains_iff_mem] at h
  exact List.all_eq_true.1 (by decide) c h

theorem isMeta_of_isSpecial {c : Char} (h : isSpecial c = true) : isMeta c = true := by
  rw [isSpecial, List.contains_iff_mem] at h
  exact List.all_eq_true.1 (by decide) c h

theorem tokens?_cons (flags : Flags) {c : Char} (group : c ≠ '(') (escape : c ≠ '\\')
    (cs : List Char) : tokens? flags (c :: cs)
      = (token? flags c).bind fun token => (tokens? flags cs).map (token :: ·) := by
  rw [tokens?]
  · exact fun _ start _ => group start
  · exact fun _ start _ => group start
  · exact fun _ _ start _ => escape start

/-- A character is escaped where it would not stand for itself. -/
theorem tokens?_escape (flags : Flags) (c : Char) (cs : List Char) :
    tokens? flags (escape c ++ cs)
      = (tokens? flags cs).map (.one (.literal flags.ignoreCase c) :: ·) := by
  by_cases special : isMeta c = true
  · rw [escape, if_pos special]
    exact if_pos (isEscapable_of_isMeta special)
  · have plain := mt isMeta_of_isSpecial special
    have unlike : ∀ d, isSpecial d = true → c ≠ d := fun d h same => plain (same ▸ h)
    have token : token? flags c = some (.one (.literal flags.ignoreCase c)) := by
      rw [token?, if_neg (unlike _ rfl), if_neg (unlike _ rfl), if_neg (unlike _ rfl),
        if_neg (unlike _ rfl), if_neg plain]
    rw [escape, if_neg special]
    refine (tokens?_cons flags (unlike _ rfl) (unlike _ rfl) cs).trans ?_
    rw [token, Option.bind_some]

theorem tokens?_items (ignoreCase : Bool) (items : List PatternItem) :
    tokens? ⟨ignoreCase, true⟩ (items.flatMap itemRegex ++ ['$'])
      = some (items.flatMap (itemTokens ignoreCase) ++ [.one .finish]) := by
  induction items with
  | nil => rfl
  | cons item items ih =>
    rw [List.flatMap_cons, List.flatMap_cons, List.append_assoc, List.append_assoc]
    cases item with
    | any =>
      have step : tokens? ⟨ignoreCase, true⟩ ('.' :: '*' :: (items.flatMap itemRegex ++ ['$']))
          = (tokens? ⟨ignoreCase, true⟩ (items.flatMap itemRegex ++ ['$'])).map
            ([.one (.point true), .star] ++ ·) := by
        rw [tokens?_cons _ (by decide) (by decide), tokens?_cons _ (by decide) (by decide)]
        cases tokens? ⟨ignoreCase, true⟩ (items.flatMap itemRegex ++ ['$']) <;> rfl
      exact step.trans (congrArg _ ih)
    | one => exact (tokens?_cons _ (by decide) (by decide) _).trans (congrArg (Option.map _) ih)
    | exactly c => exact (tokens?_escape _ c _).trans (congrArg (Option.map _) ih)

/-- No star stands before the first token of an item or of the end. -/
theorem tree?_one (ignoreCase : Bool) (re : Regex) (items : List PatternItem) :
    tree? (.one re :: (items.flatMap (itemTokens ignoreCase) ++ [.one .finish]))
      = (tree? (items.flatMap (itemTokens ignoreCase) ++ [.one .finish])).map (.cat re) := by
  cases items with
  | nil => rfl
  | cons item items => cases item <;> rfl

theorem tree?_items (ignoreCase : Bool) (items : List PatternItem) :
    tree? (items.flatMap (itemTokens ignoreCase) ++ [.one .finish])
      = some (tree ignoreCase items) := by
  induction items with
  | nil => rfl
  | cons item items ih =>
    rw [List.flatMap_cons, List.append_assoc]
    cases item with
    | any => exact congrArg (Option.map _) ih
    | one => exact (tree?_one ignoreCase _ items).trans (congrArg (Option.map _) ih)
    | exactly c => exact (tree?_one ignoreCase _ items).trans (congrArg (Option.map _) ih)

/-- What a pattern becomes is read as its items between the start and the end of the text. -/
theorem read?_regex (pattern : String) (ignoreCase : Bool) :
    read? (regex pattern ignoreCase)
      = some (.cat .start (tree ignoreCase (parse pattern.toList))) := by
  have chars : (regex pattern ignoreCase).toList
      = (if ignoreCase then ['(', '?', 'i', ')'] else []) ++ ['(', '?', 's', ')', '^']
        ++ ((parse pattern.toList).flatMap itemRegex ++ ['$']) := by
    cases ignoreCase <;> simp [regex]
  have tokens : tokens? ⟨false, false⟩ (regex pattern ignoreCase).toList
      = some (.one .start ::
        ((parse pattern.toList).flatMap (itemTokens ignoreCase) ++ [.one .finish])) := by
    rw [chars]
    have items := tokens?_items ignoreCase (parse pattern.toList)
    cases ignoreCase with
    | false => exact congrArg (Option.map (.one .start :: ·)) items
    | true => exact congrArg (Option.map (.one .start :: ·)) items
  rw [read?, tokens, Option.bind_some, tree?_one, tree?_items, Option.map_some]

/-! ## Meaning -/

/-- Points that may be line feeds match any characters. -/
theorem matches_points (before part after : List Char) :
    (Regex.star (.point true)).Matches before part after := by
  induction part generalizing before with
  | nil => exact .never before after
  | cons c part ih =>
    exact .again (.point (fun _ => rfl) before (part ++ after)) (ih (before ++ [c]))

/-- The tree of the items matches what they describe, up to the end of the text. -/
theorem matches_tree_iff {ignoreCase : Bool} {items : List PatternItem}
    {before part after : List Char} :
    (tree ignoreCase items).Matches before part after ↔
      after = [] ∧ Describes (Agree ignoreCase) items part := by
  induction items generalizing before part with
  | nil =>
    rw [tree, matches_cat_iff, describes_nil_iff]
    constructor
    · rintro ⟨left, right, rfl, first, rest⟩
      cases rest
      cases first
      exact ⟨rfl, rfl⟩
    · rintro ⟨rfl, rfl⟩
      exact ⟨[], [], rfl, .finish _, .empty _ _⟩
  | cons item items ih =>
    cases item with
    | any =>
      rw [tree, matches_cat_iff, describes_any_iff]
      constructor
      · rintro ⟨left, right, rfl, -, rest⟩
        exact ⟨(ih.1 rest).1, left, right, rfl, (ih.1 rest).2⟩
      · rintro ⟨rfl, left, right, rfl, rest⟩
        exact ⟨left, right, rfl, matches_points _ _ _, ih.2 ⟨rfl, rest⟩⟩
    | one =>
      rw [tree, matches_cat_iff, describes_one_iff]
      constructor
      · rintro ⟨_, right, rfl, ⟨-⟩, rest⟩
        exact ⟨(ih.1 rest).1, _, right, rfl, (ih.1 rest).2⟩
      · rintro ⟨rfl, c, right, rfl, rest⟩
        exact ⟨[c], right, rfl, .point (fun _ => rfl) _ _, ih.2 ⟨rfl, rest⟩⟩
    | exactly c =>
      rw [tree, matches_cat_iff, describes_exactly_iff]
      constructor
      · rintro ⟨_, right, rfl, first, rest⟩
        cases first with
        | literal agree => exact ⟨(ih.1 rest).1, _, right, rfl, agree, (ih.1 rest).2⟩
      · rintro ⟨rfl, d, right, rfl, agree, rest⟩
        exact ⟨[d], right, rfl, .literal agree _ _, ih.2 ⟨rfl, rest⟩⟩

theorem found_iff {ignoreCase : Bool} {items : List PatternItem} {text : List Char} :
    (Regex.cat .start (tree ignoreCase items)).Found text ↔
      Describes (Agree ignoreCase) items text := by
  constructor
  · rintro ⟨before, part, after, rfl, whole⟩
    obtain ⟨left, right, rfl, first, rest⟩ := matches_cat_iff.1 whole
    obtain ⟨rfl, described⟩ := matches_tree_iff.1 rest
    cases first
    rwa [List.append_nil]
  · intro described
    exact ⟨[], text, [], (List.append_nil text).symm,
      matches_cat_iff.2 ⟨[], text, rfl, .start _, matches_tree_iff.2 ⟨rfl, described⟩⟩⟩

end Pattern

/-- A text matches a pattern if it can be split to fit it item by item, and whether case counts or not,
if the regular expression that the pattern becomes is found in it. What matches with case counting
matches without. -/
theorem like_iff (text pattern : String) :
    (like text pattern false = true ↔ Pattern.Fits (· = ·) pattern.toList text.toList) ∧
    (∀ ignoreCase, ∃ re, Regex.read? (Pattern.regex pattern ignoreCase) = some re ∧
      (like text pattern ignoreCase = true ↔ re.Found text.toList)) ∧
    (like text pattern false = true → like text pattern true = true) := by
  have equal : Agree false = (· = ·) := by
    funext c d
    exact propext beq_iff_eq
  refine ⟨equal ▸ like_iff_fits, fun ignoreCase => ?_, fun matched => ?_⟩
  · exact ⟨_, Pattern.read?_regex pattern ignoreCase, like_iff_describes.trans Pattern.found_iff.symm⟩
  · have fits := like_iff_fits.1 matched
    rw [equal] at fits
    exact like_iff_fits.2 (fits.mono fun c d same => same ▸ sameLetter_self c)

end QueryForms.Text
