import QueryForms.Text.Like

/-!
# Texts that fit a pattern

What it means that a text fits a pattern is said on the characters of both (`Pattern.Fits`). The match
goes through the text from its end and keeps a row with an entry for every end of the pattern's items
(`Pattern.IsRow`): one character makes the next row of the row before (`Pattern.IsRow.charRow`), and so
the head of the last row says whether the text fits (`Pattern.accepts_iff`).
-/

namespace QueryForms.Text

namespace Pattern

/-- A text can be split so that it fits a pattern item by item; `same` is what a character of the
pattern that stands for itself needs of the character of the text. -/
inductive Fits (same : Char → Char → Prop) : List Char → List Char → Prop
  | nil : Fits same [] []
  | percent {pattern text : List Char} (part : List Char) (rest : Fits same pattern text) :
    Fits same ('%' :: pattern) (part ++ text)
  | underscore {pattern text : List Char} (c : Char) (rest : Fits same pattern text) :
    Fits same ('_' :: pattern) (c :: text)
  | escaped {pattern text : List Char} {c d : Char} (equal : same c d)
    (rest : Fits same pattern text) : Fits same ('\\' :: c :: pattern) (d :: text)
  | backslash : Fits same ['\\'] []
  | plain {pattern text : List Char} {c d : Char} (literal : c ≠ '%' ∧ c ≠ '_' ∧ c ≠ '\\')
    (equal : same c d) (rest : Fits same pattern text) : Fits same (c :: pattern) (d :: text)

theorem Fits.mono {r s : Char → Char → Prop} (imp : ∀ c d, r c d → s c d) {pattern text : List Char}
    (h : Fits r pattern text) : Fits s pattern text := by
  induction h with
  | nil => exact .nil
  | percent part _ ih => exact .percent part ih
  | underscore c _ ih => exact .underscore c ih
  | escaped equal _ ih => exact .escaped (imp _ _ equal) ih
  | backslash => exact .backslash
  | plain literal equal _ ih => exact .plain literal (imp _ _ equal) ih

/-! ## Items -/

/-- A text can be split so that it fits a list of items. -/
inductive Describes (same : Char → Char → Prop) : List PatternItem → List Char → Prop
  | nil : Describes same [] []
  | any {items : List PatternItem} {text : List Char} (part : List Char)
    (rest : Describes same items text) : Describes same (.any :: items) (part ++ text)
  | one {items : List PatternItem} {text : List Char} (c : Char) (rest : Describes same items text) :
    Describes same (.one :: items) (c :: text)
  | exactly {items : List PatternItem} {text : List Char} {c d : Char} (equal : same c d)
    (rest : Describes same items text) : Describes same (.exactly c :: items) (d :: text)

variable {same : Char → Char → Prop} {items : List PatternItem} {text : List Char} {c d : Char}

theorem describes_nil_iff : Describes same [] text ↔ text = [] := by
  constructor
  · rintro ⟨⟩
    rfl
  · rintro rfl
    exact .nil

theorem describes_any_iff :
    Describes same (.any :: items) text ↔
      ∃ part rest, text = part ++ rest ∧ Describes same items rest := by
  constructor
  · rintro (_ | ⟨part, rest⟩)
    exact ⟨part, _, rfl, rest⟩
  · rintro ⟨part, rest, rfl, h⟩
    exact .any part h

theorem describes_one_iff :
    Describes same (.one :: items) text ↔
      ∃ c rest, text = c :: rest ∧ Describes same items rest := by
  constructor
  · rintro (_ | _ | ⟨c, rest⟩)
    exact ⟨c, _, rfl, rest⟩
  · rintro ⟨c, rest, rfl, h⟩
    exact .one c h

theorem describes_exactly_iff :
    Describes same (.exactly c :: items) text ↔
      ∃ d rest, text = d :: rest ∧ same c d ∧ Describes same items rest := by
  constructor
  · rintro (_ | _ | _ | ⟨equal, rest⟩)
    exact ⟨_, _, rfl, equal, rest⟩
  · rintro ⟨d, rest, rfl, equal, h⟩
    exact .exactly equal h

/-- Any characters are none, or one and then any characters. -/
theorem describes_any_cons_iff :
    Describes same (.any :: items) (c :: text) ↔
      Describes same items (c :: text) ∨ Describes same (.any :: items) text := by
  rw [describes_any_iff, describes_any_iff]
  constructor
  · rintro ⟨_ | ⟨_, part⟩, rest, split, h⟩
    · exact .inl (split ▸ h)
    · cases split
      exact .inr ⟨part, rest, rfl, h⟩
  · rintro (h | ⟨part, rest, rfl, h⟩)
    · exact ⟨[], _, rfl, h⟩
    · exact ⟨c :: part, rest, rfl, h⟩

theorem parse_plain (literal : c ≠ '%' ∧ c ≠ '_' ∧ c ≠ '\\') (pattern : List Char) :
    parse (c :: pattern) = .exactly c :: parse pattern := by
  rw [parse]
  · exact literal.1
  · exact literal.2.1
  · exact fun _ _ backslash => absurd backslash literal.2.2
  · exact fun backslash => absurd backslash literal.2.2

/-- The items of a pattern describe the texts that fit it. -/
theorem describes_parse_iff (pattern : List Char) :
    Describes same (parse pattern) text ↔ Fits same pattern text := by
  constructor
  · intro h
    induction pattern using parse.induct generalizing text with
    | case1 =>
      rw [parse, describes_nil_iff] at h
      subst h
      exact .nil
    | case2 pattern ih =>
      rw [parse, describes_any_iff] at h
      obtain ⟨part, rest, rfl, h⟩ := h
      exact .percent part (ih h)
    | case3 pattern ih =>
      rw [parse, describes_one_iff] at h
      obtain ⟨c, rest, rfl, h⟩ := h
      exact .underscore c (ih h)
    | case4 c pattern ih =>
      rw [parse, describes_exactly_iff] at h
      obtain ⟨d, rest, rfl, equal, h⟩ := h
      exact .escaped equal (ih h)
    | case5 =>
      rw [parse, describes_nil_iff] at h
      subst h
      exact .backslash
    | case6 c pattern percent underscore escape last ih =>
      have literal : c ≠ '%' ∧ c ≠ '_' ∧ c ≠ '\\' := by
        refine ⟨percent, underscore, fun backslash => ?_⟩
        cases pattern with
        | nil => exact last backslash rfl
        | cons d pattern => exact escape d pattern backslash rfl
      rw [parse_plain literal, describes_exactly_iff] at h
      obtain ⟨d, rest, rfl, equal, h⟩ := h
      exact .plain literal equal (ih h)
  · intro h
    induction h with
    | nil => exact .nil
    | percent part _ ih => exact .any part ih
    | underscore c _ ih => exact .one c ih
    | escaped equal _ ih => exact .exactly equal ih
    | backslash => exact .nil
    | plain literal equal _ ih => exact parse_plain literal _ ▸ .exactly equal ih

/-! ## Rows -/

/-- A row has an entry for every end of the items, which says whether the end describes the text. -/
inductive IsRow (same : Char → Char → Prop) (text : List Char) : List PatternItem → List Bool → Prop
  | nil {found : Bool} (head : found = true ↔ Describes same [] text) : IsRow same text [] [found]
  | cons {item : PatternItem} {items : List PatternItem} {found : Bool} {row : List Bool}
    (head : found = true ↔ Describes same (item :: items) text) (rest : IsRow same text items row) :
    IsRow same text (item :: items) (found :: row)

theorem IsRow.headD {row : List Bool} (h : IsRow same text items row) :
    row.headD false = true ↔ Describes same items text := by
  cases h with
  | nil head => exact head
  | cons head _ => exact head

theorem isRow_endRow (items : List PatternItem) : IsRow same [] items (endRow items) := by
  induction items with
  | nil => exact .nil (iff_of_true rfl .nil)
  | cons item items ih =>
    refine .cons ?_ ih
    rw [Bool.and_eq_true, ih.headD, beq_iff_eq]
    constructor
    · rintro ⟨rfl, h⟩
      exact .any [] h
    · intro h
      cases item with
      | any =>
        obtain ⟨part, rest, split, h⟩ := describes_any_iff.1 h
        obtain ⟨rfl, rfl⟩ := List.append_eq_nil_iff.1 split.symm
        exact ⟨rfl, h⟩
      | one => cases h
      | exactly c => cases h

variable {test : Char → Char → Bool}

/-- The row of a text with one more character in front. -/
theorem IsRow.charRow {row : List Bool} (h : IsRow (test · ·) text items row) (c : Char) :
    IsRow (test · ·) (c :: text) items (charRow test c items row) := by
  induction h with
  | nil head => exact .nil (iff_of_false nofun nofun)
  | @cons item items found row head rest ih =>
    refine .cons ?_ ih
    cases item with
    | any => rw [Bool.or_eq_true, ih.headD, head, describes_any_cons_iff]
    | one =>
      rw [rest.headD, describes_one_iff]
      constructor
      · exact fun h => ⟨c, _, rfl, h⟩
      · rintro ⟨_, _, ⟨⟩, h⟩
        exact h
    | exactly d =>
      rw [Bool.and_eq_true, rest.headD, describes_exactly_iff]
      constructor
      · exact fun h => ⟨c, _, rfl, h⟩
      · rintro ⟨_, _, ⟨⟩, h⟩
        exact h

/-- The match decides whether the items describe the whole text. -/
theorem accepts_iff : accepts test items text = true ↔ Describes (test · ·) items text := by
  refine IsRow.headD ?_
  induction text with
  | nil => exact isRow_endRow items
  | cons c text ih => exact ih.charRow c

end Pattern

open Pattern

/-- A character that stands for itself and one of a text are equal, or one letter up to case. -/
def Agree (ignoreCase : Bool) (c d : Char) : Prop :=
  (if ignoreCase then sameLetter c d else c == d) = true

theorem like_iff_describes {text pattern : String} {ignoreCase : Bool} :
    like text pattern ignoreCase = true ↔
      Describes (Agree ignoreCase) (parse pattern.toList) text.toList := by
  cases ignoreCase <;> exact accepts_iff

/-- A text matches if it fits the pattern, case counting or not. -/
theorem like_iff_fits {text pattern : String} {ignoreCase : Bool} :
    like text pattern ignoreCase = true ↔ Fits (Agree ignoreCase) pattern.toList text.toList :=
  like_iff_describes.trans (describes_parse_iff _)

end QueryForms.Text
