import Mathlib.Data.Set.List
import QueryForms.Proofs.Sql.Reading

/-!
# Where precedence parts a text

What a level of precedence has read tells where its connectors stood. `chain_cases`: either no
connector of the level is there and the next level read it all, or the outermost connector is one of
the level. So what is read as arithmetic holds nothing but operands and arithmetic signs
(`isTight_of_readSum`), and what is read as a comparison of two operands holds one sign between two
such texts (`readComparison_cons`).

A minus sign with no operand before it takes the operand after it from zero (`leadSign`). With it,
a parenthesis is read for itself (`group`), and one that cannot be read is no operand.
-/

namespace QueryForms.Sql

/-! ## Segments -/

section Segments

variable {connectors : Connectors} {items a b : List Item}

/-- Where there is one segment only, it is everything. -/
theorem segments_eq_of_nil (h : (segments connectors items).2 = []) :
    (segments connectors items).1 = items ∧ ∀ item ∈ items, connectors item = none := by
  induction items with
  | nil => exact ⟨rfl, fun _ hi => absurd hi List.not_mem_nil⟩
  | cons item rest ih =>
    rw [segments] at h ⊢
    cases connects : connectors item with
    | some c => simp [connects] at h
    | none =>
      simp only [connects] at h ⊢
      exact ⟨by rw [(ih h).1], List.forall_mem_cons.2 ⟨connects, (ih h).2⟩⟩

/-- A connector parts the segments before it from those after it. -/
theorem segments_append_cons {x : Item} {c : Connector} (connects : connectors x = some c) :
    segments connectors (a ++ x :: b) = ((segments connectors a).1,
      (segments connectors a).2 ++ (c, (segments connectors b).1) :: (segments connectors b).2) := by
  induction a with
  | nil => simp [segments, connects]
  | cons item rest ih =>
    rw [List.cons_append, segments, segments, ih]
    cases connectors item <;> rfl

/-- Every item is a connector or stands in a segment. -/
theorem mem_segments {item : Item} (h : item ∈ items) :
    (∃ c, connectors item = some c) ∨ item ∈ (segments connectors items).1 ∨
      ∃ part ∈ (segments connectors items).2, item ∈ part.2 := by
  induction items with
  | nil => exact absurd h List.not_mem_nil
  | cons first rest ih =>
    rw [segments]
    rcases List.mem_cons.1 h with rfl | h
    · cases connects : connectors item with
      | some c => exact .inl ⟨c, rfl⟩
      | none => exact .inr (.inl (List.mem_cons_self ..))
    · rcases ih h with known | start | ⟨part, hp, inside⟩
      · exact .inl known
      · cases connectors first with
        | some c => exact .inr (.inr ⟨_, List.mem_cons_self .., start⟩)
        | none => exact .inr (.inl (List.mem_cons_of_mem _ start))
      · cases connectors first with
        | some c => exact .inr (.inr ⟨part, List.mem_cons_of_mem _ hp, inside⟩)
        | none => exact .inr (.inr ⟨part, hp, inside⟩)

/-- What parts the segments are connectors. -/
theorem exists_of_mem_segments {part : Connector × List Item}
    (h : part ∈ (segments connectors items).2) : ∃ item, connectors item = some part.1 := by
  induction items with
  | nil => exact absurd h List.not_mem_nil
  | cons item rest ih =>
    rw [segments] at h
    cases connects : connectors item with
    | none => exact ih (by simpa [connects] using h)
    | some c =>
      simp only [connects] at h
      rcases List.mem_cons.1 h with rfl | h
      · exact ⟨item, connects⟩
      · exact ih h

end Segments

/-! ## Chains -/

section Chains

variable {connectors : Connectors} {next : List Item → Option Reading} {items : List Item}
  {r : Reading}

/-- Operands that were read one after the other: each was read, and the last connector is
outermost. -/
theorem foldlM_binary_cases {parts : List (Connector × List Item)} {start : Reading}
    (h : parts.foldlM (fun left part => (next part.2).map (.binary part.1 left)) start = some r) :
    (∀ part ∈ parts, ∃ x, next part.2 = some x) ∧
      (parts = [] ∧ r = start ∨ ∃ part ∈ parts, ∃ x y, r = .binary part.1 x y) := by
  induction parts generalizing start with
  | nil => exact ⟨by simp, .inl ⟨rfl, (Option.some.inj h).symm⟩⟩
  | cons part rest ih =>
    rw [List.foldlM_cons] at h
    obtain ⟨left, read, h⟩ := Option.bind_eq_some_iff.1 h
    obtain ⟨x, hx, rfl⟩ := Option.map_eq_some_iff.1 read
    obtain ⟨all, outermost⟩ := ih h
    refine ⟨List.forall_mem_cons.2 ⟨⟨x, hx⟩, all⟩, .inr ?_⟩
    rcases outermost with ⟨-, rfl⟩ | ⟨other, ho, x, y, rfl⟩
    · exact ⟨part, List.mem_cons_self .., _, _, rfl⟩
    · exact ⟨other, List.mem_cons_of_mem _ ho, x, y, rfl⟩

/-- What a chain reads begins with a connector of its own, or has none of them and is read by the
next level. -/
theorem chain_cases (h : chain connectors next items = some r) :
    (next items = some r ∧ ∀ item ∈ items, connectors item = none) ∨
      ∃ item c x y, connectors item = some c ∧ r = .binary c x y := by
  obtain ⟨start, hs, h⟩ := Option.bind_eq_some_iff.1 h
  rcases (foldlM_binary_cases h).2 with ⟨whole, rfl⟩ | ⟨part, hp, x, y, rfl⟩
  · obtain ⟨all, none⟩ := segments_eq_of_nil whole
    exact .inl ⟨all ▸ hs, none⟩
  · obtain ⟨item, connects⟩ := exists_of_mem_segments hp
    exact .inr ⟨item, part.1, x, y, connects, rfl⟩

/-- What a chain reads consists of its connectors and of what the next level reads. -/
theorem forall_of_chain {P : Item → Prop} (h : chain connectors next items = some r)
    (connector : ∀ item c, connectors item = some c → P item)
    (inside : ∀ part x, next part = some x → ∀ item ∈ part, P item) : ∀ item ∈ items, P item := by
  intro item hi
  obtain ⟨start, hs, h⟩ := Option.bind_eq_some_iff.1 h
  rcases mem_segments hi with ⟨c, connects⟩ | hi | ⟨part, hp, hi⟩
  · exact connector item c connects
  · exact inside _ start hs item hi
  · obtain ⟨x, hx⟩ := (foldlM_binary_cases h).1 part hp
    exact inside _ x hx item hi

end Chains

/-! ## The levels of precedence -/

/-- An operand or an arithmetic sign: what a comparison may stand beside. -/
def Item.isTight (item : Item) : Bool :=
  match item with
  | .operand _ => true
  | item => (Connectors.sum item).isSome || (Connectors.product item).isSome

theorem Item.isTight_of_sum {item : Item} {c : Connector} (h : Connectors.sum item = some c) :
    item.isTight = true := by
  cases item <;> simp_all [isTight, Connectors.sum]

theorem Item.isTight_of_product {item : Item} {c : Connector}
    (h : Connectors.product item = some c) : item.isTight = true := by
  cases item <;> simp_all [isTight, Connectors.product]

/-- A sign of comparison is not tight. -/
theorem Item.not_isTight_sign (c : SqlScalar.Comparison) : (mark c.sign).isTight = false := by
  cases c <;> rfl

variable {items : List Item} {r : Reading}

/-- What is read as arithmetic consists of operands and arithmetic signs. -/
theorem isTight_of_readSum (h : readSum items = some r) : ∀ item ∈ items, item.isTight = true := by
  refine forall_of_chain h (fun _ _ => Item.isTight_of_sum) fun part x hx => ?_
  refine forall_of_chain hx (fun _ _ => Item.isTight_of_product) fun part x hx item hi => ?_
  rw [readOperand.eq_def] at hx
  split at hx
  · rw [List.mem_singleton.1 hi]
    rfl
  · exact nomatch hx

/-- Tight items are arithmetic. -/
theorem readDisjunction_of_isTight (h : ∀ item ∈ items, item.isTight = true) :
    readDisjunction items = readSum items := by
  have connects : ∀ item : Item, item.isTight = true → Connectors.or item = none ∧
      Connectors.and item = none ∧ Connectors.comparison item = none := by
    intro item tight
    rw [Item.isTight.eq_def] at tight
    cases item with
    | operand r => exact ⟨rfl, rfl, rfl⟩
    | word w => exact nomatch tight
    | other => exact nomatch tight
    | mark s =>
      refine ⟨rfl, rfl, ?_⟩
      rw [Connectors.comparison.eq_def]
      split <;> simp_all [Connectors.sum, Connectors.product]
  have negation : readNegation items = readComparison items := by
    rw [readNegation.eq_def]
    split
    · exact nomatch h _ (List.mem_cons_self ..)
    · rfl
  rw [readDisjunction, chain_of_forall fun item hi => (connects item (h item hi)).1, readConjunction,
    chain_of_forall fun item hi => (connects item (h item hi)).2.1, negation, readComparison,
    segments_of_forall fun item hi => (connects item (h item hi)).2.2]

/-- What is read as something other than a connection of conditions is a comparison of its own. -/
theorem readComparison_of_readDisjunction {c : Connector} {x y : Reading} (or : c ≠ .or)
    (and : c ≠ .and) (h : readDisjunction items = some (.binary c x y)) :
    readComparison items = some (.binary c x y) := by
  rcases chain_cases h with ⟨h, -⟩ | ⟨item, d, _, _, connects, eq⟩
  · rcases chain_cases h with ⟨h, -⟩ | ⟨item, d, _, _, connects, eq⟩
    · rw [readNegation.eq_def] at h
      split at h
      · obtain ⟨_, -, eq⟩ := Option.map_eq_some_iff.1 h
        exact nomatch eq
      · exact h
    · obtain ⟨rfl, -, -⟩ := Reading.binary.inj eq
      rw [Connectors.and.eq_def] at connects
      split at connects
      · exact absurd (Option.some.inj connects).symm and
      · exact nomatch connects
  · obtain ⟨rfl, -, -⟩ := Reading.binary.inj eq
    rw [Connectors.or.eq_def] at connects
    split at connects
    · exact absurd (Option.some.inj connects).symm or
    · exact nomatch connects

theorem comparison_sign (c : SqlScalar.Comparison) :
    Connectors.comparison (.mark c.sign) = some (.compare c) := by
  cases c <;> rfl

/-- Around a sign of comparison two sums are read. -/
theorem readComparison_cons {c : SqlScalar.Comparison} {a b : List Item}
    (h : readComparison (a ++ .mark c.sign :: b) = some r) :
    ∃ x y, readSum a = some x ∧ readSum b = some y ∧ r = .binary (.compare c) x y := by
  rw [readComparison, segments_append_cons (comparison_sign c)] at h
  -- two signs would be too many, so neither side has one
  cases left : (segments .comparison a).2 with
  | cons part rest => cases rest <;> simp [left] at h
  | nil =>
    cases right : (segments .comparison b).2 with
    | cons part rest => simp [left, right] at h
    | nil =>
      rw [left, right, (segments_eq_of_nil left).1, (segments_eq_of_nil right).1] at h
      obtain ⟨x, hx, h⟩ := Option.bind_eq_some_iff.1 h
      obtain ⟨y, hy, h⟩ := Option.bind_eq_some_iff.1 h
      exact ⟨x, y, hx, hy, (Option.some.inj h).symm⟩

/-- What is read as arithmetic on the whole is a sum. -/
theorem readSum_of_readDisjunction {op : ArithmeticOp} {x y : Reading}
    (h : readDisjunction items = some (.binary (.arithmetic op) x y)) :
    readSum items = some (.binary (.arithmetic op) x y) := by
  have h := readComparison_of_readDisjunction (by simp) (by simp) h
  rw [readComparison.eq_def] at h
  split at h
  · next only whole =>
    have all := (segments_eq_of_nil (congrArg Prod.snd whole)).1
    rw [whole] at all
    exact all ▸ h
  · next left c right parts =>
    obtain ⟨_, -, h⟩ := Option.bind_eq_some_iff.1 h
    obtain ⟨_, -, h⟩ := Option.bind_eq_some_iff.1 h
    obtain ⟨rfl, -, -⟩ := Reading.binary.inj (Option.some.inj h)
    have outermost : (Connector.arithmetic op, right) ∈ (segments .comparison items).2 := by
      rw [parts]
      exact List.mem_singleton.2 rfl
    obtain ⟨item, connects⟩ := exists_of_mem_segments outermost
    rw [Connectors.comparison.eq_def] at connects
    split at connects <;> exact nomatch connects
  · exact nomatch h

/-- Nothing that cannot be read stands in what was read. -/
theorem not_other_of_readDisjunction (h : readDisjunction items = some r) : Item.other ∉ items := by
  have sum : ∀ part x, readSum part = some x → ∀ item ∈ part, item ≠ .other := by
    rintro part x hx item hi rfl
    exact nomatch isTight_of_readSum hx _ hi
  have comparison : ∀ part x, readComparison part = some x → ∀ item ∈ part, item ≠ .other := by
    intro part x hx item hi
    rw [readComparison.eq_def] at hx
    rcases @mem_segments .comparison part item hi with ⟨c, connects⟩ | inside
    · rintro rfl
      exact nomatch connects
    · split at hx
      · next only whole =>
        rw [whole] at inside
        exact inside.elim (sum _ x hx item) (by simp)
      · next left c right parts =>
        rw [parts] at inside
        obtain ⟨y, hy, hx⟩ := Option.bind_eq_some_iff.1 hx
        obtain ⟨z, hz, -⟩ := Option.bind_eq_some_iff.1 hx
        refine inside.elim (sum _ y hy item) fun ⟨part, hp, inside⟩ => ?_
        rw [List.mem_singleton.1 hp] at inside
        exact sum _ z hz item inside
      · exact nomatch hx
  have negation : ∀ part x, readNegation part = some x → ∀ item ∈ part, item ≠ .other := by
    intro part
    induction part with
    | nil => simp
    | cons first rest ih =>
      intro x hx
      rw [readNegation.eq_def] at hx
      split at hx
      · next rest' eq =>
        obtain ⟨rfl, rfl⟩ := List.cons.inj eq
        obtain ⟨y, hy, -⟩ := Option.map_eq_some_iff.1 hx
        exact List.forall_mem_cons.2 ⟨by simp, ih y hy⟩
      · exact comparison _ x hx
  have connective : ∀ connectors : Connectors, connectors .other = none → ∀ item c,
      connectors item = some c → item ≠ .other := by
    rintro connectors none item c connects rfl
    exact nomatch none.symm.trans connects
  refine fun inside => forall_of_chain h (connective _ rfl) (fun part x hx => ?_) _ inside rfl
  exact forall_of_chain hx (connective _ rfl) negation

/-! ## Arithmetic -/

/-- Operands with one arithmetic sign between them are what the sign computes, from left to
right. -/
theorem readDisjunction_arithmetic (op : ArithmeticOp) (first : Reading) (rest : List Reading) :
    readDisjunction (connected (.mark op.sign) first rest)
      = some (rest.foldl (.binary (.arithmetic op)) first) := by
  have forall_connected : ∀ {P : Item → Prop}, P (.mark op.sign) → (∀ r, P (.operand r)) →
      ∀ item ∈ connected (.mark op.sign) first rest, P item := by
    intro P sign operand item hi
    rcases List.mem_cons.1 hi with rfl | hi
    · exact operand first
    · obtain ⟨r, -, hi⟩ := List.mem_flatMap.1 hi
      rcases List.mem_cons.1 hi with rfl | hi
      · exact sign
      · exact List.mem_singleton.1 hi ▸ operand r
  rw [readDisjunction_of_isTight (forall_connected (by cases op <;> rfl) fun _ => rfl), readSum]
  have sum : ∀ r, readProduct [.operand r] = some r := fun _ => rfl
  cases op with
  | add | subtract => exact chain_connected rfl (fun _ => rfl) sum first rest
  | multiply | divide =>
    -- no sign of a sum stands between them, so the whole is one product
    rw [chain_of_forall (forall_connected rfl fun _ => rfl)]
    exact chain_connected rfl (fun _ => rfl) (fun _ => rfl) first rest

/-! ## Signs -/

/-- A minus sign with nothing before it takes the operand after it from zero. -/
def leadSign : List Item → List Item
  | .mark "-" :: .operand r :: rest =>
    .operand (.binary (.arithmetic .subtract) (.value (.integer 0)) r) :: rest
  | items => items

theorem leadSign_cons {first : Item} (h : first ≠ .mark "-") (rest : List Item) :
    leadSign (first :: rest) = first :: rest := by
  rw [leadSign.eq_def]
  split
  · next eq => exact absurd (List.cons.inj eq).1 h
  · rfl

/-- Only operands and minus signs are read together. -/
theorem mem_leadSign {item : Item} (h : item ∈ items) (loose : item.isTight = false) :
    item ∈ leadSign items := by
  rw [leadSign.eq_def]
  split
  · next r rest =>
    rcases List.mem_cons.1 h with rfl | h
    · exact nomatch loose
    · rcases List.mem_cons.1 h with rfl | h
      · exact nomatch loose
      · exact List.mem_cons_of_mem _ h
  · exact h

/-- A condition or a computation, perhaps with a sign. -/
def readSigned (items : List Item) : Option Reading :=
  readDisjunction (leadSign items)

/-- A parenthesis as one item; one that cannot be read is no operand. -/
def group (items : List Item) : Item :=
  ((readSigned items).map .operand).getD .other

theorem group_of_readSigned (h : readSigned items = some r) : group items = .operand r := by
  rw [group, h]
  rfl

/-- A parenthesis is the operand that is read inside it. -/
theorem group_eq_operand_iff : group items = .operand r ↔ readSigned items = some r := by
  refine ⟨fun h => ?_, group_of_readSigned⟩
  rw [group] at h
  cases inside : readSigned items with
  | none => rw [inside] at h; exact nomatch h
  | some s =>
    rw [inside] at h
    exact congrArg some (Item.operand.inj h)

/-- A parenthesis is an operand or nothing that can be read. -/
theorem group_cases (items : List Item) : (∃ r, group items = .operand r) ∨ group items = .other := by
  rw [group]
  cases readSigned items with
  | none => exact .inr rfl
  | some r => exact .inl ⟨r, rfl⟩

/-- A parenthesis alone is what is inside it. -/
theorem readSigned_group (items : List Item) : readSigned [group items] = readSigned items := by
  rw [group]
  cases readSigned items <;> rfl

theorem group_ne_mark (items : List Item) (s : String) : group items ≠ .mark s := by
  rcases group_cases items with ⟨r, eq⟩ | eq <;> simp [eq]

/-- Every parenthesis is one item. -/
def readGroup (items : List Item) : Option Item :=
  some (group items)

/-- What a statement with parameters reads as. -/
def readExpression (statement : String) (params : List Value) : Option Reading :=
  (nestBy readGroup [] [] (substitute params 0 (tokensOf statement.toList))).bind readSigned

/-- A statement of one fragment reads as the fragment does. -/
theorem readExpression_statement {f : Fragment} (reads : f.ReadsBy readGroup items)
    (style : PlaceholderStyle) :
    readExpression (f.statement style) f.params = readSigned items := by
  rw [readExpression, reads.statement]
  rfl

end QueryForms.Sql
