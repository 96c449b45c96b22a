import QueryForms.Proofs.Sql.Precedence

/-!
# Operator trees in statements

A scalar in a statement is a tree of operators over columns and parameters (`Term`). The compiler
writes each operand of `AND`, `OR` and `NOT` in parentheses, and each arithmetic as a whole, but the
operands of a comparison and of an arithmetic sign as they are. `Term.readSigned_items_iff`: what
is written so is read back as the tree exactly if no comparison, negation or connection of conditions
stands as an operand beside a sign (`Term.Grouped`).
-/

namespace QueryForms.Sql

/-! ## Terms -/

/-- A tree of operators in a statement. -/
inductive Term where
  /-- A parameter. -/
  | value (v : Value)
  /-- A column. -/
  | column (name : String)
  /-- Two operands with a sign of comparison. -/
  | compare (c : SqlScalar.Comparison) (left right : Term)
  /-- Conditions with a word between them. -/
  | junction (j : Junction) (first : Term) (rest : List Term)
  /-- `NOT` -/
  | negation (inner : Term)
  /-- Operands with an arithmetic sign between them. -/
  | arithmetic (op : ArithmeticOp) (first : Term) (rest : List Term)
  /-- One operand with a minus sign before it. -/
  | negative (inner : Term)

namespace Term

mutual

/-- What the tree is written as. -/
def items : Term → List Item
  | .value v => [.operand (.value v)]
  | .column name => [.operand (.column name)]
  | .compare c left right => items left ++ .mark c.sign :: items right
  | .junction j first rest =>
    group (items first) :: (itemsOfAll rest).flatMap fun part => [.word j.word, group part]
  | .negation inner => [.word "NOT", group (items inner)]
  | .arithmetic op first rest =>
    [group (items first ++ (itemsOfAll rest).flatMap fun part => .mark op.sign :: part)]
  | .negative inner => [group (.mark "-" :: items inner)]

/-- What each of the trees is written as. -/
def itemsOfAll : List Term → List (List Item)
  | [] => []
  | t :: rest => items t :: itemsOfAll rest

end

mutual

/-- The tree as a reading, in which operators with many operands associate to the left, and a minus
sign takes its operand from zero. -/
def reading : Term → Reading
  | .value v => .value v
  | .column name => .column name
  | .compare c left right => .binary (.compare c) (reading left) (reading right)
  | .junction j first rest => (readingOfAll rest).foldl (.binary j.connector) (reading first)
  | .negation inner => .negation (reading inner)
  | .arithmetic op first rest =>
    (readingOfAll rest).foldl (.binary (.arithmetic op)) (reading first)
  | .negative inner => .binary (.arithmetic .subtract) (.value (.integer 0)) (reading inner)

/-- Each of the trees as a reading. -/
def readingOfAll : List Term → List Reading
  | [] => []
  | t :: rest => reading t :: readingOfAll rest

end

theorem itemsOfAll_eq_map (terms : List Term) : itemsOfAll terms = terms.map items := by
  induction terms with
  | nil => rfl
  | cons t rest ih => rw [itemsOfAll, ih, List.map_cons]

theorem readingOfAll_eq_map (terms : List Term) : readingOfAll terms = terms.map reading := by
  induction terms with
  | nil => rfl
  | cons t rest ih => rw [readingOfAll, ih, List.map_cons]

/-! ## Grouping -/

/-- Whether a tree is a parameter. -/
def isValue : Term → Bool
  | .value _ => true
  | _ => false

/-- Whether a tree is written without parentheses around it though its operator binds looser than
arithmetic. -/
def isLoose : Term → Bool
  | .compare _ _ _ => true
  | .negation _ => true
  | .junction _ _ rest => !rest.isEmpty
  | _ => false

/-- Beside every sign of comparison or arithmetic stand operands that are not loose. -/
inductive Grouped : Term → Prop where
  | value (v : Value) : Grouped (.value v)
  | column (name : String) : Grouped (.column name)
  | compare (c : SqlScalar.Comparison) {left right : Term} (tl : left.isLoose = false)
    (tr : right.isLoose = false) (hl : Grouped left) (hr : Grouped right) :
    Grouped (.compare c left right)
  | junction (j : Junction) {first : Term} {rest : List Term}
    (h : ∀ t ∈ first :: rest, Grouped t) : Grouped (.junction j first rest)
  | negation {inner : Term} (h : Grouped inner) : Grouped (.negation inner)
  | single (op : ArithmeticOp) {inner : Term} (h : Grouped inner) :
    Grouped (.arithmetic op inner [])
  | arithmetic (op : ArithmeticOp) {first : Term} {rest : List Term}
    (tight : ∀ t ∈ first :: rest, t.isLoose = false) (h : ∀ t ∈ first :: rest, Grouped t) :
    Grouped (.arithmetic op first rest)
  | negative {inner : Term} (tight : inner.isLoose = false) (h : Grouped inner) :
    Grouped (.negative inner)

/-! ## The items of a term -/

/-- No tree begins with a minus sign: that stands inside a parenthesis. -/
theorem items_eq_cons : (t : Term) → ∃ first rest, t.items = first :: rest ∧ first ≠ .mark "-"
  | .value v => ⟨_, _, rfl, by simp⟩
  | .column name => ⟨_, _, rfl, by simp⟩
  | .compare c left right => by
    obtain ⟨first, rest, eq, other⟩ := items_eq_cons left
    exact ⟨first, rest ++ .mark c.sign :: right.items, by rw [items, eq, List.cons_append], other⟩
  | .junction j first rest => ⟨_, _, rfl, group_ne_mark _ _⟩
  | .negation inner => ⟨_, _, rfl, by simp⟩
  | .arithmetic op first rest => ⟨_, _, rfl, group_ne_mark _ _⟩
  | .negative inner => ⟨_, _, rfl, group_ne_mark _ _⟩

theorem leadSign_items (t : Term) (rest : List Item) :
    leadSign (t.items ++ rest) = t.items ++ rest := by
  obtain ⟨first, others, eq, other⟩ := t.items_eq_cons
  rw [eq, List.cons_append, leadSign_cons other]

theorem readSigned_items (t : Term) : readSigned t.items = readDisjunction t.items := by
  have same := t.leadSign_items []
  rw [List.append_nil] at same
  rw [readSigned, same]

/-- A loose tree shows a sign or word that is not of arithmetic. -/
theorem exists_of_isLoose {t : Term} (h : t.isLoose = true) :
    ∃ item ∈ t.items, item.isTight = false := by
  cases t with
  | compare c left right => exact ⟨.mark c.sign, by simp [items], Item.not_isTight_sign c⟩
  | negation inner => exact ⟨.word "NOT", by simp [items], rfl⟩
  | junction j first rest =>
    cases rest with
    | nil => exact nomatch h
    | cons t rest => exact ⟨.word j.word, by simp [items, itemsOfAll], rfl⟩
  | _ => exact nomatch h

/-- Any other tree is one item. -/
theorem items_eq_singleton {t : Term} (h : t.isLoose = false) :
    ∃ item, t.items = [item] ∧ ((∃ r, item = .operand r) ∨ item = .other) := by
  cases t with
  | value v => exact ⟨_, rfl, .inl ⟨_, rfl⟩⟩
  | column name => exact ⟨_, rfl, .inl ⟨_, rfl⟩⟩
  | junction j first rest =>
    cases rest with
    | nil => exact ⟨_, rfl, group_cases _⟩
    | cons t rest => exact nomatch h
  | arithmetic op first rest => exact ⟨_, rfl, group_cases _⟩
  | negative inner => exact ⟨_, rfl, group_cases _⟩
  | _ => exact nomatch h

/-- Among operands and arithmetic signs a tree is one operand. -/
theorem items_eq_operand {t : Term} (h : ∀ item ∈ t.items, item.isTight = true) :
    t.isLoose = false ∧ ∃ r, t.items = [.operand r] := by
  have tight : t.isLoose = false := by
    refine Bool.eq_false_iff.2 fun loose => ?_
    obtain ⟨item, hi, other⟩ := exists_of_isLoose loose
    exact absurd (h item hi) (by simp [other])
  obtain ⟨item, eq, ⟨r, rfl⟩ | rfl⟩ := items_eq_singleton tight
  · exact ⟨tight, r, eq⟩
  · exact nomatch h .other (eq ▸ List.mem_singleton.2 rfl)

/-- A tree that is one operand is what it reads as. -/
theorem items_eq_operand_iff {t : Term} (tight : t.isLoose = false) {r : Reading} :
    t.items = [.operand r] ↔ readSigned t.items = some r := by
  refine ⟨fun h => by rw [h]; rfl, fun h => ?_⟩
  obtain ⟨item, eq, ⟨s, rfl⟩ | rfl⟩ := items_eq_singleton tight
  · rw [eq] at h ⊢
    obtain rfl : s = r := Option.some.inj h
    rfl
  · rw [eq] at h
    exact nomatch h

/-! ## Grouped terms -/

/-- A grouped tree reads as itself. -/
theorem Grouped.readSigned_items {t : Term} (h : t.Grouped) :
    readSigned t.items = some t.reading := by
  induction h with
  | value v => rfl
  | column name => rfl
  | @compare c left right tl tr _ _ ihl ihr =>
    have hl := (items_eq_operand_iff tl).2 ihl
    have hr := (items_eq_operand_iff tr).2 ihr
    rw [items, hl, hr]
    exact readDisjunction_compare c _ _
  | @junction j first rest _ ih =>
    have parts : ∀ t ∈ first :: rest, group t.items = .operand t.reading :=
      fun t ht => group_of_readSigned (ih t ht)
    have whole : (Term.junction j first rest).items
        = connected (.word j.word) first.reading (rest.map reading) := by
      rw [items, connected, itemsOfAll_eq_map, parts first (List.mem_cons_self ..),
        List.flatMap_map, List.flatMap_map]
      refine congrArg _ (List.flatMap_congr fun t ht => ?_)
      rw [parts t (List.mem_cons_of_mem _ ht)]
    rw [Term.readSigned_items, whole, readDisjunction_connected, reading, readingOfAll_eq_map]
  | @negation inner _ ih =>
    rw [items, group_of_readSigned ih]
    rfl
  | @single op inner _ ih =>
    have inside : (Term.arithmetic op inner []).items = [group inner.items] := by
      simp [items, itemsOfAll]
    rw [inside, group_of_readSigned ih]
    rfl
  | @arithmetic op first rest tight _ ih =>
    have parts : ∀ t ∈ first :: rest, t.items = [.operand t.reading] :=
      fun t ht => (items_eq_operand_iff (tight t ht)).2 (ih t ht)
    have inside : first.items ++ (itemsOfAll rest).flatMap (.mark op.sign :: ·)
        = connected (.mark op.sign) first.reading (rest.map reading) := by
      rw [connected, itemsOfAll_eq_map, parts first (List.mem_cons_self ..), List.flatMap_map,
        List.flatMap_map, List.singleton_append]
      refine congrArg _ (List.flatMap_congr fun t ht => ?_)
      rw [parts t (List.mem_cons_of_mem _ ht)]
    have read : readSigned (connected (.mark op.sign) first.reading (rest.map reading))
        = some (Term.arithmetic op first rest).reading := by
      rw [readSigned, connected, leadSign_cons (by simp), ← connected, readDisjunction_arithmetic,
        reading, readingOfAll_eq_map]
    rw [items, inside, group_of_readSigned read]
    rfl
  | @negative inner tight _ ih =>
    have inside := (items_eq_operand_iff tight).2 ih
    rw [items, inside]
    rfl

/-! ## Readings of terms -/

/-- From equal chains of one connector the operands are equal. -/
theorem foldl_binary_inj {c : Connector} {rs ss : List Reading} {r s : Reading}
    (len : rs.length = ss.length) (h : rs.foldl (.binary c) r = ss.foldl (.binary c) s) :
    r = s ∧ rs = ss := by
  induction rs generalizing ss r s with
  | nil =>
    obtain rfl := List.length_eq_zero_iff.1 len.symm
    exact ⟨h, rfl⟩
  | cons x rs ih =>
    cases ss with
    | nil => exact nomatch len
    | cons y ss =>
      obtain ⟨eq, rfl⟩ := ih (Nat.succ.inj len) h
      obtain ⟨-, rfl, rfl⟩ := Reading.binary.inj eq
      exact ⟨rfl, rfl⟩

/-- Operands that are read together as the chain of the trees are the trees. -/
theorem forall_of_foldl {α : Type} (written : Term → α) (operand : Reading → α) {c : Connector}
    {first : Term} {rest : List Term}
    (operands : ∀ t ∈ first :: rest, ∃ r, operand r = written t)
    (reads : ∀ (r : Reading) (rs : List Reading), operand r = written first →
      rs.map operand = rest.map written →
      rs.foldl (.binary c) r = (rest.map reading).foldl (.binary c) first.reading) :
    ∀ t ∈ first :: rest, written t = operand t.reading := by
  obtain ⟨r, hr⟩ := operands first (List.mem_cons_self ..)
  obtain ⟨rs, hrs⟩ : rest.map written ∈ Set.range (List.map operand) := by
    rw [Set.range_list_map]
    intro x hx
    obtain ⟨t, ht, rfl⟩ := List.mem_map.1 hx
    exact operands t (List.mem_cons_of_mem _ ht)
  have len : rs.length = (rest.map reading).length := by
    simpa using congrArg List.length hrs
  obtain ⟨rfl, rfl⟩ := foldl_binary_inj len (reads r rs hr hrs)
  rw [List.map_map] at hrs
  exact List.forall_mem_cons.2 ⟨hr.symm, fun t ht => (List.map_inj_left.1 hrs t ht).symm⟩

/-- A chain of operands has its connector outermost. -/
theorem exists_foldl_binary (c : Connector) (s x : Reading) (rs : List Reading) :
    ∃ a b, (x :: rs).foldl (.binary c) s = .binary c a b := by
  induction rs generalizing s x with
  | nil => exact ⟨s, x, rfl⟩
  | cons y rs ih => exact ih (.binary c s x) y

/-- What is read as a sum and is one tree is one operand. -/
theorem items_of_readSum {t : Term} {r : Reading} (h : readSum t.items = some r) :
    t.isLoose = false ∧ t.items = [.operand r] := by
  obtain ⟨tight, s, eq⟩ := items_eq_operand (isTight_of_readSum h)
  rw [eq] at h ⊢
  obtain rfl : s = r := Option.some.inj h
  exact ⟨tight, rfl⟩

/-- Where connected conditions are read as their trees, each of them is. -/
theorem forall_of_junction {j : Junction} {first : Term} {rest : List Term}
    (h : readSigned (junction j first rest).items = some (junction j first rest).reading) :
    ∀ t ∈ first :: rest, readSigned t.items = some t.reading := by
  rw [Term.readSigned_items, items, reading, itemsOfAll_eq_map, readingOfAll_eq_map,
    List.flatMap_map] at h
  have readable := not_other_of_readDisjunction h
  have parts : ∀ t ∈ first :: rest, group t.items = .operand t.reading := by
    refine forall_of_foldl (c := j.connector) (fun t => group t.items) .operand (fun t ht => ?_)
      fun r rs hr hrs => ?_
    · rcases group_cases t.items with ⟨r, eq⟩ | eq
      · exact ⟨r, eq.symm⟩
      · refine absurd (eq ▸ ?_) readable
        rcases List.mem_cons.1 ht with rfl | ht
        · exact List.mem_cons_self ..
        · exact List.mem_cons_of_mem _ (List.mem_flatMap.2 ⟨t, ht, by simp⟩)
    · have whole : group first.items :: (rest.flatMap fun t => [.word j.word, group t.items])
          = connected (.word j.word) r rs := by
        have spread := congrArg (List.flatMap fun item => [Item.word j.word, item]) hrs
        rw [List.flatMap_map, List.flatMap_map] at spread
        rw [connected, spread, hr]
      rw [whole, readDisjunction_connected] at h
      exact Option.some.inj h
  exact fun t ht => group_eq_operand_iff.1 (parts t ht)

/-- Where an arithmetic of several operands is read as its tree, each of them is, and none is
loose. -/
theorem forall_of_arithmetic {op : ArithmeticOp} {first second : Term} {rest : List Term}
    (h : readSigned (arithmetic op first (second :: rest)).items
      = some (arithmetic op first (second :: rest)).reading) :
    ∀ t ∈ first :: second :: rest, t.isLoose = false ∧ readSigned t.items = some t.reading := by
  rw [items, readSigned_group, readSigned, leadSign_items, reading, itemsOfAll_eq_map,
    readingOfAll_eq_map, List.flatMap_map] at h
  -- the sign is outermost, so it all was read as a sum
  have sum := h
  obtain ⟨a, b, outermost⟩ := exists_foldl_binary (.arithmetic op) first.reading second.reading
    (rest.map reading)
  rw [List.map_cons, outermost] at sum
  have tight := isTight_of_readSum (readSum_of_readDisjunction sum)
  have operands : ∀ t ∈ first :: second :: rest, t.isLoose = false ∧ ∃ r, t.items = [.operand r] := by
    intro t ht
    refine items_eq_operand fun item hi => tight item ?_
    rcases List.mem_cons.1 ht with rfl | ht
    · exact List.mem_append_left _ hi
    · exact List.mem_append_right _ (List.mem_flatMap.2 ⟨t, ht, List.mem_cons_of_mem _ hi⟩)
  have parts : ∀ t ∈ first :: second :: rest, t.items = [.operand t.reading] := by
    refine forall_of_foldl (c := .arithmetic op) items (fun r => [.operand r])
      (fun t ht => (operands t ht).2.imp fun r => Eq.symm) fun r rs hr hrs => ?_
    have whole : first.items ++ ((second :: rest).flatMap fun t => .mark op.sign :: t.items)
        = connected (.mark op.sign) r rs := by
      have spread := congrArg (List.flatMap (Item.mark op.sign :: ·)) hrs
      rw [List.flatMap_map, List.flatMap_map] at spread
      rw [connected, ← hr, ← spread]
      rfl
    rw [whole, readDisjunction_arithmetic] at h
    exact Option.some.inj h
  exact fun t ht => ⟨(operands t ht).1, (items_eq_operand_iff (operands t ht).1).1 (parts t ht)⟩

/-- Where a sign is read before its operand, the operand is not loose and is read as its tree. -/
theorem of_negative {inner : Term}
    (h : readSigned (negative inner).items = some (negative inner).reading) :
    inner.isLoose = false ∧ readSigned inner.items = some inner.reading := by
  rw [items, readSigned_group, readSigned, reading] at h
  have tight := isTight_of_readSum (readSum_of_readDisjunction h)
  have operand : inner.isLoose = false := by
    refine Bool.eq_false_iff.2 fun loose => ?_
    obtain ⟨item, hi, other⟩ := exists_of_isLoose loose
    exact absurd (tight item (mem_leadSign (List.mem_cons_of_mem _ hi) other)) (by simp [other])
  obtain ⟨item, eq, ⟨r, rfl⟩ | rfl⟩ := items_eq_singleton operand
  · rw [eq] at h ⊢
    obtain ⟨-, -, rfl⟩ := Reading.binary.inj (Option.some.inj h)
    exact ⟨operand, rfl⟩
  · rw [eq] at h
    exact nomatch h

/-- A tree that reads as itself is grouped. -/
theorem grouped_of_readSigned : (t : Term) → readSigned t.items = some t.reading → t.Grouped
  | .value v, _ => .value v
  | .column name, _ => .column name
  | .compare c left right, h => by
    rw [Term.readSigned_items] at h
    -- both sides are read as sums, so neither is loose
    obtain ⟨x, y, hx, hy, eq⟩ := readComparison_cons
      (readComparison_of_readDisjunction (by simp) (by simp) h)
    obtain ⟨-, rfl, rfl⟩ := Reading.binary.inj eq
    obtain ⟨tl, hl⟩ := items_of_readSum hx
    obtain ⟨tr, hr⟩ := items_of_readSum hy
    exact .compare c tl tr (grouped_of_readSigned left ((items_eq_operand_iff tl).1 hl))
      (grouped_of_readSigned right ((items_eq_operand_iff tr).1 hr))
  | .junction j first rest, h =>
    .junction j fun t ht => grouped_of_readSigned t (forall_of_junction h t ht)
  | .negation inner, h => by
    rcases group_cases inner.items with ⟨r, eq⟩ | eq
    · rw [items, eq] at h
      obtain rfl := Reading.negation.inj (Option.some.inj h)
      exact .negation (grouped_of_readSigned inner (group_eq_operand_iff.1 eq))
    · rw [items, eq] at h
      exact nomatch h
  | .arithmetic op first [], h => by
    rw [items, readSigned_group, itemsOfAll, List.flatMap_nil, List.append_nil] at h
    exact .single op (grouped_of_readSigned first h)
  | .arithmetic op first (second :: rest), h =>
    .arithmetic op (fun t ht => (forall_of_arithmetic h t ht).1) fun t ht =>
      grouped_of_readSigned t (forall_of_arithmetic h t ht).2
  | .negative inner, h => .negative (of_negative h).1 (grouped_of_readSigned inner (of_negative h).2)

/-- A tree reads as itself exactly if it is grouped. -/
theorem readSigned_items_iff {t : Term} : readSigned t.items = some t.reading ↔ t.Grouped :=
  ⟨t.grouped_of_readSigned, Grouped.readSigned_items⟩

end Term

end QueryForms.Sql
