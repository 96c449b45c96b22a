import QueryForms.Proofs.Date.Text
import QueryForms.Proofs.Number.Digits

/-!
# Dates read

A number is read back from its digits, whatever comes after them, if it is read to the end of a
width (`readWidth?_padded`) or of the digits (`readNumber?_append`). So a text with a day and a time
after four digits of a year is an instant (`readInstant?_afterDate`); after a sign it is none
(`readInstant?_of_sign`), and because of the time no bare day either (`readDay?_afterDate`). Every
instant that is read is regular: a leap second ends a minute (`regular_of_read?`).
-/

namespace QueryForms

theorem CivilDate.lt_of_exists? {d : CivilDate} (h : d.exists? = true) :
    d.month < 100 ∧ d.day < 100 := by
  have := daysInMonth_le d.year d.month
  simp only [CivilDate.exists?, Bool.and_eq_true, decide_eq_true_eq] at h
  omega

namespace DateText

/-! ## Numbers -/

theorem digit?_eq_some_iff {c : Char} {d : Nat} :
    digit? c = some d ↔ c.isDigit = true ∧ c.toNat - '0'.toNat = d := by
  rw [digit?, Option.ite_none_right_eq_some, Option.some.injEq]
  exact and_congr_left fun _ => Char.isDigit_iff_toNat.symm

/-- A text at whose start no digits go on. -/
def Ends (cs : List Char) : Prop :=
  ∀ c ∈ cs.head?, digit? c = none

theorem ends_cons {c : Char} (h : digit? c = none) (cs : List Char) : Ends (c :: cs) :=
  fun _ hc => Option.some.inj hc ▸ h

theorem readDigits_of_ends {cs : List Char} (h : Ends cs) (most value count : Nat) :
    readDigits most value count cs = (value, count, cs) := by
  cases most with
  | zero => rfl
  | succ most =>
    cases cs with
    | nil => rfl
    | cons c cs => rw [readDigits, h c rfl]

/-- Digits are read to their end, if there are no more of them than may be. -/
theorem readDigits_append {digits : List Char} (h : ∀ c ∈ digits, c.isDigit = true)
    (most value count : Nat) (rest : List Char) :
    readDigits (digits.length + most) value count (digits ++ rest)
      = readDigits most (Nat.ofDigitChars 10 digits value) (count + digits.length) rest := by
  induction digits generalizing value count with
  | nil => rw [List.length_nil, Nat.zero_add]; rfl
  | cons c cs ih =>
    obtain ⟨digit, h⟩ := List.forall_mem_cons.1 h
    rw [List.length_cons, Nat.add_right_comm, List.cons_append, readDigits,
      digit?_eq_some_iff.2 ⟨digit, rfl⟩]
    dsimp only
    rw [ih h, Nat.ofDigitChars_cons, Nat.mul_comm value, Nat.add_assoc, Nat.add_comm 1]

/-- What is read are the digits that a text begins with, or the first of them. -/
theorem exists_readDigits (most value count : Nat) (cs : List Char) :
    ∃ digits rest, cs = digits ++ rest ∧ (∀ c ∈ digits, c.isDigit = true) ∧
      digits.length ≤ most ∧ readDigits most value count cs
        = (Nat.ofDigitChars 10 digits value, count + digits.length, rest) := by
  have none : ∀ c ∈ ([] : List Char), c.isDigit = true := fun _ h => absurd h List.not_mem_nil
  induction most generalizing value count cs with
  | zero => exact ⟨[], cs, rfl, none, Nat.le_refl 0, rfl⟩
  | succ most ih =>
    cases cs with
    | nil => exact ⟨[], [], rfl, none, Nat.zero_le _, rfl⟩
    | cons c cs =>
      rw [readDigits]
      cases digit : digit? c with
      | none => exact ⟨[], c :: cs, rfl, none, Nat.zero_le _, rfl⟩
      | some d =>
        obtain ⟨isDigit, rfl⟩ := digit?_eq_some_iff.1 digit
        obtain ⟨digits, rest, rfl, allDigits, fits, read⟩ := ih (value * 10 + (c.toNat - '0'.toNat))
          (count + 1) cs
        refine ⟨c :: digits, rest, rfl, List.forall_mem_cons.2 ⟨isDigit, allDigits⟩,
          Nat.succ_le_succ fits, ?_⟩
        dsimp only
        rw [read, Nat.ofDigitChars_cons, Nat.mul_comm, List.length_cons, Nat.add_right_comm,
          Nat.add_assoc]

theorem digits_padded (width n : Nat) : ∀ c ∈ (padded width n).toList, c.isDigit = true :=
  fun _ => isDigit_of_mem_padded

theorem readWidth?_padded {width n : Nat} (wide : 0 < width) (fits : n < 10 ^ width)
    (rest : List Char) : readWidth? width ((padded width n).toList ++ rest) = some (n, rest) := by
  have length := length_padded wide fits
  have read := readDigits_append (digits_padded width n) 0 0 0 rest
  rw [Nat.add_zero, length, ofDigitChars_padded] at read
  rw [readWidth?, read]
  simp [readDigits]

@[simp] theorem readChar?_self (c : Char) (cs : List Char) : readChar? c (c :: cs) = some cs :=
  if_pos rfl

theorem readFraction?_millis {millis : Nat} (fits : millis < 1000) :
    readFraction? ((padded 3 millis).toList ++ ['Z']) = some (millis * 1000000, ['Z']) := by
  have length : (padded 3 millis).toList.length = 3 := length_padded (by decide) fits
  have read := readDigits_append (digits_padded 3 millis) 6 0 0 ['Z']
  rw [length, ofDigitChars_padded, readDigits_of_ends (ends_cons rfl _)] at read
  rw [readFraction?, read]
  rfl

/-! ## Instants -/

/-- The text of a time is read. -/
theorem readInstant?_afterDate {date : CivilDate} {hour minute second millis : Nat}
    (hyear : 0 ≤ date.year ∧ date.year ≤ 9999) (hdate : date.exists? = true)
    (htime : hour ≤ 23 ∧ minute ≤ 59 ∧ second ≤ 60) (hmillis : millis < 1000) :
    readInstant? ((writeYear date.year).toList ++ afterDate date hour minute second millis)
      = some ⟨date.dayNumber * 86400 + (hour * 3600 + minute * 60 + (min second 59 : Nat)),
          millis * 1000000 + if second = 60 then 1000000000 else 0⟩ := by
  obtain ⟨hhour, hminute, hsecond⟩ := htime
  obtain ⟨hmonth, hday⟩ := CivilDate.lt_of_exists? hdate
  have back : (⟨date.year.toNat, date.month, date.day⟩ : CivilDate) = date := by
    rw [CivilDate.mk.injEq]
    exact ⟨Int.toNat_of_nonneg hyear.1, rfl, rfl⟩
  rw [writeYear, if_pos hyear, readInstant?]
  refine Option.bind_eq_some_iff.2 ⟨_, readWidth?_padded (by decide) (by omega) _, ?_⟩
  dsimp only [afterDate, marked, List.cons_append]
  refine Option.bind_eq_some_iff.2 ⟨_, readChar?_self .., ?_⟩
  refine Option.bind_eq_some_iff.2 ⟨_, readWidth?_padded (by decide) hmonth _, ?_⟩
  refine Option.bind_eq_some_iff.2 ⟨_, readChar?_self .., ?_⟩
  refine Option.bind_eq_some_iff.2 ⟨_, readWidth?_padded (by decide) hday _, ?_⟩
  dsimp only
  rw [if_pos (.inl rfl), back]
  refine Option.bind_eq_some_iff.2 ⟨_, rfl, ?_⟩
  refine Option.bind_eq_some_iff.2 ⟨_, readWidth?_padded (by decide) (by omega) _, ?_⟩
  refine Option.bind_eq_some_iff.2 ⟨_, readChar?_self .., ?_⟩
  refine Option.bind_eq_some_iff.2 ⟨_, readWidth?_padded (by decide) (by omega) _, ?_⟩
  refine Option.bind_eq_some_iff.2 ⟨_, readChar?_self .., ?_⟩
  refine Option.bind_eq_some_iff.2 ⟨_, readWidth?_padded (by decide) (by omega) _, ?_⟩
  dsimp only
  refine Option.bind_eq_some_iff.2 ⟨_, readFraction?_millis hmillis, ?_⟩
  refine Option.bind_eq_some_iff.2 ⟨(0, []), rfl, ?_⟩
  rw [if_pos ⟨rfl, hdate, hhour, hminute, hsecond⟩, Int.sub_zero]
  rfl

/-! ## Days -/

theorem readNumber?_append {digits rest : List Char} (filled : digits ≠ [])
    (h : ∀ c ∈ digits, c.isDigit = true) (ends : Ends rest) {most : Nat}
    (enough : digits.length ≤ most) :
    readNumber? most (digits ++ rest) = some (Nat.ofDigitChars 10 digits 0, rest) := by
  obtain ⟨more, rfl⟩ := Nat.exists_eq_add_of_le enough
  rw [readNumber?, readDigits_append h, readDigits_of_ends ends]
  split
  · next none =>
    simp only [Prod.mk.injEq, Nat.zero_add] at none
    exact absurd (List.eq_nil_of_length_eq_zero none.2.1) filled
  · next read =>
    cases read
    rfl

/-- A year with a sign is read to the end of its digits. -/
theorem exists_readYear? {sign : Char} (hs : sign = '-' ∨ sign = '+') {digits rest : List Char}
    (filled : digits ≠ []) (h : ∀ c ∈ digits, c.isDigit = true) (ends : Ends rest) :
    ∃ year, readYear? (sign :: (digits ++ rest)) = some (year, rest) := by
  have enough : digits.length ≤ (digits ++ rest).length := by
    rw [List.length_append]
    omega
  have read := readNumber?_append filled h ends enough
  rcases hs with rfl | rfl
  · exact ⟨_, by rw [readYear?, read]; rfl⟩
  · exact ⟨_, by rw [readYear?, read]; rfl⟩

/-- No blank is a digit. -/
theorem dropBlanks_of_isDigit {c : Char} (h : c.isDigit = true) (cs : List Char) :
    Text.dropBlanks (c :: cs) = c :: cs := by
  have apart : ∀ range ∈ Text.blankRanges, range.2 < 48 ∨ 57 < range.1 := by decide
  have shown : Text.isBlank c = false := by
    refine List.any_eq_false.2 fun range inside => ?_
    have bounds := toNat_of_isDigit h
    have := apart range inside
    simp only [Bool.and_eq_true, decide_eq_true_eq]
    omega
  rw [Text.dropBlanks, List.dropWhile_cons, shown]
  rfl

/-- A number of two digits is read as a part of a day. -/
theorem readNumber?_padded {n : Nat} (fits : n < 100) {rest : List Char} (ends : Ends rest) :
    readNumber? 2 (Text.dropBlanks ((padded 2 n).toList ++ rest)) = some (n, rest) := by
  have length : (padded 2 n).toList.length = 2 := length_padded (by decide) fits
  have digits := digits_padded 2 n
  obtain ⟨first, more, shown⟩ := List.exists_cons_of_length_eq_add_one length
  have read := readNumber?_append (shown ▸ List.cons_ne_nil _ _) digits ends length.le
  rw [ofDigitChars_padded] at read
  rw [shown] at read digits ⊢
  rw [List.cons_append, dropBlanks_of_isDigit (digits _ (List.mem_cons_self ..)),
    ← List.cons_append, read]

/-- What stands after the day is no part of a bare day. -/
theorem readDay?_afterDate {sign : Char} (hs : sign = '-' ∨ sign = '+') {digits : List Char}
    (filled : digits ≠ []) (h : ∀ c ∈ digits, c.isDigit = true) {date : CivilDate}
    (hd : date.month < 100 ∧ date.day < 100) (hour minute second millis : Nat) :
    readDay? (sign :: (digits ++ afterDate date hour minute second millis)) = none := by
  have unblank : Text.dropBlanks (sign :: (digits ++ afterDate date hour minute second millis))
      = sign :: (digits ++ afterDate date hour minute second millis) := by
    rcases hs with rfl | rfl <;> rfl
  have ends : Ends (afterDate date hour minute second millis) := ends_cons rfl _
  obtain ⟨year, read⟩ := exists_readYear? hs filled h ends
  rw [readDay?, unblank, read]
  simp only [Option.bind_eq_bind, Option.bind_some, afterDate, marked, List.cons_append,
    readChar?_self]
  rw [readNumber?_padded hd.1 (ends_cons rfl _)]
  simp only [Option.bind_some, readChar?_self]
  rw [readNumber?_padded hd.2 (ends_cons rfl _)]
  rfl

/-- A text with a sign is no RFC 3339 text. -/
theorem readInstant?_of_sign {sign : Char} (h : digit? sign = none) (cs : List Char) :
    readInstant? (sign :: cs) = none := by
  have none : readWidth? 4 (sign :: cs) = none := by
    rw [readWidth?, readDigits, h]
    rfl
  rw [readInstant?, none]
  rfl

/-! ## What is read -/

/-- A fraction read is less than a second. -/
theorem readFraction?_lt {cs rest : List Char} {nanos : Nat}
    (h : readFraction? cs = some (nanos, rest)) : nanos < 1000000000 := by
  obtain ⟨digits, more, -, allDigits, fits, read⟩ := exists_readDigits 9 0 0 cs
  have below := digitsValue_lt allDigits
  rw [digitsValue_eq_ofDigitChars] at below
  rw [readFraction?, read, Nat.zero_add] at h
  split at h
  · cases h
  · next same =>
    cases same
    cases h
    calc Nat.ofDigitChars 10 digits 0 * 10 ^ (9 - digits.length)
        < 10 ^ digits.length * 10 ^ (9 - digits.length) :=
          Nat.mul_lt_mul_of_pos_right below (Nat.pow_pos (by decide))
      _ = 10 ^ 9 := by rw [← Nat.pow_add, Nat.add_sub_cancel' fits]

/-- An offset is read to the minute. -/
theorem readOffset?_emod {cs rest : List Char} {offset : Int}
    (h : readOffset? cs = some (offset, rest)) : offset % 60 = 0 := by
  cases cs with
  | nil => cases h
  | cons sign cs =>
    rw [readOffset?] at h
    split at h
    · cases h
      rfl
    · split at h
      · iterate 3 obtain ⟨_, -, h⟩ := Option.bind_eq_some_iff.1 h
        dsimp only at h
        split at h
        · cases h
        · cases h
          split <;> omega
      · cases h

/-- A text that is read with an offset gives an instant whose seconds are those of its last number,
and whose nanoseconds are those of its fraction; second 60 is the one before it and a second of
nanoseconds more. -/
theorem regular_of_offset {cs : List Char} {accept : Int × List Char → Prop}
    [DecidablePred accept] {days hour minute : Int} {second nanos : Nat} {t : Instant}
    (below : nanos < 1000000000)
    (h : ((readOffset? cs).bind fun x => if accept x then
      some ⟨days * 86400 + (hour * 3600 + minute * 60 + (min second 59 : Nat)) - x.1,
        nanos + if second = 60 then 1000000000 else 0⟩ else none) = some t) :
    t.Regular := by
  obtain ⟨⟨offset, rest⟩, read, h⟩ := Option.bind_eq_some_iff.1 h
  have minutes := readOffset?_emod read
  split at h
  · cases h
    dsimp only [Instant.Regular]
    split
    · next leap => right; omega
    · left; omega
  · cases h

/-- What is read from a text is a regular instant. -/
theorem regular_of_readInstant? {cs : List Char} {t : Instant} (h : readInstant? cs = some t) :
    t.Regular := by
  rw [readInstant?] at h
  iterate 5 obtain ⟨_, -, h⟩ := Option.bind_eq_some_iff.1 h
  dsimp only at h
  split at h
  · split at h
    · iterate 6 obtain ⟨_, -, h⟩ := Option.bind_eq_some_iff.1 h
      split at h
      · obtain ⟨⟨fraction, cs⟩, read, h⟩ := Option.bind_eq_some_iff.1 h
        exact regular_of_offset (readFraction?_lt read) h
      · exact regular_of_offset (show (0 : Nat) < 1000000000 by decide) h
    · cases h
  · cases h

theorem regular_of_read? {text : String} {t : Instant} (h : read? text = some t) : t.Regular := by
  rw [read?] at h
  split at h
  · next read => exact regular_of_readInstant? (read.trans h)
  · obtain ⟨date, -, rfl⟩ := Option.map_eq_some_iff.1 h
    exact .inl (show (0 : Nat) < 1000000000 by decide)

end DateText

end QueryForms
