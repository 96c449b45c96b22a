import QueryForms.Date.Text
import QueryForms.Proofs.Date.Calendar

/-!
# Dates told apart by their text

After its year the text of an instant has a width of its own, so the year can be told from the rest,
and the rest from left to right. Two instants have one text exactly if they are of one millisecond of
one second, where a leap second is a second of its own (`DateText.millisZulu_inj`).
-/

namespace QueryForms

namespace DateText

/-! ## Numbers of a width -/

theorem toList_padded (width n : Nat) :
    (padded width n).toList
      = List.replicate (width - (Nat.toDigits 10 n).length) '0' ++ Nat.toDigits 10 n := by
  simp only [padded, Nat.toString_eq_ofList_toDigits, String.toList_append, String.toList_ofList,
    String.length_ofList]

/-- A number with zeros before it is all digits. -/
theorem isDigit_of_mem_padded {width n : Nat} {c : Char} (h : c ∈ (padded width n).toList) :
    c.isDigit = true := by
  rw [toList_padded] at h
  rcases List.mem_append.1 h with h | h
  · exact List.eq_of_mem_replicate h ▸ rfl
  · exact Nat.isDigit_of_mem_toDigits (by decide) (by decide) h

theorem length_padded {width n : Nat} (wide : 0 < width) (fits : n < 10 ^ width) :
    (padded width n).toList.length = width := by
  have digits := (Nat.length_toDigits_le_iff (by decide) wide).2 fits
  rw [toList_padded, List.length_append, List.length_replicate]
  omega

/-- Zeros before a number change nothing about it. -/
theorem ofDigitChars_padded (width n : Nat) :
    Nat.ofDigitChars 10 (padded width n).toList 0 = n := by
  rw [toList_padded, Nat.ofDigitChars_append, Nat.ofDigitChars_replicate_zero, Nat.mul_zero,
    Nat.ofDigitChars_ten_toDigits]

theorem padded_inj {width n m : Nat} (h : (padded width n).toList = (padded width m).toList) :
    n = m := by
  rw [← ofDigitChars_padded width n, h, ofDigitChars_padded]

theorem padded_ne_nil (width n : Nat) : (padded width n).toList ≠ [] := by
  rw [toList_padded]
  exact List.append_ne_nil_of_right_ne_nil _ Nat.toDigits_ne_nil

/-- A year that four digits do not show has a sign. -/
theorem toList_writeYear_of_outside {year : Int} (h : ¬(0 ≤ year ∧ year ≤ 9999)) :
    (writeYear year).toList
      = (if year < 0 then '-' else '+') :: (padded 4 year.natAbs).toList := by
  rw [writeYear, if_neg h, String.toList_append]
  split
  · exact List.singleton_append
  · exact List.singleton_append

/-- A year is told by its text. -/
theorem writeYear_inj {a b : Int} (h : (writeYear a).toList = (writeYear b).toList) : a = b := by
  have unsigned : ∀ {sign : Char} {n m : Nat}, sign.isDigit = false →
      (padded 4 n).toList ≠ sign :: (padded 4 m).toList := by
    intro sign n m noDigit same
    have digit := isDigit_of_mem_padded (same ▸ List.mem_cons_self .. : sign ∈ (padded 4 n).toList)
    rw [noDigit] at digit
    cases digit
  have sign : ∀ {year : Int}, (if year < 0 then '-' else '+' : Char).isDigit = false := by
    intro year
    split <;> rfl
  by_cases ha : 0 ≤ a ∧ a ≤ 9999 <;> by_cases hb : 0 ≤ b ∧ b ≤ 9999
  · rw [writeYear, writeYear, if_pos ha, if_pos hb] at h
    have := padded_inj h
    omega
  · rw [toList_writeYear_of_outside hb, writeYear, if_pos ha] at h
    exact absurd h (unsigned sign)
  · rw [toList_writeYear_of_outside ha, writeYear, if_pos hb] at h
    exact absurd h.symm (unsigned sign)
  · rw [toList_writeYear_of_outside ha, toList_writeYear_of_outside hb] at h
    obtain ⟨signs, numbers⟩ := List.cons.inj h
    have := padded_inj numbers
    split at signs <;> split at signs
    · omega
    · cases signs
    · cases signs
    · omega

/-! ## The rest of a text -/

/-- A number of a width after a mark. -/
def marked (mark : Char) (width n : Nat) : List Char :=
  mark :: (padded width n).toList

theorem length_marked {width n : Nat} (mark : Char) (wide : 0 < width) (fits : n < 10 ^ width) :
    (marked mark width n).length = width + 1 := by
  rw [marked, List.length_cons, length_padded wide fits]

/-- Two numbers of one width are told apart whatever comes after them. -/
theorem marked_append_inj {mark : Char} {width n m : Nat} {cs ds : List Char} (wide : 0 < width)
    (fits : n < 10 ^ width) (fits' : m < 10 ^ width)
    (h : marked mark width n ++ cs = marked mark width m ++ ds) : n = m ∧ cs = ds := by
  obtain ⟨numbers, rest⟩ := List.append_inj h
    (by rw [length_marked mark wide fits, length_marked mark wide fits'])
  exact ⟨padded_inj (List.cons.inj numbers).2, rest⟩

/-- What stands after the year: the rest of the day and a time with its milliseconds. -/
def afterDate (date : CivilDate) (hour minute second millis : Nat) : List Char :=
  marked '-' 2 date.month ++ (marked '-' 2 date.day ++ (marked 'T' 2 hour ++
    (marked ':' 2 minute ++ (marked ':' 2 second ++ (marked '.' 3 millis ++ ['Z'])))))

/-- The text of an instant; a leap second is shown as one more than the second before it. -/
theorem toList_millisZulu_eq {t : Instant} {leap nanos : Nat}
    (shown : t.nanos = leap * 1000000000 + nanos) (hleap : leap < 2) (hnanos : nanos < 1000000000) :
    (millisZulu t).toList = (writeYear t.date.year).toList
      ++ afterDate t.date ((t.seconds % 86400).toNat / 3600) ((t.seconds % 86400).toNat / 60 % 60)
        ((t.seconds % 86400).toNat % 60 + leap) (nanos / 1000000) := by
  have second : (if 1000000000 ≤ t.nanos then 1 else 0) = leap := by split <;> omega
  have fraction : (if 1000000000 ≤ t.nanos then t.nanos - 1000000000 else t.nanos) = nanos := by
    split <;> omega
  simp [millisZulu, write, writeFraction, second, fraction, afterDate, marked]

theorem length_afterDate {date : CivilDate} {hour minute second millis : Nat}
    (month : date.month < 100) (day : date.day < 100)
    (time : hour < 100 ∧ minute < 100 ∧ second < 100) (fraction : millis < 1000) :
    (afterDate date hour minute second millis).length = 20 := by
  simp only [afterDate, List.length_append, List.length_singleton]
  rw [length_marked _ (by decide) month, length_marked _ (by decide) day,
    length_marked _ (by decide) time.1, length_marked _ (by decide) time.2.1,
    length_marked _ (by decide) time.2.2, length_marked _ (by decide) fraction]

theorem afterDate_inj {a b : CivilDate}
    {hour minute second millis hour' minute' second' millis' : Nat}
    (ha : a.month < 100 ∧ a.day < 100) (hb : b.month < 100 ∧ b.day < 100)
    (time : hour < 100 ∧ minute < 100 ∧ second < 100)
    (time' : hour' < 100 ∧ minute' < 100 ∧ second' < 100)
    (fraction : millis < 1000) (fraction' : millis' < 1000)
    (h : afterDate a hour minute second millis = afterDate b hour' minute' second' millis') :
    (a.month = b.month ∧ a.day = b.day) ∧
      (hour = hour' ∧ minute = minute' ∧ second = second') ∧ millis = millis' := by
  obtain ⟨month, h⟩ := marked_append_inj (by decide) ha.1 hb.1 h
  obtain ⟨day, h⟩ := marked_append_inj (by decide) ha.2 hb.2 h
  obtain ⟨hour, h⟩ := marked_append_inj (by decide) time.1 time'.1 h
  obtain ⟨minute, h⟩ := marked_append_inj (by decide) time.2.1 time'.2.1 h
  obtain ⟨second, h⟩ := marked_append_inj (by decide) time.2.2 time'.2.2 h
  obtain ⟨fraction, -⟩ := marked_append_inj (by decide) fraction fraction' h
  exact ⟨⟨month, day⟩, ⟨hour, minute, second⟩, fraction⟩

end DateText

/-! ## Instants of one text -/

/-- A leap second comes after the last second of a minute, and no second has more than one of
nanoseconds but that one. -/
def Instant.Regular (t : Instant) : Prop :=
  t.nanos < 1000000000 ∨ t.nanos < 2000000000 ∧ t.seconds % 60 = 59

theorem Instant.Regular.nanos_lt {t : Instant} (h : t.Regular) : t.nanos < 2000000000 := by
  rcases h with steady | leap
  · exact steady.trans (by decide)
  · exact leap.1

/-- What a regular instant shows: its nanoseconds without those of a leap second, which is shown as
one more than the second before it. -/
theorem Instant.Regular.exists_leap {t : Instant} (h : t.Regular) :
    ∃ leap nanos, t.nanos = leap * 1000000000 + nanos ∧ nanos < 1000000000 ∧
      (leap = 0 ∨ leap = 1 ∧ t.seconds % 60 = 59) := by
  rcases h with steady | ⟨within, last⟩
  · exact ⟨0, t.nanos, by omega, steady, .inl rfl⟩
  · by_cases steady : t.nanos < 1000000000
    · exact ⟨0, t.nanos, by omega, steady, .inl rfl⟩
    · exact ⟨1, t.nanos - 1000000000, by omega, by omega, .inr ⟨rfl, last⟩⟩

/-- Two regular instants have one text exactly if they are of one millisecond of one second. -/
theorem DateText.millisZulu_inj {t u : Instant} (ht : t.Regular) (hu : u.Regular) :
    millisZulu t = millisZulu u ↔
      t.seconds = u.seconds ∧ t.nanos / 1000000 = u.nanos / 1000000 := by
  obtain ⟨leap, nanos, shown, below, leaps⟩ := ht.exists_leap
  obtain ⟨leap', nanos', shown', below', leaps'⟩ := hu.exists_leap
  have dates : ∀ t : Instant, t.date.month < 100 ∧ t.date.day < 100 := by
    intro t
    have := dateOfDay_month_day (t.seconds / 86400)
    rw [Instant.date]
    omega
  obtain ⟨ofDay, hday, time⟩ : ∃ ofDay, (t.seconds % 86400).toNat = ofDay ∧
      (t.seconds % 86400 = ofDay ∧ ofDay < 86400) := ⟨_, rfl, by omega⟩
  obtain ⟨ofDay', hday', time'⟩ : ∃ ofDay, (u.seconds % 86400).toNat = ofDay ∧
      (u.seconds % 86400 = ofDay ∧ ofDay < 86400) := ⟨_, rfl, by omega⟩
  have bounds : ofDay / 3600 < 100 ∧ ofDay / 60 % 60 < 100 ∧ ofDay % 60 + leap < 100 := by omega
  have bounds' : ofDay' / 3600 < 100 ∧ ofDay' / 60 % 60 < 100 ∧ ofDay' % 60 + leap' < 100 := by
    omega
  rw [← String.toList_inj, toList_millisZulu_eq shown (by omega) below,
    toList_millisZulu_eq shown' (by omega) below', hday, hday']
  constructor
  · intro same
    obtain ⟨year, rest⟩ := List.append_inj' same (by
      rw [length_afterDate (dates t).1 (dates t).2 bounds (by omega),
        length_afterDate (dates u).1 (dates u).2 bounds' (by omega)])
    obtain ⟨⟨month, day⟩, ⟨hour, minute, second⟩, fraction⟩ :=
      afterDate_inj (dates t) (dates u) bounds bounds' (by omega) (by omega) rest
    have date : t.date = u.date := by
      rw [CivilDate.mk.injEq]
      exact ⟨writeYear_inj year, month, day⟩
    have days : t.seconds / 86400 = u.seconds / 86400 := dateOfDay_inj.1 date
    -- second 60 is shown in leap seconds only
    have leap : leap = leap' := by omega
    omega
  · rintro ⟨seconds, fractions⟩
    have leap : leap = leap' := by omega
    have day : ofDay = ofDay' := by omega
    have millis : nanos / 1000000 = nanos' / 1000000 := by omega
    rw [Instant.date, Instant.date, seconds, leap, day, millis]

end QueryForms
