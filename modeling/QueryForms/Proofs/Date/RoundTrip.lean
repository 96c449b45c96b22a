import QueryForms.Arithmetic
import QueryForms.PlainOperators
import QueryForms.Proofs.Date.Reading
import QueryForms.Sql.Operand

/-!
# Dates read back

The text that both backends write for a date shows it to the millisecond, and a leap second as
second 60. With a year of four digits it is read back as a date that is equal to the first; with any
other year it has a sign, and no reader takes it (`dates_read_back`).
-/

namespace QueryForms

/-! ## Texts of instants -/

namespace DateText

theorem exists_leap {n : Nat} (h : n < 2000000000) :
    ∃ leap nanos, n = leap * 1000000000 + nanos ∧ leap < 2 ∧ nanos < 1000000000 :=
  ⟨n / 1000000000, n % 1000000000, by omega⟩

/-- A second that is shown has the milliseconds that it stands for; a sixtieth one is read as a leap
second. -/
theorem millis_shown {second leap : Nat} (hsecond : second < 60) (hleap : leap < 2) (nanos : Nat) :
    min (second + leap) 59 * 1000
        + (nanos / 1000000 * 1000000 + if second + leap = 60 then 1000000000 else 0) / 1000000
      = second * 1000 + (leap * 1000000000 + nanos) / 1000000 := by
  split <;> omega

/-- An instant of a year of four digits is read back to the millisecond. -/
theorem readInstant?_millisZulu {t : Instant} (hyear : 0 ≤ t.date.year ∧ t.date.year ≤ 9999)
    (hnanos : t.nanos < 2000000000) :
    ∃ u, readInstant? (millisZulu t).toList = some u ∧ u.millis = t.millis := by
  obtain ⟨leap, nanos, shown, hleap, hnanos⟩ := exists_leap hnanos
  obtain ⟨ofDay, hday, within⟩ : ∃ ofDay, (t.seconds % 86400).toNat = ofDay ∧
      (t.seconds % 86400 = ofDay ∧ ofDay < 86400) := ⟨_, rfl, by omega⟩
  have days : t.date.dayNumber = t.seconds / 86400 := dayNumber_dateOfDay _
  have real : t.date.exists? = true := exists?_dateOfDay _
  have time : ofDay / 3600 ≤ 23 ∧ ofDay / 60 % 60 ≤ 59 ∧ ofDay % 60 + leap ≤ 60 := by omega
  have fraction : nanos / 1000000 < 1000 := by omega
  have read := readInstant?_afterDate hyear real time fraction
  rw [← hday, ← toList_millisZulu_eq shown hleap hnanos, hday, days] at read
  refine ⟨_, read, ?_⟩
  have millis := millis_shown (Nat.mod_lt ofDay (by decide)) hleap nanos
  rw [← shown] at millis
  simp only [Instant.millis]
  omega

/-- The text of an instant of any other year is refused. -/
theorem read?_millisZulu_of_year {t : Instant} (hyear : ¬(0 ≤ t.date.year ∧ t.date.year ≤ 9999))
    (hnanos : t.nanos < 2000000000) : read? (millisZulu t) = none := by
  obtain ⟨leap, nanos, shown, hleap, hnanos⟩ := exists_leap hnanos
  obtain ⟨sign, hs, text⟩ : ∃ sign : Char, (sign = '-' ∨ sign = '+') ∧
      (writeYear t.date.year).toList = sign :: (padded 4 t.date.year.natAbs).toList :=
    ⟨_, by split <;> simp, toList_writeYear_of_outside hyear⟩
  have unsigned : digit? sign = none := by rcases hs with rfl | rfl <;> rfl
  have real : t.date.exists? = true := exists?_dateOfDay _
  rw [read?, toList_millisZulu_eq shown hleap hnanos, text, List.cons_append,
    readInstant?_of_sign unsigned, readDay?_afterDate hs (padded_ne_nil _ _)
      (digits_padded _ _) (CivilDate.lt_of_exists? real)]
  rfl

end DateText

/-! ## Instants that there are -/

namespace Instant

/-- The instants that an expression comes by: those that texts name, and those of a number of
milliseconds, be it an operand (`made_of_date`) or the sum of a date and a number
(`made_of_moveDate`). -/
inductive Made : Instant → Prop
  | ofText {text : String} {t : Instant} : DateText.read? text = some t → Made t
  | ofMillis {n : Int} {t : Instant} : Instant.ofMillis? n = some t → Made t

theorem nanos_of_ofMillis? {n : Int} {t : Instant} (h : Instant.ofMillis? n = some t) :
    t.nanos < 1000000000 := by
  rw [ofMillis?] at h
  split at h
  · cases h
    dsimp only
    omega
  · cases h

theorem Made.regular {t : Instant} (h : t.Made) : t.Regular := by
  cases h with
  | ofText read => exact DateText.regular_of_read? read
  | ofMillis counted => exact .inl (nanos_of_ofMillis? counted)

end Instant

/-! ## Dates -/

/-- The date of anything that is no date itself is made from it. -/
theorem PlainOperators.made_of_date {source : Value} {t : Instant} (other : source.kind ≠ .date)
    (h : date [source] = .ok (.date t)) : t.Made := by
  simp only [date, operand, List.getElem?_cons_zero, Option.getD_some] at h
  split at h
  · cases h
  · exact absurd rfl other
  · split at h
    · next counted => cases h; exact .ofMillis counted
    · cases h
  · split at h
    · next counted => cases h; exact .ofMillis counted
    · cases h
  · split at h
    · next read => cases h; exact .ofText read
    · cases h
  · cases h

/-- A date that is moved is made from its milliseconds. -/
theorem made_of_moveDate {s t : Instant} {millis : Int} (h : moveDate s millis = .ok (.date t)) :
    t.Made := by
  rw [moveDate] at h
  split at h
  · next counted => cases h; exact .ofMillis counted
  · cases h

/-- Dates of one millisecond are equal. -/
theorem looseEq_date {t u : Instant} (h : t.millis = u.millis) :
    looseEq (.date t) (.date u) = true := by
  simp [looseEq, sameMillis, Value.epochMillis?, h]

/-- The text of a date is read back as a date equal to it if four digits show its year, and refused
if not. -/
theorem dates_read_back {t : Instant} (made : t.Made) :
    ∃ text, (Value.date t).toJson = .string text ∧
      (Value.date t).toSql = .ok (.ofText ("'" ++ text ++ "'::TIMESTAMPTZ")) ∧
      (0 ≤ t.date.year ∧ t.date.year ≤ 9999 → ∃ u,
        PlainOperators.date [.string text] = .ok (.date u) ∧
          looseEq (.date u) (.date t) = true) ∧
      (¬(0 ≤ t.date.year ∧ t.date.year ≤ 9999) →
        PlainOperators.date [.string text] = fault (.dateText text)) := by
  refine ⟨DateText.millisZulu t, rfl, rfl, fun year => ?_, fun year => ?_⟩
  · obtain ⟨u, read, same⟩ := DateText.readInstant?_millisZulu year made.regular.nanos_lt
    refine ⟨u, ?_, looseEq_date same⟩
    simp [PlainOperators.date, PlainOperators.operand, DateText.read?, read]
  · have refused := DateText.read?_millisZulu_of_year year made.regular.nanos_lt
    simp [PlainOperators.date, PlainOperators.operand, refused]

/-- A leap second of another offset, with a fraction that its text cuts off. -/
theorem leap_second_reads_back :
    ∃ t u, PlainOperators.date [.string "2016-12-31T23:59:60.9996+01:00"] = .ok (.date t) ∧
      (Value.date t).toJson = .string "2016-12-31T22:59:60.999Z" ∧
      PlainOperators.date [.string "2016-12-31T22:59:60.999Z"] = .ok (.date u) ∧
      looseEq (.date u) (.date t) = true := by
  have named : DateText.read? "2016-12-31T23:59:60.9996+01:00"
      = some ⟨1483225199, 1999600000⟩ := by decide +kernel
  have dated : PlainOperators.date [.string "2016-12-31T23:59:60.9996+01:00"]
      = .ok (.date ⟨1483225199, 1999600000⟩) := by
    simp [PlainOperators.date, PlainOperators.operand, named]
  have written : DateText.millisZulu ⟨1483225199, 1999600000⟩ = "2016-12-31T22:59:60.999Z" := by
    decide +kernel
  have made := PlainOperators.made_of_date (by decide) dated
  obtain ⟨text, shown, -, read, -⟩ := dates_read_back made
  obtain rfl : "2016-12-31T22:59:60.999Z" = text :=
    written.symm.trans (Json.string.inj shown)
  obtain ⟨u, back, same⟩ := read (by decide +kernel)
  exact ⟨_, u, dated, shown, back, same⟩

/-- The first moment of the year 10000 is counted in milliseconds and written with a sign, and then
not read. -/
theorem five_digit_year :
    PlainOperators.date [.integer 253402300800000] = .ok (.date ⟨253402300800, 0⟩) ∧
      (Value.date ⟨253402300800, 0⟩).toJson = .string "+10000-01-01T00:00:00.000Z" ∧
      PlainOperators.date [.string "+10000-01-01T00:00:00.000Z"]
        = fault (.dateText "+10000-01-01T00:00:00.000Z") :=
  ⟨by rfl, by rfl, by rfl⟩

end QueryForms
