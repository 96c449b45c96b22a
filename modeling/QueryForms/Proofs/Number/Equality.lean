import QueryForms.Proofs.Number.Rounding

/-!
# Equality of floats

Equal floats are the same float or zeros of two signs (`eq_or_zeros_of_beq`), if they are finite, and
a finite float equals itself (`beq_self_of_isFinite`).
-/

namespace QueryForms

open Float.Model Float.Model.UnpackedFloat

variable {x y : Float}

/-- The bits of the exponent are all set exactly in floats that are not finite. -/
theorem exists_ofFloat?_of_isFinite (finite : x.isFinite = true) :
    ∃ d, Dyadic.ofFloat? x = some d := by
  cases found : Dyadic.ofFloat? x with
  | some d => exact ⟨d, rfl⟩
  | none =>
    have special : x.toBits.toNat / 2 ^ 52 % 2 ^ 11 = 2047 := by
      simp only [Dyadic.ofFloat?] at found
      split at found
      · next special => exact special
      · split at found <;> cases found
    have exponent : @unpackExponent Format.binary64 x.toModel.toBits.toBitVec = -1#11 := by
      refine BitVec.eq_of_toNat_eq ?_
      rw [unpackExponent, BitVec.toNat_cast, BitVec.extractLsb_toNat, Nat.shiftRight_eq_div_pow]
      exact special
    have unpacked : x.toModel.unpack.isFinite = false := by
      rw [Float.Model.unpack, UnpackedFloat.unpack]
      simp only [exponent]
      split
      · split <;> rfl
      · next other => exact absurd trivial other
    exact absurd (finite.symm.trans unpacked) Bool.noConfusion

/-- Finite floats that are equal are the same, or zeros. -/
theorem eq_or_zeros_of_beq (finite : x.isFinite = true) (finite' : y.isFinite = true)
    (equal : (x == y) = true) : x = y ∨ (x == 0) = true ∧ (y == 0) = true := by
  obtain ⟨d, found⟩ := exists_ofFloat?_of_isFinite finite
  obtain ⟨d', found'⟩ := exists_ofFloat?_of_isFinite finite'
  have hx : rationalOf? x = some d.toRat := congrArg (Option.map Dyadic.toRat) found
  have hy : rationalOf? y = some d'.toRat := congrArg (Option.map Dyadic.toRat) found'
  have same : d.toRat = d'.toRat := (beq_iff hx hy).1 equal
  by_cases zero : d.toRat = 0
  · exact .inr ⟨(beq_iff hx rationalOf?_zero).2 zero,
      (beq_iff hy rationalOf?_zero).2 (same ▸ zero)⟩
  · exact .inl (eq_of_rationalOf? hx (same ▸ hy) zero)

theorem beq_self_of_isFinite (finite : x.isFinite = true) : (x == x) = true := by
  obtain ⟨d, found⟩ := exists_ofFloat?_of_isFinite finite
  have hx : rationalOf? x = some d.toRat := congrArg (Option.map Dyadic.toRat) found
  exact (beq_iff hx hx).2 rfl

/-- Equal floats are both finite or both not. -/
theorem isFinite_eq_of_beq (equal : (x == y) = true) : x.isFinite = y.isFinite := by
  have forms : x.toModel.unpack.beq y.toModel.unpack = true := equal
  show x.toModel.unpack.isFinite = y.toModel.unpack.isFinite
  generalize x.toModel.unpack = u at forms
  generalize y.toModel.unpack = v at forms
  cases u with
  | infinity s => cases v <;> cases s <;> first | rfl | cases forms
  | zero s => cases v with
    | infinity t => cases t <;> cases forms
    | _ => first | rfl | cases forms
  | finite s m e positive => cases v with
    | infinity t => cases s <;> cases t <;> cases forms
    | _ => first | rfl | cases forms
  | notANumber => cases forms

end QueryForms
