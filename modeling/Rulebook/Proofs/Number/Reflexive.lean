import Rulebook.Number.Read

/-!
# Doubles that equal themselves

Doubles are compared as numbers, so NaN differs from itself and the two zeros are equal. No literal
of a source denotes NaN.

## Main definitions

* `unpacked`: a double as its parts
* `represented?`: the number that a double stands for

## Main results

* `beq_self_of_unpacked`: a double that is not NaN equals itself
* `beq_self_eq_not_isNaN`: and NaN does not
* `beq_self_toFloat`, `beq_self_of_readDecimal?`: literals denote doubles that equal themselves
* `float_beq_iff`: doubles are equal if they stand for the same number
-/

namespace Rulebook

open Float.Model (UnpackedFloat)
open Float.Model.Format (binary64)

/-! ## Unpacked doubles -/

section Unpacked

/-- A double as its parts. -/
def unpacked (x : Float) : UnpackedFloat :=
  x.toModel.unpack

theorem compare_self {f : UnpackedFloat} (h : f ≠ .notANumber) : f.compare f = some .eq := by
  cases f with
  | notANumber => exact absurd rfl h
  | infinity s => cases s <;> rfl
  | zero s => rfl
  | finite s m e hm =>
    unfold UnpackedFloat.compare
    cases s <;> simp [Std.ReflCmp.compare_self]

/-- A double that is not NaN equals itself. -/
theorem beq_self_of_unpacked {x : Float} (h : unpacked x ≠ .notANumber) : x == x := by
  show (unpacked x).beq (unpacked x) = true
  unfold UnpackedFloat.beq
  rw [compare_self h]
  rfl

theorem beq_self_eq_not_isNaN (x : Float) : (x == x) = !x.isNaN := by
  show (unpacked x).beq (unpacked x) = !(unpacked x).isNaN
  by_cases h : unpacked x = .notANumber
  · rw [h]
    rfl
  · unfold UnpackedFloat.beq
    rw [compare_self h]
    generalize unpacked x = f at h
    cases f with
    | notANumber => exact absurd rfl h
    | _ => rfl

theorem isNaN_of_isFinite {x : Float} (h : x.isFinite = true) : x.isNaN = false := by
  have hunpacked : (unpacked x).isFinite = true := h
  show (unpacked x).isNaN = false
  generalize unpacked x = f at hunpacked
  cases f with
  | notANumber => cases hunpacked
  | _ => rfl

theorem unpack_eq_notANumber {b : BitVec binary64.numBits}
    (h : UnpackedFloat.unpack binary64 b = .notANumber) :
    UnpackedFloat.unpackExponent b = -1#11 ∧ UnpackedFloat.unpackMantissa b ≠ 0#52 := by
  unfold UnpackedFloat.unpack at h
  extract_lets mantissa exponent at h
  by_cases he : exponent = -1#11
  · rw [if_pos he] at h
    refine ⟨he, fun hm => ?_⟩
    rw [if_pos hm] at h
    cases h
  · rw [if_neg he] at h
    by_cases hzero : exponent = 0#11
    · rw [if_pos hzero] at h
      by_cases hm : mantissa = 0#52
      · rw [dif_pos hm] at h
        cases h
      · rw [dif_neg hm] at h
        cases h
    · rw [if_neg hzero] at h
      cases h

/-- Packing makes NaN of nothing else. -/
theorem unpack_pack_ne {f : UnpackedFloat} (h : f ≠ .notANumber) :
    UnpackedFloat.unpack binary64 (UnpackedFloat.pack binary64 f) ≠ .notANumber := by
  intro hnan
  obtain ⟨he, hm⟩ := unpack_eq_notANumber hnan
  unfold UnpackedFloat.pack at he hm
  cases f with
  | notANumber => exact h rfl
  | infinity s => simp [UnpackedFloat.packedInfinity] at hm
  | zero s => simp [UnpackedFloat.packedZero] at he
  | finite s m e hpos =>
    dsimp only at he hm
    split at he
    · next hbig =>
      rw [if_pos hbig] at hm
      simp [UnpackedFloat.packedInfinity] at hm
    · -- The exponent of NaN is packed for infinities only.
      next hsmall =>
      split at he
      · rw [UnpackedFloat.unpackExponent_packComponents] at he
        have := congrArg BitVec.toNat he
        simp at this hsmall
        omega
      · simp at he

/-- A double made from its parts is not NaN, unless the parts are those of NaN. -/
theorem unpacked_pack_ne {f : UnpackedFloat} (h : f ≠ .notANumber) :
    unpacked (.ofModel (.pack f)) ≠ .notANumber :=
  unpack_pack_ne h

theorem zero_or_finite_ne (s : UnpackedFloat.Sign) (m : Nat) (e : Int) :
    (if h : m = 0 then UnpackedFloat.zero s
      else UnpackedFloat.finite s m e (Nat.pos_of_ne_zero h)) ≠ .notANumber := by
  by_cases h : m = 0
  · rw [dif_pos h]
    rintro ⟨⟩
  · rw [dif_neg h]
    rintro ⟨⟩

theorem roundWithAccuracy_ne (s : UnpackedFloat.Sign) (m : Nat) (e : Int)
    (a : UnpackedFloat.Accuracy) :
    UnpackedFloat.roundWithAccuracy binary64 s m e a ≠ .notANumber :=
  zero_or_finite_ne s _ _

theorem ofNat_ne (n : Nat) : UnpackedFloat.ofNat binary64 n ≠ .notANumber := by
  unfold UnpackedFloat.ofNat UnpackedFloat.ofInt UnpackedFloat.normalize UnpackedFloat.round
  split
  · exact roundWithAccuracy_ne _ _ _ _
  · nofun
  · exact roundWithAccuracy_ne _ _ _ _

/-- Whether a double has a mantissa and an exponent. -/
def IsFinite (f : UnpackedFloat) : Prop :=
  ∃ s m e h, f = .finite s m e h

instance : DecidablePred IsFinite
  | .finite s m e h => .isTrue ⟨s, m, e, h, rfl⟩
  | .infinity _ | .zero _ | .notANumber => .isFalse nofun

theorem mul_ne {f g : UnpackedFloat} (hf : f ≠ .notANumber) (hg : IsFinite g) :
    UnpackedFloat.mul binary64 f g ≠ .notANumber := by
  obtain ⟨s, m, e, h, rfl⟩ := hg
  cases f with
  | notANumber => exact absurd rfl hf
  | infinity => nofun
  | zero => nofun
  | finite => exact roundWithAccuracy_ne _ _ _ _

theorem div_ne {f g : UnpackedFloat} (hf : f ≠ .notANumber) (hg : IsFinite g) :
    UnpackedFloat.div binary64 f g ≠ .notANumber := by
  obtain ⟨s, m, e, h, rfl⟩ := hg
  cases f with
  | notANumber => exact absurd rfl hf
  | infinity => nofun
  | zero => nofun
  | finite => exact roundWithAccuracy_ne _ _ _ _

theorem ite_ne {c : Prop} [Decidable c] {f g : UnpackedFloat} (hf : f ≠ .notANumber)
    (hg : g ≠ .notANumber) : (if c then f else g) ≠ .notANumber := by
  by_cases h : c
  · rwa [if_pos h]
  · rwa [if_neg h]

theorem ofScientific_ne (m : Nat) (e : Int) :
    UnpackedFloat.ofScientific binary64 m e ≠ .notANumber := by
  unfold UnpackedFloat.ofScientific
  by_cases hm : m = 0
  · rw [dif_pos hm]
    rintro ⟨⟩
  · rw [dif_neg hm]
    refine ite_ne (by rintro ⟨⟩) (ite_ne (by rintro ⟨⟩) (ite_ne ?_ ?_))
    · exact mul_ne (by rintro ⟨⟩) ⟨_, _, _, _, rfl⟩
    · exact div_ne (by rintro ⟨⟩) ⟨_, _, _, _, rfl⟩

end Unpacked

/-! ## Literals -/

section Literals

theorem unpacked_toFloat_ne (n : UInt64) : unpacked n.toFloat ≠ .notANumber :=
  unpacked_pack_ne (ofNat_ne n.toNat)

/-- A whole number denotes a double that equals itself. -/
theorem beq_self_toFloat (n : UInt64) : n.toFloat == n.toFloat :=
  beq_self_of_unpacked (unpacked_toFloat_ne n)

/-- The powers of ten that doubles hold exactly are finite. -/
theorem isFinite_powersOfTen :
    ∀ i : Fin 23, IsFinite (unpacked Float.exactlyRepresentablePowersOfTen[i]) := by
  decide +kernel

theorem unpacked_ofScientific_ne (m : Nat) (negative : Bool) (e : Nat) :
    unpacked (Float.ofScientific m negative e) ≠ .notANumber := by
  unfold Float.ofScientific
  split
  · -- Small powers of ten are doubles, and one product or quotient is enough.
    next h =>
    have hten := isFinite_powersOfTen ⟨e, by omega⟩
    cases negative with
    | true => exact unpacked_pack_ne (div_ne (unpacked_toFloat_ne _) hten)
    | false => exact unpacked_pack_ne (mul_ne (unpacked_toFloat_ne _) hten)
  · exact unpacked_pack_ne (ofScientific_ne _ _)

theorem unpacked_decimal_ne (d : DecimalText) : unpacked d.toFloat ≠ .notANumber := by
  have hzero : unpacked (0.0 : Float) ≠ .notANumber := unpacked_ofScientific_ne 0 true 1
  have hinfinity : unpacked (1.0 / 0.0 : Float) = .infinity .positive := by rfl
  unfold DecimalText.toFloat
  dsimp only
  split
  · exact hzero
  · split
    · rw [hinfinity]
      nofun
    · split
      · exact hzero
      · exact unpacked_ofScientific_ne _ _ _

/-- A decimal literal denotes a double that equals itself. -/
theorem beq_self_of_readDecimal? {text : List Char} {x : Float} (h : readDecimal? text = some x) :
    x == x := by
  obtain ⟨d, -, rfl⟩ := Option.map_eq_some_iff.1 h
  exact beq_self_of_unpacked (unpacked_decimal_ne d)

end Literals

/-! ## Numbers -/

section Numbers

/-- The number that the parts of a double stand for: NaN is none, and there is one zero. -/
def represented? : UnpackedFloat → Option UnpackedFloat
  | .notANumber => none
  | .zero _ => some (.zero .positive)
  | f => some f

theorem exists_some_eq_iff {r t : UnpackedFloat} :
    (∃ q, some r = some q ∧ some t = some q) ↔ t = r := by
  constructor
  · rintro ⟨_, ⟨⟩, h⟩
    exact Option.some.inj h
  · rintro rfl
    exact ⟨t, rfl, rfl⟩

/-- Different numbers, and a comparison that says so. -/
theorem iff_of_apart {o : Option Ordering} {r t : UnpackedFloat} (h : o ≠ some .eq)
    (hne : t ≠ r) : o = some .eq ↔ ∃ q, some r = some q ∧ some t = some q :=
  iff_of_false h fun heq => hne (exists_some_eq_iff.1 heq)

theorem compare_eq_some_eq_iff {f g : UnpackedFloat} :
    f.compare g = some .eq ↔ ∃ r, represented? f = some r ∧ represented? g = some r := by
  have hsign (s t : UnpackedFloat.Sign) : compare s t = .eq ↔ t = s := by
    cases s <;> cases t <;> simp [compare]
  -- Finite numbers are compared by their exponents, then by their mantissas.
  have hfinite (m n : Nat) (d e : Int) :
      (compare d e).then (compare m n) = .eq ↔ n = m ∧ e = d := by
    rw [Ordering.then_eq_eq, Std.LawfulEqCmp.compare_eq_iff_eq, Std.LawfulEqCmp.compare_eq_iff_eq]
    omega
  unfold UnpackedFloat.compare represented?
  cases f with
  | notANumber => exact iff_of_false (by rintro ⟨⟩) (by rintro ⟨_, ⟨⟩, _⟩)
  | infinity s =>
    cases g with
    | notANumber => exact iff_of_false (by rintro ⟨⟩) (by rintro ⟨_, _, ⟨⟩⟩)
    | infinity t =>
      rw [exists_some_eq_iff, UnpackedFloat.infinity.injEq, Option.some.injEq]
      exact hsign s t
    | zero t => cases s <;> exact iff_of_apart (by rintro ⟨⟩) (by rintro ⟨⟩)
    | finite t n e hn => cases s <;> exact iff_of_apart (by rintro ⟨⟩) (by rintro ⟨⟩)
  | zero s =>
    cases g with
    | notANumber => exact iff_of_false (by rintro ⟨⟩) (by rintro ⟨_, _, ⟨⟩⟩)
    | infinity t => cases t <;> exact iff_of_apart (by rintro ⟨⟩) (by rintro ⟨⟩)
    | zero t => exact iff_of_true rfl (exists_some_eq_iff.2 rfl)
    | finite t n e hn => cases t <;> exact iff_of_apart (by rintro ⟨⟩) (by rintro ⟨⟩)
  | finite s m d hm =>
    cases g with
    | notANumber =>
      exact iff_of_false (by cases s <;> rintro ⟨⟩) (by rintro ⟨_, _, ⟨⟩⟩)
    | infinity t => cases t <;> exact iff_of_apart (by rintro ⟨⟩) (by rintro ⟨⟩)
    | zero t => cases s <;> exact iff_of_apart (by rintro ⟨⟩) (by rintro ⟨⟩)
    | finite t n e hn =>
      rw [exists_some_eq_iff, UnpackedFloat.finite.injEq]
      cases s <;> cases t <;> dsimp only
      · rw [Option.some.injEq, Ordering.swap_eq_eq, hfinite, and_iff_right rfl]
      · exact iff_of_false (by rintro ⟨⟩) (by rintro ⟨⟨⟩, -⟩)
      · exact iff_of_false (by rintro ⟨⟩) (by rintro ⟨⟨⟩, -⟩)
      · rw [Option.some.injEq, hfinite, and_iff_right rfl]

/-- Two doubles are equal if they stand for the same number. -/
theorem float_beq_iff {x y : Float} :
    x == y ↔ ∃ r, represented? (unpacked x) = some r ∧ represented? (unpacked y) = some r := by
  rw [← compare_eq_some_eq_iff]
  show (unpacked x).beq (unpacked y) = true ↔ _
  unfold UnpackedFloat.beq
  exact beq_iff_eq

/-- Equality of doubles is symmetric and transitive. It is not reflexive. -/
instance instPartialEquivBEqFloat : PartialEquivBEq Float where
  symm := by
    intro x y hxy
    obtain ⟨r, hx, hy⟩ := float_beq_iff.1 hxy
    exact float_beq_iff.2 ⟨r, hy, hx⟩
  trans := by
    intro x y z hxy hyz
    obtain ⟨r, hx, hy⟩ := float_beq_iff.1 hxy
    obtain ⟨r', hy', hz⟩ := float_beq_iff.1 hyz
    obtain rfl : r = r' := Option.some.inj (hy.symm.trans hy')
    exact float_beq_iff.2 ⟨r, hx, hz⟩

end Numbers

end Rulebook
