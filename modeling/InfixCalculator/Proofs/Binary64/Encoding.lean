import Mathlib
import InfixCalculator.Proofs.Binary64.Rounding

/-! Doubles and their bits. A double is unpacked into its sign and the significand and place of its
magnitude bits, and packed from them again. -/

namespace InfixCalculator.Number.Binary64
open Float.Model (Format UnpackedFloat)
open Float.Model.UnpackedFloat (Sign packComponents unpackExponent_packComponents
  unpackMantissa_packComponents unpackSign_packComponents
  packComponents_unpackSign_unpackExponent_unpackMantissa)

/-! ## Fields -/

/-- The sign of a double, also of a zero. -/
def signOf (v : Float) : Sign := if isNegative v then .negative else .positive

theorem toNat_packComponents (s : Sign) (e : BitVec 11) (m : BitVec 52) :
    (packComponents Format.binary64 s e m).toNat =
      s.toBitVec.toNat * twoTo 63 + (e.toNat * twoTo 52 + m.toNat) := by
  have h63 : twoTo 63 = 9223372036854775808 := rfl
  have h52 : twoTo 52 = 4503599627370496 := rfl
  simp only [packComponents, BitVec.toNat_append]
  rw [← Nat.shiftLeft_add_eq_or_of_lt m.isLt, ← Nat.shiftLeft_add_eq_or_of_lt e.isLt]
  simp only [Nat.shiftLeft_eq, h63, h52]
  omega

theorem toNat_append_one (m : BitVec 52) : (1#1 ++ m).toNat = twoTo 52 + m.toNat := by
  rw [BitVec.toNat_append, ← Nat.shiftLeft_add_eq_or_of_lt m.isLt]
  rfl

theorem exists_fields (v : Float) :
    ∃ s e m, v.toBits.toBitVec = packComponents Format.binary64 s e m :=
  ⟨_, _, _, (@packComponents_unpackSign_unpackExponent_unpackMantissa Format.binary64
    v.toBits.toBitVec).symm⟩

theorem magnitude_of_fields {v : Float} {s : Sign} {e : BitVec 11} {m : BitVec 52}
    (h : v.toBits.toBitVec = packComponents Format.binary64 s e m) :
    magnitude v = e.toNat * twoTo 52 + m.toNat ∧ signOf v = s := by
  have h63 : twoTo 63 = 9223372036854775808 := rfl
  have h52 : twoTo 52 = 4503599627370496 := rfl
  have he : e.toNat < 2048 := e.isLt
  have hm : m.toNat < 4503599627370496 := m.isLt
  have hbits : v.toBits.toNat = (packComponents Format.binary64 s e m).toNat :=
    congrArg BitVec.toNat h
  rw [toNat_packComponents, h63, h52] at hbits
  rw [magnitude, signOf, isNegative, hbits, h63, h52]
  cases s <;> simp [Sign.toBitVec] <;> omega

/-! ## Unpacking -/

/-- What a double is unpacked into. -/
inductive Unpacked (v : Float) : UnpackedFloat → Prop
  | notANumber : Binary64.infinity < magnitude v → Unpacked v .notANumber
  | infinity : magnitude v = Binary64.infinity → Unpacked v (.infinity (signOf v))
  | zero : magnitude v = 0 → Unpacked v (.zero (signOf v))
  | finite {p m : Nat} {e : Int} (hm : 0 < m) : e = p - 1074 → magnitude v < Binary64.infinity →
    Splits (magnitude v) p m → Unpacked v (.finite (signOf v) m e hm)

theorem unpacked (v : Float) : Unpacked v v.toModel.unpack := by
  have h52 : twoTo 52 = 4503599627370496 := rfl
  have h53 : twoTo 53 = 9007199254740992 := rfl
  have hinf : Binary64.infinity = 9218868437227405312 := rfl
  have hbias : ((Format.binary64.exponentBias : Nat) : Int) = 1023 := rfl
  obtain ⟨s, e, m, hb⟩ := exists_fields v
  obtain ⟨hmag, rfl⟩ := magnitude_of_fields hb
  have hunpack : v.toModel.unpack = UnpackedFloat.unpack Format.binary64
      (packComponents Format.binary64 (signOf v) e m) :=
    congrArg (UnpackedFloat.unpack Format.binary64) hb
  have he : e.toNat < 2048 := e.isLt
  have hm : m.toNat < 4503599627370496 := m.isLt
  have happend := toNat_append_one m
  rw [h52] at hmag happend
  simp only [hunpack, UnpackedFloat.unpack, unpackExponent_packComponents,
    unpackMantissa_packComponents, unpackSign_packComponents, Sign.ofBitVec_toBitVec,
    BitVec.toNat_eq]
  split
  next hones =>
    have hones : e.toNat = 2047 := hones
    split
    next hnone =>
      have hnone : m.toNat = 0 := hnone
      exact .infinity (by omega)
    next hsome =>
      have hsome : m.toNat ≠ 0 := hsome
      exact .notANumber (by omega)
  next hones =>
    have hones : e.toNat ≠ 2047 := hones
    split
    next hzero =>
      have hzero : e.toNat = 0 := hzero
      split
      next hnone =>
        have hnone : m.toNat = 0 := hnone
        exact .zero (by omega)
      next hsome =>
        exact .finite (p := 0) _ (by omega) (by omega) ⟨by omega, by omega, .inl rfl⟩
    next hnormal =>
      have hnormal : e.toNat ≠ 0 := hnormal
      obtain ⟨p, hp⟩ := Nat.exists_eq_succ_of_ne_zero hnormal
      have hplace : p * twoTo 52 = p * 4503599627370496 := congrArg (p * ·) h52
      exact .finite (p := p) _ (by omega) (by omega) ⟨by omega, by omega, .inr (by omega)⟩

/-! ## Packing -/

/-- The double that is packed from a rounded number. -/
def packed (u : UnpackedFloat) : Float := .ofModel (.pack u)

theorem packed_unpack (v : Float) : packed v.toModel.unpack = v := Float.ofBits_toBits v

theorem packed_zero (s : Sign) :
    magnitude (packed (.zero s)) = 0 ∧ signOf (packed (.zero s)) = s :=
  magnitude_of_fields (v := packed (.zero s)) rfl

theorem log2_eq_iff {m : Nat} (hm : 0 < m) (hlt : m < twoTo 53) :
    m.log2 + 1 = Format.binary64.mantissaBits ↔ twoTo 52 ≤ m := by
  have hne : m ≠ 0 := Nat.ne_of_gt hm
  have hle : 52 ≤ m.log2 ↔ twoTo 52 ≤ m := Nat.le_log2 hne
  have hlt : m.log2 < 53 := (Nat.log2_lt hne).mpr hlt
  have hbits : Format.binary64.mantissaBits = 53 := rfl
  omega

/-- A significand at a place is packed into its bits, up to infinity. -/
theorem packed_finite {s : Sign} {bits p m : Nat} {e : Int} {hm : 0 < m} (h : Splits bits p m)
    (he : e = p - 1074) :
    magnitude (packed (.finite s m e hm)) = min bits infinity ∧
      signOf (packed (.finite s m e hm)) = s := by
  have h52 : twoTo 52 = 4503599627370496 := rfl
  have h53 : twoTo 53 = 9007199254740992 := rfl
  have hinf : infinity = 9218868437227405312 := rfl
  have hbias : ((Format.binary64.exponentBias : Nat) : Int) = 1023 := rfl
  have hbiased : (e + Format.binary64.exponentBias + (52 : Nat)).toNat = p + 1 := by omega
  obtain ⟨hbits, hlt, hle⟩ := h
  have hlog := log2_eq_iff hm hlt
  rw [h52] at hbits
  have hpack : UnpackedFloat.pack Format.binary64 (.finite s m e hm) =
      if 2048 ≤ p + 2 then UnpackedFloat.packedInfinity Format.binary64 s
      else if twoTo 52 ≤ m then
        packComponents Format.binary64 s (BitVec.ofNat 11 (p + 1)) (BitVec.ofNat 52 m)
      else packComponents Format.binary64 s 0#11 (BitVec.ofNat 52 m) := by
    simp only [UnpackedFloat.pack, hbiased, hlog]
  by_cases hp : 2048 ≤ p + 2
  · rw [if_pos hp] at hpack
    obtain ⟨hmag, hsign⟩ := magnitude_of_fields (v := packed (.finite s m e hm)) hpack
    refine ⟨hmag.trans ?_, hsign⟩
    rw [Nat.min_eq_right (by omega)]
    rfl
  · rw [if_neg hp] at hpack
    by_cases hfull : twoTo 52 ≤ m
    · rw [if_pos hfull] at hpack
      obtain ⟨hmag, hsign⟩ := magnitude_of_fields (v := packed (.finite s m e hm)) hpack
      refine ⟨hmag.trans ?_, hsign⟩
      rw [BitVec.toNat_ofNat, BitVec.toNat_ofNat, Nat.min_eq_left (by omega), h52]
      omega
    · rw [if_neg hfull] at hpack
      obtain ⟨hmag, hsign⟩ := magnitude_of_fields (v := packed (.finite s m e hm)) hpack
      refine ⟨hmag.trans ?_, hsign⟩
      rw [BitVec.toNat_ofNat, BitVec.toNat_ofNat, Nat.min_eq_left (by omega), h52]
      omega

end InfixCalculator.Number.Binary64
