import LoxKit.Decimal.Notation

/-!
# The finite numbers of the format

A number that is finite and bears no sign is `m · 2^q` for just one mantissa and exponent of those
that numbers have (`Binary64.Canonical`), and these two tell the number
(`Binary64.parts_injective`).

A number is the bits that it was made of, as far as its sign goes, and rounding never sets the bit
of the sign.  So no numeral stands for a number that bears one (`Binary64.plain_readNumeral`).
-/
namespace LoxKit
namespace Binary64

/-- **Whether a number is of finite value.** -/
def isFinite (x : Float) : Bool :=
  match parts x with
  | .finite .. => true
  | _ => false

/-- **A number that is finite and bears no sign.** -/
def Plain (x : Float) : Prop := ∃ m q, parts x = .finite false m q

/-- **The mantissas and exponents that numbers have.** -/
structure Canonical (m : Nat) (q : Int) : Prop where
  mantissa_lt : m < 2 * hiddenBit
  least_le : leastExponent ≤ q
  le_greatest : q ≤ 971
  /-- A mantissa is of full width unless its exponent is the least. -/
  full : m < hiddenBit → q = leastExponent

theorem hiddenBit_eq : hiddenBit = 4503599627370496 := rfl

variable {x y : Float} {negative : Bool} {m n d : Nat} {q : Int} {b : UInt64}

/-! ## Numbers and their parts -/

theorem exists_parts (h : isFinite x) : ∃ negative m q, parts x = .finite negative m q := by
  unfold isFinite at h
  split at h
  · exact ⟨_, _, _, by assumption⟩
  · cases h

/-- The bits of a finite number, from its parts. -/
theorem bits_of_parts (h : parts x = .finite negative m q) :
    Canonical m q ∧ negative = (x.toBits.toNat / Nat.pow 2 63 == 1) ∧
      x.toBits.toNat % Nat.pow 2 63 = m + (q - leastExponent).toNat * hiddenBit := by
  unfold parts at h
  generalize x.toBits.toNat = n at h ⊢
  have hsplit : n % Nat.pow 2 63 = n / hiddenBit % 2048 * hiddenBit + n % hiddenBit := by
    rw [show Nat.pow 2 63 = 9223372036854775808 from rfl, hiddenBit_eq]
    omega
  have hfraction : n % hiddenBit < hiddenBit := Nat.mod_lt _ (by decide)
  have hscale : n / hiddenBit % 2048 < 2048 := Nat.mod_lt _ (by decide)
  rw [hsplit]
  dsimp only at h
  generalize n / hiddenBit % 2048 = scale at h hscale ⊢
  generalize n % hiddenBit = fraction at h hfraction ⊢
  by_cases htop : scale = 2047
  · rw [if_pos (by simpa using htop)] at h
    split at h <;> cases h
  rw [if_neg (by simpa using htop)] at h
  by_cases hleast : scale = 0
  · subst hleast
    cases h
    exact ⟨⟨by omega, Int.le_refl _, by decide, fun _ => rfl⟩, rfl, by simp⟩
  · rw [if_neg (by simpa using hleast)] at h
    cases h
    obtain ⟨k, rfl⟩ := Nat.exists_eq_succ_of_ne_zero hleast
    have hk : (leastExponent + (k.succ : Nat) - 1 - leastExponent).toNat = k := by omega
    have hexponent : leastExponent = -1074 := rfl
    rw [hk, Nat.succ_mul]
    exact ⟨⟨by omega, by omega, by omega, by omega⟩, rfl, by omega⟩

/-- Numbers of the same bits are the same. -/
theorem toBits_injective (h : x.toBits = y.toBits) : x = y := by
  obtain ⟨⟨_, _⟩⟩ := x
  obtain ⟨⟨_, _⟩⟩ := y
  cases h
  rfl

/-- **A finite number is known by its parts.** -/
theorem parts_injective (hx : parts x = .finite negative m q)
    (hy : parts y = .finite negative m q) : x = y := by
  obtain ⟨-, hnx, hmx⟩ := bits_of_parts hx
  obtain ⟨-, hny, hmy⟩ := bits_of_parts hy
  have hsign : x.toBits.toNat / Nat.pow 2 63 = y.toBits.toNat / Nat.pow 2 63 := by
    have hxlt := x.toBits.toNat_lt
    have hylt := y.toBits.toNat_lt
    have hsame := hnx.symm.trans hny
    rw [Bool.eq_iff_iff, beq_iff_eq, beq_iff_eq] at hsame
    rw [show Nat.pow 2 63 = 9223372036854775808 from rfl] at hsame ⊢
    omega
  refine toBits_injective (UInt64.toNat_inj.mp ?_)
  rw [← Nat.div_add_mod x.toBits.toNat (Nat.pow 2 63), hsign, hmx.trans hmy.symm, Nat.div_add_mod]

/-! ## Numerals bear no sign -/

section
open Float.Model Float.Model.UnpackedFloat

/-- A number taken apart that bears no sign. -/
def Unsigned : UnpackedFloat → Prop
  | .notANumber => True
  | .infinity s | .zero s | .finite s _ _ _ => s = .positive

theorem packComponents_lt (scale : BitVec 11) (fraction : BitVec 52) :
    (packComponents Format.binary64 .positive scale fraction).toNat < Nat.pow 2 63 := by
  unfold packComponents
  rw [BitVec.append_assoc, BitVec.toNat_cast, BitVec.toNat_append,
    show Sign.positive.toBitVec = 0#1 from rfl]
  have hlt : (scale ++ fraction).toNat < Nat.pow 2 63 := (scale ++ fraction).isLt
  simpa using hlt

theorem pack_lt {f : UnpackedFloat} (h : Unsigned f) :
    (UnpackedFloat.pack Format.binary64 f).toNat < Nat.pow 2 63 := by
  cases f with
  | notANumber => exact packComponents_lt _ _
  | infinity s | zero s =>
    cases h
    exact packComponents_lt _ _
  | finite s m e hm =>
    cases h
    unfold UnpackedFloat.pack
    dsimp only
    split
    · exact packComponents_lt _ _
    · split <;> exact packComponents_lt _ _

theorem unsigned_unpack (h : b.toNat < Nat.pow 2 63) :
    Unsigned (UnpackedFloat.unpack Format.binary64 b.toBitVec) := by
  have hsign : @unpackSign Format.binary64 b.toBitVec = 0#1 := by
    have hlt : b.toNat < 9223372036854775808 := h
    unfold unpackSign
    apply BitVec.eq_of_toNat_eq
    rw [BitVec.toNat_cast, BitVec.extractLsb_toNat]
    simp [Nat.shiftRight_eq_div_pow]
    omega
  have hpositive : Sign.ofBitVec (@unpackSign Format.binary64 b.toBitVec) =
      .positive := by
    rw [hsign]
    rfl
  delta UnpackedFloat.unpack
  -- the greatest exponent is that of the infinite, and of what is no number
  refine iteInduction (fun _ => iteInduction (fun _ => hpositive) fun _ => trivial) fun _ => ?_
  refine iteInduction (fun _ => ?_) fun _ => hpositive
  by_cases hzero : @unpackMantissa Format.binary64 b.toBitVec = 0#52
  · exact (dif_pos hzero).symm ▸ hpositive
  · exact (dif_neg hzero).symm ▸ hpositive

/-- A number made of bits without a sign has none. -/
theorem toBits_ofBits_lt (h : b.toNat < Nat.pow 2 63) :
    (Float.ofBits b).toBits.toNat < Nat.pow 2 63 := pack_lt (unsigned_unpack h)

end

theorem nearestBits_lt (n d : Nat) : nearestBits n d < Nat.pow 2 63 := by
  unfold nearestBits
  split
  · decide
  · exact Nat.lt_of_le_of_lt (Nat.min_le_left _ _) (by decide)

/-- **A number that a fraction is rounded to bears no sign.** -/
theorem plain_nearest (h : isFinite (nearest n d)) : Plain (nearest n d) := by
  obtain ⟨negative, m, q, hparts⟩ := exists_parts h
  obtain ⟨-, hnegative, -⟩ := bits_of_parts hparts
  have hbits : (UInt64.ofNat (nearestBits n d)).toNat < Nat.pow 2 63 :=
    Nat.lt_of_le_of_lt (Nat.mod_le _ _) (nearestBits_lt n d)
  have hlt : (nearest n d).toBits.toNat < Nat.pow 2 63 := toBits_ofBits_lt hbits
  rw [Nat.div_eq_of_lt hlt] at hnegative
  subst hnegative
  exact ⟨m, q, hparts⟩

/-- **A numeral of finite value stands for a number without a sign.** -/
theorem plain_readNumeral {text : String} (h : isFinite (readNumeral text)) :
    Plain (readNumeral text) :=
  plain_nearest h

end Binary64
end LoxKit
