import LoxKit.Decimal.Notation
import LoxKit.Proofs.Decimal.Basins
import LoxKit.Scan
import Mathlib.Data.List.TakeWhile

/-!
# A number is known by its text

Both layouts of a number can be read again: the digits in front of an `e`, with their point, give a
mantissa, and what stands behind it an exponent (`valueOf`).  The value that is read is that of the
decimal that was written (`valueOf_layout`), so numbers of the same text have the same shortest
decimal, and are the same number (`write_injective`).  The text begins with a digit and holds
nothing but digits, points, signs and `e` (`looksNumeric_write`).
-/
namespace LoxKit
namespace NumberFormat

open Scan

/-! ## Digits -/

theorem digitsValue_toDigits (n : Nat) : digitsValue (Nat.toDigits 10 n) = n :=
  Nat.ofDigitChars_ten_toDigits

theorem digitsValue_append_zeros (ds : List Char) (n : Nat) :
    digitsValue (ds ++ zeros n) = 10 ^ n * digitsValue ds :=
  Nat.ofDigitChars_append 0 |>.trans Nat.ofDigitChars_replicate_zero

theorem digitsValue_zeros_append (n : Nat) (ds : List Char) :
    digitsValue (zeros n ++ ds) = digitsValue ds := by
  have h : digitsValue (zeros n ++ ds) = Nat.ofDigitChars 10 ds (Nat.ofDigitChars 10 (zeros n) 0) :=
    Nat.ofDigitChars_append 0
  rw [h, zeros, Nat.ofDigitChars_replicate_zero]
  rfl

theorem isDigit_of_mem_toDigits {n : Nat} {c : Char} (h : c ∈ Nat.toDigits 10 n) : isDigit c :=
  Nat.isDigit_of_mem_toDigits (by decide) (by decide) h

theorem isDigit_of_mem_zeros {n : Nat} {c : Char} (h : c ∈ zeros n) : isDigit c := by
  rw [List.eq_of_mem_replicate h]
  rfl

/-! ## The value of a text -/

/-- The value of digits with a point. -/
def pointed (cs : List Char) : ℚ :=
  let fraction := (cs.dropWhile (· != '.')).drop 1
  digitsValue (cs.takeWhile (· != '.') ++ fraction) / 10 ^ fraction.length

/-- The value of an exponent with its sign. -/
def exponentOf : List Char → Int
  | '-' :: ds => -(digitsValue ds : Int)
  | _ :: ds => digitsValue ds
  | [] => 0

/-- **The value of a text**: digits with a point, and perhaps an exponent. -/
def valueOf (cs : List Char) : ℚ :=
  pointed (cs.takeWhile (· != 'e')) * 10 ^ exponentOf ((cs.dropWhile (· != 'e')).drop 1)

variable {c : Char} {ds fs ts : List Char} {e point : Int}

theorem takeWhile_ne_append (h : c ∉ ds) (ts : List Char) :
    (ds ++ c :: ts).takeWhile (· != c) = ds ∧ (ds ++ c :: ts).dropWhile (· != c) = c :: ts := by
  have hall : ∀ d ∈ ds, (d != c) = true := fun d hd => by
    simpa using fun heq : d = c => h (heq ▸ hd)
  constructor
  · rw [List.takeWhile_append_of_pos hall, List.takeWhile_cons_of_neg (by simp), List.append_nil]
  · rw [List.dropWhile_append_of_pos hall, List.dropWhile_cons_of_neg (by simp)]

theorem takeWhile_ne_eq (h : c ∉ ds) :
    ds.takeWhile (· != c) = ds ∧ ds.dropWhile (· != c) = [] := by
  have hall : ∀ d ∈ ds, (d != c) = true := fun d hd => by
    simpa using fun heq : d = c => h (heq ▸ hd)
  exact ⟨List.takeWhile_eq_self_iff.mpr hall, List.dropWhile_eq_nil_iff.mpr hall⟩

theorem pointed_whole (h : '.' ∉ ds) : pointed ds = digitsValue ds := by
  simp [pointed, takeWhile_ne_eq h]

theorem pointed_append (h : '.' ∉ ds) :
    pointed (ds ++ '.' :: fs) = digitsValue (ds ++ fs) / 10 ^ fs.length := by
  simp [pointed, takeWhile_ne_append h]

theorem valueOf_positional (h : 'e' ∉ ds) : valueOf ds = pointed ds := by
  simp [valueOf, takeWhile_ne_eq h, exponentOf]

theorem valueOf_append (h : 'e' ∉ ds) :
    valueOf (ds ++ 'e' :: ts) = pointed ds * 10 ^ exponentOf ts := by
  simp [valueOf, takeWhile_ne_append h]

theorem exponentOf_exponentText (f : NumberFormat) (e : Int) :
    exponentOf (f.exponentText e) = e := by
  have hdigits : digitsValue (zeros (f.exponentWidth - (Nat.toDigits 10 e.natAbs).length) ++
      Nat.toDigits 10 e.natAbs) = e.natAbs := by
    rw [digitsValue_zeros_append, digitsValue_toDigits]
  unfold exponentText
  dsimp only
  split
  · rw [exponentOf, hdigits]
    omega
  · rw [exponentOf.eq_2 _ _ (by decide), hdigits]
    omega

/-! ## Both layouts can be read -/

theorem not_mem_of_isDigit (hds : ∀ d ∈ ds, isDigit d) (hc : isDigit c = false) : c ∉ ds :=
  fun h => by simp [hds c h] at hc

/-- Digits with a point among them hold no `e`. -/
theorem not_mem_pointed (hds : ∀ d ∈ ds, isDigit d) (hfs : ∀ d ∈ fs, isDigit d) :
    'e' ∉ ds ++ '.' :: fs := by
  rw [List.mem_append, not_or]
  exact ⟨not_mem_of_isDigit hds rfl,
    List.not_mem_cons_of_ne_of_not_mem (by decide) (not_mem_of_isDigit hfs rfl)⟩

theorem pointed_digits (hds : ∀ d ∈ ds, isDigit d) :
    pointed (ds ++ '.' :: fs) = digitsValue (ds ++ fs) * 10 ^ (-fs.length : Int) := by
  rw [pointed_append (not_mem_of_isDigit hds rfl), zpow_neg, zpow_natCast, div_eq_mul_inv]

/-- Each digit behind the point takes one from the exponent. -/
theorem valueOf_point (hds : ∀ d ∈ ds, isDigit d) (hfs : ∀ d ∈ fs, isDigit d) :
    valueOf (ds ++ '.' :: fs) = digitsValue (ds ++ fs) * 10 ^ (-fs.length : Int) := by
  rw [valueOf_positional (not_mem_pointed hds hfs), pointed_digits hds]

theorem valueOf_point_exponent (hds : ∀ d ∈ ds, isDigit d) (hfs : ∀ d ∈ fs, isDigit d) (e : Int) :
    valueOf (ds ++ '.' :: fs ++ 'e' :: plain.exponentText e) =
      digitsValue (ds ++ fs) * 10 ^ (e - fs.length) := by
  rw [valueOf_append (not_mem_pointed hds hfs), exponentOf_exponentText, pointed_digits hds,
    mul_assoc, ← zpow_add₀ (by norm_num), neg_add_eq_sub]

/-- The value of digits without a point. -/
theorem valueOf_whole_exponent (hds : ∀ d ∈ ds, isDigit d) (e : Int) :
    valueOf (ds ++ 'e' :: plain.exponentText e) = digitsValue ds * 10 ^ e := by
  rw [valueOf_append (not_mem_of_isDigit hds rfl), exponentOf_exponentText,
    pointed_whole (not_mem_of_isDigit hds rfl)]

theorem valueOf_whole (hds : ∀ d ∈ ds, isDigit d) : valueOf ds = digitsValue ds := by
  rw [valueOf_positional (not_mem_of_isDigit hds rfl), pointed_whole (not_mem_of_isDigit hds rfl)]

/-- **The value of digits in either layout.** -/
theorem valueOf_layout (hne : ds ≠ []) (hds : ∀ d ∈ ds, isDigit d) (point : Int) :
    valueOf (plain.layout ds point) = digitsValue ds * 10 ^ (point - ds.length) := by
  unfold layout
  dsimp only
  split
  · -- one digit in front of the point, and an exponent
    split
    · next d d' rest =>
      rw [List.forall_mem_cons] at hds
      have hvalue := valueOf_point_exponent (List.forall_mem_singleton.mpr hds.1) hds.2 (point - 1)
      refine hvalue.trans ?_
      rw [List.singleton_append, List.length_cons (a := d)]
      congr 2
      omega
    · next hshort =>
      obtain ⟨d, rfl⟩ : ∃ d, ds = [d] := by
        rcases ds with - | ⟨d, - | ⟨d', rest⟩⟩
        · exact absurd rfl hne
        · exact ⟨d, rfl⟩
        · exact absurd rfl (hshort d d' rest)
      exact valueOf_whole_exponent hds (point - 1)
  · split
    · next hle =>
      -- zeros behind the point
      have hzero : ∀ c ∈ ['0'], isDigit c := List.forall_mem_singleton.mpr rfl
      have hfraction : ∀ c ∈ zeros (-point).toNat ++ ds, isDigit c :=
        List.forall_mem_append.mpr ⟨fun _ => isDigit_of_mem_zeros, hds⟩
      have hvalue : digitsValue (['0'] ++ (zeros (-point).toNat ++ ds)) = digitsValue ds :=
        digitsValue_zeros_append ((-point).toNat + 1) ds
      refine (valueOf_point hzero hfraction).trans ?_
      rw [hvalue, List.length_append, zeros, List.length_replicate]
      congr 2
      omega
    · split
      · next hshort =>
        -- zeros in front of the point
        have hall : ∀ c ∈ ds ++ zeros (point.toNat - ds.length), isDigit c :=
          List.forall_mem_append.mpr ⟨hds, fun _ => isDigit_of_mem_zeros⟩
        rw [show plain.wholeSuffix.toList = [] from rfl, List.append_nil, valueOf_whole hall,
          digitsValue_append_zeros, Nat.cast_mul, Nat.cast_pow, mul_comm, ← zpow_natCast]
        congr 2
        omega
      · next hlong =>
        -- the point among the digits
        rw [valueOf_point (fun c hc => hds c (List.mem_of_mem_take hc))
          fun c hc => hds c (List.mem_of_mem_drop hc), List.take_append_drop, List.length_drop]
        congr 2
        omega

/-! ## The characters of a text -/

/-- The characters of a number. -/
def isNumberChar (c : Char) : Bool := isDigit c || c == '.' || c == 'e' || c == '+' || c == '-'

theorem isNumberChar_of_isDigit (h : isDigit c) : isNumberChar c := by simp [isNumberChar, h]

theorem isNumberChar_of_mem_exponentText {f : NumberFormat} (h : c ∈ f.exponentText e) :
    isNumberChar c := by
  unfold exponentText at h
  rcases List.mem_cons.mp h with rfl | h
  · split <;> rfl
  · rcases List.mem_append.mp h with h | h
    · exact isNumberChar_of_isDigit (isDigit_of_mem_zeros h)
    · exact isNumberChar_of_isDigit (isDigit_of_mem_toDigits h)

/-- **What a number looks like**: a digit, and more characters of numbers. -/
def LooksNumeric (cs : List Char) : Prop :=
  ∃ c u, cs = c :: u ∧ isDigit c ∧ ∀ d ∈ u, isNumberChar d

theorem LooksNumeric.forall_isNumberChar {cs : List Char} (h : LooksNumeric cs) :
    ∀ c ∈ cs, isNumberChar c := by
  obtain ⟨c, u, rfl, hc, hu⟩ := h
  exact List.forall_mem_cons.mpr ⟨isNumberChar_of_isDigit hc, hu⟩

theorem looksNumeric_digits (hne : ds ≠ []) (hds : ∀ d ∈ ds, isDigit d) : LooksNumeric ds := by
  obtain ⟨d, us, rfl⟩ := List.exists_cons_of_ne_nil hne
  rw [List.forall_mem_cons] at hds
  exact ⟨d, us, rfl, hds.1, fun c hc => isNumberChar_of_isDigit (hds.2 c hc)⟩

theorem LooksNumeric.append (h : LooksNumeric ds) (hts : ∀ c ∈ ts, isNumberChar c) :
    LooksNumeric (ds ++ ts) := by
  obtain ⟨c, u, rfl, hc, hu⟩ := h
  exact ⟨c, u ++ ts, rfl, hc, List.forall_mem_append.mpr ⟨hu, hts⟩⟩

/-- Either layout of digits looks like a number. -/
theorem looksNumeric_layout (hne : ds ≠ []) (hds : ∀ d ∈ ds, isDigit d) (point : Int) :
    LooksNumeric (plain.layout ds point) := by
  have hdigits {us : List Char} (hus : ∀ d ∈ us, isDigit d) : ∀ d ∈ us, isNumberChar d :=
    fun d hd => isNumberChar_of_isDigit (hus d hd)
  have hpoint {us : List Char} (hus : ∀ d ∈ us, isDigit d) : ∀ d ∈ '.' :: us, isNumberChar d :=
    List.forall_mem_cons.mpr ⟨rfl, hdigits hus⟩
  unfold layout
  dsimp only
  split
  · refine LooksNumeric.append ?_
      (List.forall_mem_cons.mpr ⟨rfl, fun _ => isNumberChar_of_mem_exponentText⟩)
    split
    · next d d' rest =>
      rw [List.forall_mem_cons] at hds
      exact ⟨d, _, rfl, hds.1, hpoint hds.2⟩
    · exact looksNumeric_digits hne hds
  · split
    · exact ⟨'0', _, rfl, rfl,
        hpoint (List.forall_mem_append.mpr ⟨fun _ => isDigit_of_mem_zeros, hds⟩)⟩
    · split
      · refine LooksNumeric.append (looksNumeric_digits (List.append_ne_nil_of_left_ne_nil hne _)
          (List.forall_mem_append.mpr ⟨hds, fun _ => isDigit_of_mem_zeros⟩)) ?_
        exact nofun
      · next hle _ =>
        refine LooksNumeric.append (looksNumeric_digits ?_
          fun c hc => hds c (List.mem_of_mem_take hc))
          (hpoint fun c hc => hds c (List.mem_of_mem_drop hc))
        rw [Ne, List.take_eq_nil_iff]
        rintro (h | h)
        · omega
        · exact hne h

/-! ## Numbers and their texts -/

variable {x y : Float} {m : Nat} {q : Int}

theorem toList_write (h : Binary64.parts x = .finite false m q) :
    (plain.write x).toList = plain.magnitude m q := by
  unfold write
  rw [h]
  simp

/-- The text of a positive number has the value of its shortest decimal. -/
theorem valueOf_magnitude (hm : 0 < m) :
    valueOf (plain.magnitude m q) = (Decimal.shortest m q).toRat := by
  unfold magnitude
  rw [if_neg hm.ne']
  dsimp only
  rw [valueOf_layout Nat.toDigits_ne_nil fun _ => isDigit_of_mem_toDigits, digitsValue_toDigits,
    add_sub_cancel_left]
  rfl

theorem valueOf_magnitude_zero : valueOf (plain.magnitude 0 q) = 0 := by
  have hzero : valueOf ['0'] = digitsValue ['0'] := by
    rw [valueOf_positional (by decide), pointed_whole (by decide)]
  exact hzero.trans (by norm_num [digitsValue])

/-- **A number without a sign begins with a digit** and has no characters but those of numbers. -/
theorem looksNumeric_write (hx : Binary64.Plain x) : LooksNumeric (plain.write x).toList := by
  obtain ⟨m, q, hparts⟩ := hx
  rw [toList_write hparts]
  unfold magnitude
  split
  · exact ⟨'0', [], rfl, rfl, nofun⟩
  · exact looksNumeric_layout Nat.toDigits_ne_nil (fun _ => isDigit_of_mem_toDigits) _

/-- **Numbers without a sign are known by their texts.** -/
theorem write_injective (hx : Binary64.Plain x) (hy : Binary64.Plain y)
    (h : plain.write x = plain.write y) : x = y := by
  obtain ⟨m, q, hparts⟩ := hx
  obtain ⟨n, r, hparts'⟩ := hy
  have hmq := (Binary64.bits_of_parts hparts).1
  have hnr := (Binary64.bits_of_parts hparts').1
  have htext : plain.magnitude m q = plain.magnitude n r := by
    rw [← toList_write hparts, h, toList_write hparts']
  have hvalue := congrArg valueOf htext
  have hpositive {k : Nat} {s : Int} (hk : 0 < k) (hks : Binary64.Canonical k s) :
      0 < valueOf (plain.magnitude k s) := by
    rw [valueOf_magnitude hk]
    have hdigits := (Decimal.near_shortest hk hks).2
    unfold Decimal.toRat
    positivity
  rcases Nat.eq_zero_or_pos m with rfl | hm
  · rcases Nat.eq_zero_or_pos n with rfl | hn
    · -- zero has the least exponent only
      have hq := hmq.full (by decide)
      have hr := hnr.full (by decide)
      subst hq hr
      exact Binary64.parts_injective hparts hparts'
    · exact absurd (valueOf_magnitude_zero.symm.trans hvalue) (hpositive hn hnr).ne
  · rcases Nat.eq_zero_or_pos n with rfl | hn
    · exact absurd (hvalue.trans valueOf_magnitude_zero) (hpositive hm hmq).ne'
    · rw [valueOf_magnitude hm, valueOf_magnitude hn] at hvalue
      obtain ⟨rfl, rfl⟩ := Decimal.toRat_shortest_inj hm hn hmq hnr hvalue
      exact Binary64.parts_injective hparts hparts'

end NumberFormat
end LoxKit
