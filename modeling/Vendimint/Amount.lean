import Vendimint.Decimal
import Mathlib.Tactic.NormNum

/-! # How amounts are printed

`formatAmount` prints a number of millisatoshis in satoshis, with commas in the integer part and only
as many digits after the point as are needed.

* `formatAmount_exact`: what is printed, read as a decimal number, is the amount, and its parts have
  the form that they should have. -/

namespace Vendimint

open Vendimint.Decimal

/-- `to_string` of the whole satoshis, with commas. Digits are ASCII, so that the chunks of the bytes
are those of the characters. -/
def commaFormatted (amountSats : ℕ) : List Char :=
  [','].intercalate (rchunks 3 (Nat.toDigits 10 amountSats)).reverse

/-- `.{sub_sat_msats:03}` without the zeros at its end. -/
def subSatMsatsStr (subSatMsats : ℕ) : List Char :=
  popAll '0' ('.' :: (Nat.toDigits 10 subSatMsats).leftpad 3 '0')

def formatAmount (msats : ℕ) : String :=
  let amountSats := msats / 1000
  let subSatMsats := msats % 1000
  if amountSats = 1 ∧ subSatMsats = 0 then "1 sat"
  else
    let msatsStr := if subSatMsats = 0 then [] else subSatMsatsStr subSatMsats
    String.ofList (commaFormatted amountSats ++ msatsStr ++ " sats".toList)

/-- The number that a printed amount says: its unit and its commas are left out. -/
def readAmount (s : String) : Option ℚ :=
  readDecimal ((s.toList.takeWhile (· ≠ ' ')).filter (· ≠ ','))

/-- The form of a printed amount: an integer part without needless zeros and with a comma between any
two groups of three digits, a fraction of one to three digits without zeros at its end, if there are
any millisatoshis for it, and the unit. -/
def Printed (msats : ℕ) (s : String) : Prop :=
  ∃ int frac unit, s.toList = int ++ frac ++ ' ' :: unit ∧
    Grouped int ∧ (int.head? = some '0' → int = ['0']) ∧
    (frac = [] ↔ msats % 1000 = 0) ∧
    (frac ≠ [] → ∃ ds, frac = '.' :: ds ∧ 1 ≤ ds.length ∧ ds.length ≤ 3 ∧
      (∀ c ∈ ds, c.isDigit = true) ∧ ds.getLast? ≠ some '0') ∧
    unit = if msats = 1000 then "sat".toList else "sats".toList

/-! ### The integer part -/

theorem isDigit_toDigits {n : ℕ} {c : Char} (hc : c ∈ Nat.toDigits 10 n) : c.isDigit = true :=
  Nat.isDigit_of_mem_toDigits (by decide) (by decide) hc

/-- The first digit of a number is not zero. -/
theorem head?_toDigits : ∀ n : ℕ, (Nat.toDigits 10 n).head? = some '0' → n = 0 := by
  intro n
  induction n using Nat.strong_induction_on with
  | _ n ih =>
    intro h
    rw [Nat.toDigits_eq_if (by decide)] at h
    split_ifs at h with hn
    · rw [List.head?_cons, Option.some.injEq] at h
      exact Nat.digitChar_eq_zero.mp h
    · rw [List.head?_append_of_ne_nil _ Nat.toDigits_ne_nil] at h
      have hdiv := ih (n / 10) (by omega) h
      omega

/-- The groups of the integer part. -/
theorem exists_groups (n : ℕ) : ∃ g gs, commaFormatted n = [','].intercalate (g :: gs) ∧
    (g :: gs).flatten = Nat.toDigits 10 n ∧ g ≠ [] ∧ g.length ≤ 3 ∧ ∀ h ∈ gs, h.length = 3 := by
  obtain ⟨g, gs, hgs, hne, hle, hall⟩ :=
    exists_rchunks (k := 3) (by decide) (Nat.toDigits 10 n) Nat.toDigits_ne_nil
  refine ⟨g, gs, ?_, ?_, hne, hle, hall⟩
  · rw [commaFormatted, hgs]
  · rw [← hgs]
    exact flatten_rchunks (by decide) _

theorem isDigit_groups {n : ℕ} {ls : List (List Char)} (hls : ls.flatten = Nat.toDigits 10 n)
    {h : List Char} (hh : h ∈ ls) {c : Char} (hc : c ∈ h) : c.isDigit = true := by
  apply isDigit_toDigits (n := n)
  rw [← hls]
  exact List.mem_flatten.mpr ⟨h, hh, hc⟩

theorem grouped_commaFormatted (n : ℕ) : Grouped (commaFormatted n) := by
  obtain ⟨g, gs, hjoin, hflat, hne, hle, hall⟩ := exists_groups n
  exact ⟨g, gs, hjoin, hne, hle, hall, fun h hh c hc => isDigit_groups hflat hh hc⟩

theorem filter_commaFormatted (n : ℕ) :
    (commaFormatted n).filter (· ≠ ',') = Nat.toDigits 10 n := by
  obtain ⟨g, gs, hjoin, hflat, -⟩ := exists_groups n
  rw [hjoin, filter_join ',' _ ?_, hflat]
  intro h hh hc
  exact absurd (isDigit_groups hflat hh hc) (by decide)

/-- No needless zero is in front. -/
theorem head?_commaFormatted (n : ℕ) (h : (commaFormatted n).head? = some '0') :
    commaFormatted n = ['0'] := by
  obtain ⟨g, gs, hjoin, hflat, hne, -⟩ := exists_groups n
  rw [hjoin, head?_join ',' hne gs, hflat] at h
  have hn := head?_toDigits n h
  subst hn
  rw [commaFormatted, Nat.toDigits_zero, rchunks_cons (by decide) (by decide)]
  simp [rchunks_nil]

/-- There is no space in the integer part. -/
theorem ne_space_commaFormatted (n : ℕ) : ∀ c ∈ commaFormatted n, decide (c ≠ ' ') = true := by
  intro c hc
  rw [decide_eq_true_eq]
  rintro rfl
  obtain ⟨g, gs, hjoin, hflat, -⟩ := exists_groups n
  rw [hjoin] at hc
  rcases mem_join hc with h | ⟨l, hl, hc⟩
  · exact absurd h (by decide)
  · exact absurd (isDigit_groups hflat hl hc) (by decide)

/-! ### The fraction -/

section Fraction
variable {n : ℕ}

theorem length_padded (hn : n < 1000) : ((Nat.toDigits 10 n).leftpad 3 '0').length = 3 := by
  have hle : (Nat.toDigits 10 n).length ≤ 3 :=
    (Nat.length_toDigits_le_iff (by decide) (by decide)).mpr hn
  rw [List.length_leftpad]
  omega

theorem isDigit_padded {c : Char} (hc : c ∈ (Nat.toDigits 10 n).leftpad 3 '0') :
    c.isDigit = true := by
  rw [List.leftpad, List.mem_append] at hc
  rcases hc with hc | hc
  · rw [List.eq_of_mem_replicate hc]
    rfl
  · exact isDigit_toDigits hc

theorem ofDigitChars_padded : Nat.ofDigitChars 10 ((Nat.toDigits 10 n).leftpad 3 '0') 0 = n := by
  rw [List.leftpad, Nat.ofDigitChars_append, Nat.ofDigitChars_replicate_zero, Nat.mul_zero,
    Nat.ofDigitChars_ten_toDigits]

/-- The fraction is a point and one to three digits, the last of which is not zero. -/
theorem exists_fraction (h0 : n ≠ 0) (hn : n < 1000) : ∃ ds, subSatMsatsStr n = '.' :: ds ∧
    1 ≤ ds.length ∧ ds.length ≤ 3 ∧ (∀ c ∈ ds, c.isDigit = true) ∧ ds.getLast? ≠ some '0' := by
  obtain ⟨m, hm, hlast⟩ := exists_popAll '0' ((Nat.toDigits 10 n).leftpad 3 '0')
  have hlen := length_padded hn
  rw [hm, List.length_append, List.length_replicate] at hlen
  refine ⟨_, popAll_cons (by decide) _, ?_, by omega, fun c hc => ?_, hlast⟩
  · rw [Nat.one_le_iff_ne_zero]
    intro hnil
    have hpad := ofDigitChars_padded (n := n)
    rw [hm, List.length_eq_zero_iff.mp hnil, List.nil_append, Nat.ofDigitChars_replicate_zero,
      Nat.mul_zero] at hpad
    exact h0 hpad.symm
  · apply isDigit_padded (n := n)
    rw [hm]
    exact List.mem_append_left _ hc

end Fraction

/-! ### The whole string -/

/-- The parts of a printed amount other than `1 sat`. -/
theorem toList_formatAmount {msats : ℕ} (h : msats ≠ 1000) :
    (formatAmount msats).toList = commaFormatted (msats / 1000) ++
      (if msats % 1000 = 0 then [] else subSatMsatsStr (msats % 1000)) ++ ' ' :: "sats".toList := by
  have hsat : ¬ (msats / 1000 = 1 ∧ msats % 1000 = 0) := by omega
  rw [formatAmount, if_neg hsat, String.toList_ofList]
  rfl

theorem isDigit_one : ∀ c ∈ ['1'], c.isDigit = true := by
  intro c hc
  rw [List.mem_singleton.mp hc]
  rfl

theorem printed_formatAmount (msats : ℕ) : Printed msats (formatAmount msats) := by
  by_cases h : msats = 1000
  · subst h
    refine ⟨['1'], [], "sat".toList, by decide, ⟨['1'], [], rfl, by decide, by decide, ?_, ?_⟩,
      by decide, by decide, fun h => absurd rfl h, rfl⟩
    · intro h hh
      cases hh
    · intro h hh c hc
      obtain rfl := List.mem_singleton.mp hh
      exact isDigit_one c hc
  · have hint := grouped_commaFormatted (msats / 1000)
    have hzero := head?_commaFormatted (msats / 1000)
    rw [Printed, toList_formatAmount h]
    by_cases hsub : msats % 1000 = 0
    · rw [if_pos hsub]
      exact ⟨_, [], _, rfl, hint, hzero, ⟨fun _ => hsub, fun _ => rfl⟩, fun h => absurd rfl h,
        (if_neg h).symm⟩
    · rw [if_neg hsub]
      obtain ⟨ds, hds, hfrac⟩ := exists_fraction hsub (Nat.mod_lt _ (by decide))
      refine ⟨_, _, _, rfl, hint, hzero, ?_, fun _ => ⟨ds, hds, hfrac⟩, (if_neg h).symm⟩
      rw [hds]
      exact ⟨fun h => (by cases h), fun h => absurd h hsub⟩

/-- What is before the unit. -/
theorem takeWhile_formatAmount {msats : ℕ} (h : msats ≠ 1000) :
    (formatAmount msats).toList.takeWhile (· ≠ ' ') = commaFormatted (msats / 1000) ++
      if msats % 1000 = 0 then [] else subSatMsatsStr (msats % 1000) := by
  have hfrac : ∀ c ∈ (if msats % 1000 = 0 then [] else subSatMsatsStr (msats % 1000)),
      decide (c ≠ ' ') = true := by
    intro c hc
    split_ifs at hc with hsub
    · cases hc
    · obtain ⟨ds, hds, -, -, hdigit, -⟩ := exists_fraction hsub (Nat.mod_lt _ (by decide))
      rw [hds, List.mem_cons] at hc
      rw [decide_eq_true_eq]
      rintro rfl
      rcases hc with hc | hc
      · exact absurd hc (by decide)
      · exact absurd (hdigit _ hc) (by decide)
  rw [toList_formatAmount h, List.takeWhile_append_of_pos, List.takeWhile_cons_of_neg (by decide),
    List.append_nil]
  intro c hc
  rcases List.mem_append.mp hc with hc | hc
  · exact ne_space_commaFormatted _ c hc
  · exact hfrac c hc

theorem readAmount_formatAmount (msats : ℕ) :
    readAmount (formatAmount msats) = some (msats / 1000 : ℚ) := by
  by_cases h : msats = 1000
  · subst h
    have hsat : ((formatAmount 1000).toList.takeWhile (· ≠ ' ')).filter (· ≠ ',') = ['1'] := by
      decide
    have hone : Nat.ofDigitChars 10 ['1'] 0 = 1 := by decide
    rw [readAmount, hsat, readDecimal_digits (by decide) isDigit_one, hone]
    norm_num
  have hd : ∀ c ∈ Nat.toDigits 10 (msats / 1000), c.isDigit = true := fun c hc => isDigit_toDigits hc
  rw [readAmount, takeWhile_formatAmount h, List.filter_append, filter_commaFormatted]
  by_cases hsub : msats % 1000 = 0
  · rw [if_pos hsub, List.filter_nil, List.append_nil, readDecimal_digits Nat.toDigits_ne_nil hd,
      Nat.ofDigitChars_ten_toDigits]
    have hdiv : msats = 1000 * (msats / 1000) := by omega
    conv_rhs => rw [hdiv]
    push_cast
    rw [mul_div_cancel_left₀ _ (by norm_num)]
  · have hfilter : (subSatMsatsStr (msats % 1000)).filter (· ≠ ',') =
        subSatMsatsStr (msats % 1000) := by
      apply filter_ne
      intro hc
      obtain ⟨ds, hds, -, -, hdigit, -⟩ := exists_fraction hsub (Nat.mod_lt _ (by decide))
      rw [hds, List.mem_cons] at hc
      rcases hc with hc | hc
      · exact absurd hc (by decide)
      · exact absurd (hdigit _ hc) (by decide)
    rw [if_neg hsub, hfilter, subSatMsatsStr, readDecimal_fraction Nat.toDigits_ne_nil hd
      fun c hc => isDigit_padded hc, Nat.ofDigitChars_ten_toDigits, ofDigitChars_padded,
      length_padded (Nat.mod_lt _ (by decide))]
    have hdiv : msats = 1000 * (msats / 1000) + msats % 1000 := (Nat.div_add_mod msats 1000).symm
    conv_rhs => rw [hdiv]
    push_cast
    rw [add_div, mul_div_cancel_left₀ _ (by norm_num)]
    norm_num

/-- **Amounts are printed exactly**: what is printed says the amount, so that no two amounts are
printed alike, and it has the form of a printed amount. -/
theorem formatAmount_exact (msats : ℕ) :
    readAmount (formatAmount msats) = some (msats / 1000 : ℚ) ∧
    (∀ msats', formatAmount msats' = formatAmount msats → msats' = msats) ∧
    Printed msats (formatAmount msats) := by
  refine ⟨readAmount_formatAmount msats, fun msats' h => ?_, printed_formatAmount msats⟩
  have hread := readAmount_formatAmount msats'
  rw [h, readAmount_formatAmount, Option.some.injEq] at hread
  rw [div_left_inj' (by norm_num)] at hread
  exact (Nat.cast_injective hread).symm

end Vendimint
