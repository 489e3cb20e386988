import Mathlib.Data.List.DropRight
import Mathlib.Data.Rat.Defs
import Mathlib.Algebra.Order.Field.Basic
import Mathlib.Algebra.Order.Ring.Rat
import Mathlib.Tactic.FieldSimp
import Mathlib.Tactic.Positivity

/-! # Decimal numerals

The digits of a number are cut into groups from the right (`rchunks`) and joined by commas; the
zeros at the end of a fraction are popped one by one (`popAll`). What is printed so is read back by
`readDecimal`.

* `grouped_join`: where the commas are.
* `filter_join`: without them, the digits are there again.
* `readDecimal_fraction`: a fraction of `k` digits says the same number without its last zeros. -/

namespace Vendimint.Decimal

variable {α : Type}

/-! ### Chunks from the right -/

/-- The chunks of `k` elements from the right, the last ones first; the first ones may be fewer. -/
def rchunks (k : ℕ) (l : List α) : List (List α) :=
  if _h : k = 0 ∨ l = [] then [] else l.drop (l.length - k) :: rchunks k (l.take (l.length - k))
termination_by l.length
decreasing_by
  have hl : 0 < l.length := List.length_pos_iff.mpr fun hl => _h (Or.inr hl)
  rw [List.length_take]
  omega

theorem rchunks_nil (k : ℕ) : rchunks k ([] : List α) = [] := by
  rw [rchunks, dif_pos (Or.inr rfl)]

theorem rchunks_cons {k : ℕ} (hk : 0 < k) {l : List α} (hl : l ≠ []) :
    rchunks k l = l.drop (l.length - k) :: rchunks k (l.take (l.length - k)) := by
  rw [rchunks, dif_neg]
  rintro (h | h)
  · omega
  · exact hl h

/-- The chunks are the list again. -/
theorem flatten_rchunks {k : ℕ} (hk : 0 < k) : ∀ l : List α, (rchunks k l).reverse.flatten = l := by
  intro l
  induction l using rchunks.induct k with
  | case1 l h =>
    rcases h with h | rfl
    · omega
    · rw [rchunks_nil]
      rfl
  | case2 l h ih =>
    rw [rchunks_cons hk fun hl => h (Or.inr hl), List.reverse_cons, List.flatten_append, ih,
      List.flatten_singleton, List.take_append_drop]

/-- All chunks but the first one are complete. -/
theorem exists_rchunks {k : ℕ} (hk : 0 < k) : ∀ l : List α, l ≠ [] → ∃ g gs,
    (rchunks k l).reverse = g :: gs ∧ g ≠ [] ∧ g.length ≤ k ∧ ∀ h ∈ gs, h.length = k := by
  intro l
  induction l using rchunks.induct k with
  | case1 l h =>
    intro hl
    rcases h with h | h
    · omega
    · exact absurd h hl
  | case2 l h ih =>
    intro hl
    rw [rchunks_cons hk hl]
    have hlen : 0 < l.length := List.length_pos_iff.mpr hl
    by_cases htake : l.take (l.length - k) = []
    · have hle : l.length ≤ k := by
        have := congrArg List.length htake
        rw [List.length_take, List.length_nil] at this
        omega
      rw [htake, rchunks_nil, Nat.sub_eq_zero_of_le hle, List.drop_zero]
      exact ⟨l, [], rfl, hl, hle, fun _ hm => by cases hm⟩
    · obtain ⟨g, gs, hgs, hne, hle, hall⟩ := ih htake
      refine ⟨g, gs ++ [l.drop (l.length - k)], ?_, hne, hle, ?_⟩
      · rw [List.reverse_cons, hgs, List.cons_append]
      · intro h' hm
        rcases List.mem_append.mp hm with hm | hm
        · exact hall h' hm
        · rw [List.mem_singleton.mp hm, List.length_drop]
          have hgt : l.length - k ≠ 0 := by
            intro h0
            rw [h0, List.take_zero] at htake
            exact htake rfl
          omega

/-! ### Commas -/

/-- A list of groups of three digits, but for the first one, with commas between them. -/
def Grouped (s : List Char) : Prop :=
  ∃ g gs, s = [','].intercalate (g :: gs) ∧ g ≠ [] ∧ g.length ≤ 3 ∧ (∀ h ∈ gs, h.length = 3) ∧
    ∀ h ∈ g :: gs, ∀ c ∈ h, c.isDigit

theorem filter_ne {c : Char} {l : List Char} (h : c ∉ l) : l.filter (· ≠ c) = l := by
  rw [List.filter_eq_self]
  intro a ha
  have hac : a ≠ c := ne_of_mem_of_not_mem ha h
  simpa using hac

/-- Without the separators a joined list is what was joined. -/
theorem filter_join (c : Char) : ∀ ls : List (List Char), (∀ l ∈ ls, c ∉ l) →
    ([c].intercalate ls).filter (· ≠ c) = ls.flatten
  | [], _ => by rfl
  | [l], h => by
    rw [List.intercalate_singleton, List.flatten_singleton]
    exact filter_ne (h l List.mem_cons_self)
  | l :: l' :: ls, h => by
    have hl := filter_ne (h l List.mem_cons_self)
    have ih := filter_join c (l' :: ls) fun m hm => h m (List.mem_cons_of_mem l hm)
    have hc : [c].filter (· ≠ c) = [] := by simp
    rw [List.intercalate_cons_cons, List.filter_append, List.filter_append, ih, hl, hc,
      List.append_nil]
    rfl

/-- Every character of a joined list is a separator or one of what was joined. -/
theorem mem_join {c a : Char} : ∀ {ls : List (List Char)}, a ∈ [c].intercalate ls →
    a = c ∨ ∃ l ∈ ls, a ∈ l
  | [], h => by
    rw [List.intercalate_nil] at h
    cases h
  | [l], h => by
    rw [List.intercalate_singleton] at h
    exact Or.inr ⟨l, List.mem_cons_self, h⟩
  | l :: l' :: ls, h => by
    rw [List.intercalate_cons_cons, List.append_assoc, List.mem_append, List.mem_append,
      List.mem_singleton] at h
    rcases h with h | h | h
    · exact Or.inr ⟨l, List.mem_cons_self, h⟩
    · exact Or.inl h
    · rcases mem_join h with h | ⟨m, hm, ham⟩
      · exact Or.inl h
      · exact Or.inr ⟨m, List.mem_cons_of_mem l hm, ham⟩

theorem head?_join (c : Char) {g : List Char} (hg : g ≠ []) (gs : List (List Char)) :
    ([c].intercalate (g :: gs)).head? = (g :: gs).flatten.head? := by
  obtain ⟨a, g, rfl⟩ := List.exists_cons_of_ne_nil hg
  cases gs with
  | nil => rw [List.intercalate_singleton, List.flatten_singleton]
  | cons g' gs => rw [List.intercalate_cons_cons]; rfl

/-! ### Zeros at the end -/

/-- `while s.ends_with(c) { s.pop(); }` -/
def popAll (c : Char) (s : List Char) : List Char :=
  if _h : s.getLast? = some c then popAll c s.dropLast else s
termination_by s.length
decreasing_by
  have hs : 0 < s.length := by
    rw [List.length_pos_iff]
    rintro rfl
    cases _h
  rw [List.length_dropLast]
  omega

/-- What is popped are as many `c` as there are at the end. -/
theorem exists_popAll (c : Char) : ∀ s : List Char, ∃ m, s = popAll c s ++ List.replicate m c ∧
    (popAll c s).getLast? ≠ some c := by
  intro s
  induction s using popAll.induct c with
  | case1 s h ih =>
    obtain ⟨m, hm, hlast⟩ := ih
    rw [popAll, dif_pos h]
    refine ⟨m + 1, ?_, hlast⟩
    have hs : s.dropLast ++ [c] = s := List.dropLast_append_getLast? c h
    rw [List.replicate_succ', ← List.append_assoc, ← hm, hs]
  | case2 s h =>
    rw [popAll, dif_neg h]
    exact ⟨0, (List.append_nil s).symm, h⟩

/-- A character in front that is not popped stays. -/
theorem popAll_cons {a c : Char} (hac : a ≠ c) (s : List Char) :
    popAll c (a :: s) = a :: popAll c s := by
  induction s using popAll.induct c with
  | case1 s h ih =>
    have hs : s ≠ [] := by
      rintro rfl
      cases h
    have hlast : (a :: s).getLast? = some c := by rw [List.getLast?_cons, h, Option.getD_some]
    rw [popAll, dif_pos hlast, List.dropLast_cons_of_ne_nil hs, ih]
    conv_rhs => rw [popAll, dif_pos h]
  | case2 s h =>
    have hlast : (a :: s).getLast? ≠ some c := by
      rw [List.getLast?_cons]
      rcases hs : s.getLast? with _ | b
      · rw [Option.getD_none]
        exact fun heq => hac (Option.some.inj heq)
      · rw [Option.getD_some, ← hs]
        exact h
    rw [popAll, dif_neg hlast, popAll, dif_neg h]

/-! ### Reading -/

/-- The number that digits say. -/
def readDigits (s : List Char) : Option ℕ :=
  if s ≠ [] ∧ s.all Char.isDigit then some (Nat.ofDigitChars 10 s 0) else none

/-- The number that the digits before and after a point say. -/
def readParts (int frac : List Char) : Option ℚ :=
  if int = [] then none else (readDigits (int ++ frac)).map fun n : ℕ => (n : ℚ) / 10 ^ frac.length

/-- The number that a decimal numeral says. -/
def readDecimal (s : List Char) : Option ℚ :=
  readParts (s.takeWhile (· ≠ '.')) ((s.dropWhile (· ≠ '.')).drop 1)

section Reading
variable {int frac l : List Char}

theorem readDigits_eq (hl : l ≠ []) (h : ∀ c ∈ l, c.isDigit = true) :
    readDigits l = some (Nat.ofDigitChars 10 l 0) := by
  rw [readDigits, if_pos ⟨hl, List.all_eq_true.mpr h⟩]

theorem ne_point {c : Char} (hc : c.isDigit = true) : decide (c ≠ '.') = true := by
  rw [decide_eq_true_eq]
  rintro rfl
  exact absurd hc (by decide)

theorem readParts_eq (hint : int ≠ []) (hd : ∀ c ∈ int, c.isDigit = true)
    (hf : ∀ c ∈ frac, c.isDigit = true) :
    readParts int frac = some (Nat.ofDigitChars 10 int 0 +
      Nat.ofDigitChars 10 frac 0 / 10 ^ frac.length : ℚ) := by
  have hall : ∀ c ∈ int ++ frac, c.isDigit = true := by
    intro c hc
    rcases List.mem_append.mp hc with hc | hc
    · exact hd c hc
    · exact hf c hc
  have hne : int ++ frac ≠ [] := fun h => hint (List.append_eq_nil_iff.mp h).1
  have hpow : (10 ^ frac.length : ℚ) ≠ 0 := by positivity
  rw [readParts, if_neg hint, readDigits_eq hne hall, Option.map_some, Option.some.injEq,
    Nat.ofDigitChars_append, Nat.ofDigitChars_eq_ofDigitChars_zero]
  push_cast
  field_simp

/-- Digits say a whole number. -/
theorem readDecimal_digits (hint : int ≠ []) (hd : ∀ c ∈ int, c.isDigit = true) :
    readDecimal int = some (Nat.ofDigitChars 10 int 0 : ℚ) := by
  have hpoint : ∀ c ∈ int, decide (c ≠ '.') = true := fun c hc => ne_point (hd c hc)
  rw [readDecimal, List.takeWhile_eq_self_iff.mpr hpoint, List.dropWhile_eq_nil_iff.mpr hpoint,
    List.drop_nil, readParts_eq hint hd fun c hc => by cases hc]
  simp

/-- **The zeros at the end of a fraction** are not needed. -/
theorem readDecimal_fraction (hint : int ≠ []) (hd : ∀ c ∈ int, c.isDigit = true)
    (hl : ∀ c ∈ l, c.isDigit = true) :
    readDecimal (int ++ popAll '0' ('.' :: l)) =
      some (Nat.ofDigitChars 10 int 0 + Nat.ofDigitChars 10 l 0 / 10 ^ l.length : ℚ) := by
  have hpoint : ∀ c ∈ int, decide (c ≠ '.') = true := fun c hc => ne_point (hd c hc)
  obtain ⟨m, hm, -⟩ := exists_popAll '0' l
  rw [popAll_cons (by decide)]
  generalize popAll '0' l = f at hm
  subst hm
  have hf : ∀ c ∈ f, c.isDigit = true := fun c hc => hl c (List.mem_append_left _ hc)
  rw [readDecimal, List.takeWhile_append_of_pos hpoint, List.dropWhile_append_of_pos hpoint,
    List.takeWhile_cons_of_neg (by decide), List.dropWhile_cons_of_neg (by decide), List.append_nil,
    List.drop_one, List.tail_cons, readParts_eq hint hd hf, Nat.ofDigitChars_append,
    Nat.ofDigitChars_replicate_zero, List.length_append, List.length_replicate, pow_add]
  have hpow : (10 ^ m : ℚ) ≠ 0 := by positivity
  push_cast
  rw [mul_comm (10 ^ m : ℚ), mul_div_mul_right _ _ hpow]

end Reading

end Vendimint.Decimal
