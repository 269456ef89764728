/-
# Decimal numerals

Numbers are written by `sdscatfmt` and `redisFormatCommandArgv` and read back digit by
digit.  The reading loops of the library compute in machine integers; below their bounds
they give the number that was written.
-/
import HiredisCluster.Text

/-- The value of a string of digits, read after `acc`. -/
def numeral (acc : ℕ) (s : Bytes) : ℕ := s.foldl (fun v b => v * 10 + digitVal b) acc

theorem numeral_cons (acc : ℕ) (b : UInt8) (s : Bytes) :
    numeral acc (b :: s) = numeral (acc * 10 + digitVal b) s := by
  rw [numeral, List.foldl_cons, ← numeral]

theorem le_numeral (s : Bytes) : ∀ acc, acc ≤ numeral acc s := by
  induction s with
  | nil => exact fun acc => Nat.le_refl acc
  | cons b s ih =>
    intro acc
    have hnext := ih (acc * 10 + digitVal b)
    rw [numeral_cons]
    omega

/-- The character of a digit as a byte. -/
theorem toUInt8_of_isDigit {c : Char} (hc : c.isDigit = true) :
    isDigit c.toNat.toUInt8 = true ∧ digitVal c.toNat.toUInt8 = c.toNat - 48 := by
  obtain ⟨hlo, hhi⟩ : 48 ≤ c.toNat ∧ c.toNat ≤ 57 := by
    simpa [Char.isDigit, UInt32.le_iff_toNat_le] using hc
  have hbyte : c.toNat.toUInt8.toNat = c.toNat := by
    rw [Nat.toUInt8, UInt8.toNat_ofNat']
    omega
  constructor
  · simp only [isDigit, Bool.and_eq_true, decide_eq_true_eq, UInt8.le_iff_toNat_le, hbyte]
    exact ⟨hlo, hhi⟩
  · rw [digitVal, hbyte]

theorem isDigit_of_mem_decimal {n : ℕ} {b : UInt8} (hb : b ∈ decimal n) : isDigit b = true := by
  obtain ⟨c, hc, rfl⟩ := List.mem_map.mp hb
  exact (toUInt8_of_isDigit (Nat.isDigit_of_mem_toDigits (by decide) (by decide) hc)).1

theorem decimal_ne_nil (n : ℕ) : decimal n ≠ [] := by
  rw [decimal, ne_eq, List.map_eq_nil_iff]
  exact Nat.toDigits_ne_nil

/-- No numeral but that of zero starts with a zero. -/
theorem head?_decimal_ne {n : ℕ} (hn : 1 ≤ n) : (decimal n).head? ≠ some 48 := by
  have hdigit : ∀ d < 10, 1 ≤ d → (Nat.digitChar d).toNat.toUInt8 ≠ 48 := by decide
  induction n using Nat.strong_induction_on with
  | _ n ih =>
    rw [decimal, Nat.toDigits_eq_if (by decide)]
    by_cases hlt : n < 10
    · rw [if_pos hlt, List.map_singleton, List.head?_singleton]
      exact fun heq => hdigit n hlt hn (Option.some.inj heq)
    · have hnext := ih (n / 10) (by omega) (by omega)
      rw [if_neg hlt, List.map_append, ← decimal, List.head?_append]
      obtain ⟨b, hb⟩ := Option.ne_none_iff_exists'.mp (mt List.head?_eq_none_iff.mp (decimal_ne_nil (n / 10)))
      rw [hb] at hnext ⊢
      exact hnext

theorem numeral_map_toUInt8 (cs : List Char) (hcs : ∀ c ∈ cs, c.isDigit = true) : ∀ acc,
    numeral acc (cs.map fun c => c.toNat.toUInt8) = Nat.ofDigitChars 10 cs acc := by
  induction cs with
  | nil => exact fun acc => by rw [Nat.ofDigitChars_nil]; rfl
  | cons c cs ih =>
    intro acc
    rw [List.map_cons, numeral_cons, (toUInt8_of_isDigit (hcs c List.mem_cons_self)).2,
      ih fun c hc => hcs c (List.mem_cons_of_mem _ hc), Nat.ofDigitChars_cons, Nat.mul_comm]
    rfl

/-- A number is the value of its digits. -/
theorem numeral_decimal (n : ℕ) : numeral 0 (decimal n) = n := by
  rw [decimal, numeral_map_toUInt8 _ fun c hc =>
    Nat.isDigit_of_mem_toDigits (by decide) (by decide) hc]
  exact Nat.ofDigitChars_ten_toDigits

theorem wrap32_of_lt {n : ℕ} (h : n < 2 ^ 31) : wrap32 n = n := by
  unfold wrap32
  exact Int.bmod_eq_of_le (by omega) (by omega)

theorem toInt32_of_lt {n : ℕ} (h : n < 2 ^ 31) : toInt32 n = n := wrap32_of_lt h

/-! ## `_hi_atoi` -/

theorem hiAtoiLoop_eq {s : Bytes} (hs : ∀ b ∈ s, isDigit b = true) : ∀ {acc : ℕ},
    numeral acc s < 2 ^ 31 → hiAtoiLoop acc s = numeral acc s := by
  induction s with
  | nil => exact fun _ => rfl
  | cons b s ih =>
    intro acc h
    have hnext : acc * 10 + digitVal b < 2 ^ 31 :=
      Nat.lt_of_le_of_lt (le_numeral s _) h
    rw [hiAtoiLoop, if_pos (hs b List.mem_cons_self)]
    have hcast : wrap32 ((acc : ℤ) * 10 + digitVal b) = ((acc * 10 + digitVal b : ℕ) : ℤ) := by
      rw [← wrap32_of_lt hnext]
      push_cast
      rfl
    rw [hcast, ih (fun b hb => hs b (List.mem_cons_of_mem _ hb)) h]
    rfl

/-- A number that was written is read back. -/
theorem hiAtoi_decimal {n : ℕ} (h : n < 2 ^ 31) : hiAtoi (decimal n) = n := by
  have hloop := hiAtoiLoop_eq (fun b hb => isDigit_of_mem_decimal (n := n) hb)
    (by rwa [numeral_decimal])
  rw [numeral_decimal] at hloop
  unfold hiAtoi
  split
  · exact absurd ‹_› (decimal_ne_nil n)
  · exact hloop
