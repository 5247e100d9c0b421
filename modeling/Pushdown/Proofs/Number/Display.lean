import Pushdown.Number.Numeral
import Pushdown.Proofs.Number.Rounding
import Pushdown.Value

/-!
# Displayed numbers are read back

The decimal with the fewest digits lies in the interval of its number (`contains_shortest`), and the
text of a decimal has the value of the decimal (`showsDecimal_positional`). So a finite number is
displayed as digits on both sides of a point that are read as the same number, down to the sign of
zero (`shows_displayNumber`).

## Implementation notes

Nothing here depends on how many digits the search tries: if it finds no decimal in the interval,
the exact value stands in, which lies in the interval as well.
-/

namespace Pushdown.Number

/-! ## The shortest decimal -/

namespace Rounds

variable {r : Rounds} {tie : Tie} {d : Decimal}

/-- Both units of a comparison are multiples of a common one. -/
theorem exists_scale (r : Rounds) (e : Int) :
    ∃ c : ℚ, 0 < c ∧ ((r.scale e).1 : ℚ) = (2 : ℚ) ^ r.exponent * c ∧
      ((r.scale e).2 : ℚ) = (10 : ℚ) ^ e * c := by
  have htwo : (2 : ℚ) ^ r.exponent = _ := zpow_eq_div two_pos r.exponent
  have hten : (10 : ℚ) ^ e = _ := zpow_eq_div (Nat.zero_lt_succ 9) e
  have hdown : (0 : ℚ) < (2 ^ (-r.exponent).toNat : Nat) := by positivity
  have hup : (0 : ℚ) < (10 ^ (-e).toNat : Nat) := by positivity
  refine ⟨(2 ^ (-r.exponent).toNat : Nat) * (10 ^ (-e).toNat : Nat), by positivity, ?_, ?_⟩
  · rw [htwo]
    simp only [scale, Nat.pow_eq]
    field_simp
    push_cast
    ring
  · rw [hten]
    simp only [scale, Nat.pow_eq]
    field_simp
    push_cast
    ring

theorem contains_of_holds (h : r.holds d = true) : r.Contains d.value := by
  obtain ⟨c, hc, hup, hdown⟩ := r.exists_scale d.exponent
  have hunit : ∀ n : Nat, ((n * (r.scale d.exponent).1 : Nat) : ℚ) = n * (2 : ℚ) ^ r.exponent * c :=
    fun n => by rw [Nat.cast_mul, hup, mul_assoc]
  have hvalue : ((d.digits * (r.scale d.exponent).2 : Nat) : ℚ) = d.value * c := by
    rw [Nat.cast_mul, hdown, Decimal.value, mul_assoc]
  rw [holds] at h
  cases hclosed : r.closed with
  | true =>
      simp only [hclosed, if_true, Bool.and_eq_true, decide_eq_true_eq, ← Nat.cast_le (α := ℚ),
        hunit, hvalue] at h
      exact ⟨le_of_mul_le_mul_right h.1 hc, le_of_mul_le_mul_right h.2 hc, by simp [hclosed]⟩
  | false =>
      simp only [hclosed, Bool.false_eq_true, if_false, Bool.and_eq_true, decide_eq_true_eq,
        ← Nat.cast_lt (α := ℚ), hunit, hvalue] at h
      have hlow := lt_of_mul_lt_mul_right h.1 hc.le
      have hhigh := lt_of_mul_lt_mul_right h.2 hc.le
      exact ⟨hlow.le, hhigh.le, fun _ => ⟨hlow, hhigh⟩⟩

theorem holds_of_onGrid {e : Int} (h : r.onGrid tie e = some d) : r.holds d = true := by
  simp only [onGrid] at h
  split at h
  · simp at h
  · rwa [← Option.some.inj h]
  · rwa [← Option.some.inj h]
  · -- both neighbours lie in the interval, so it does not matter which one is nearer
    split at h
    · rwa [← Option.some.inj h]
    · split at h
      · rwa [← Option.some.inj h]
      · cases tie with
        | even =>
            rw [← Option.some.inj h]
            split <;> assumption
        | away => rwa [← Option.some.inj h]

theorem holds_of_search {steps : Nat} {e : Int} (h : r.search tie steps e = some d) :
    r.holds d = true := by
  induction steps generalizing e with
  | zero => simp [search] at h
  | succ steps ih =>
      rw [search, Option.or_eq_some_iff] at h
      rcases h with h | ⟨-, h⟩
      · exact holds_of_onGrid h
      · exact ih h

/-- The exact value of a binary number as a decimal. -/
theorem value_exact (n : Nat) (e : Int) :
    (⟨n * Nat.pow 2 e.toNat * Nat.pow 5 (-e).toNat, min e 0⟩ : Decimal).value =
      n * (2 : ℚ) ^ e := by
  rw [Decimal.value]
  push_cast [Nat.pow_eq]
  rcases le_total 0 e with he | he
  · obtain ⟨k, rfl⟩ := Int.eq_ofNat_of_zero_le he
    simp
  · obtain ⟨k, hk⟩ := Int.eq_ofNat_of_zero_le (Int.neg_nonneg_of_nonpos he)
    obtain rfl : e = -k := by omega
    have hten : (10 : ℚ) ^ k = 2 ^ k * 5 ^ k := by
      rw [← mul_pow]
      norm_num
    rw [min_eq_left he, neg_neg, Int.toNat_neg_natCast, Int.toNat_natCast, zpow_neg, zpow_neg,
      zpow_natCast, zpow_natCast, hten]
    field_simp

/-- The decimal with the fewest digits lies in the interval. -/
theorem contains_shortest (hlow : r.low < r.value) (hhigh : r.value < r.high) (tie : Tie)
    (steps : Nat) : r.Contains (r.shortest tie steps).value := by
  simp only [shortest]
  generalize floorLog10 _ _ = e
  cases hfound : r.search tie steps e with
  | some d => exact contains_of_holds (holds_of_search hfound)
  | none =>
      have hbelow : (r.low : ℚ) * 2 ^ r.exponent < r.value * 2 ^ r.exponent := by gcongr
      have habove : (r.value : ℚ) * 2 ^ r.exponent < r.high * 2 ^ r.exponent := by gcongr
      rw [Option.getD_none, value_exact]
      exact ⟨hbelow.le, habove.le, fun _ => ⟨hbelow, habove⟩⟩

end Rounds

/-! ## Texts of decimals -/

theorem ofDigits_append (ds es : List Char) :
    ofDigits (ds ++ es) = ofDigits ds * 10 ^ es.length + ofDigits es := by
  rw [ofDigits, Nat.ofDigitChars_append, Nat.ofDigitChars_eq_ofDigitChars_zero, Nat.mul_comm]
  rfl

theorem ofDigits_zeros_append (n : Nat) (ds : List Char) :
    ofDigits (List.replicate n '0' ++ ds) = ofDigits ds := by
  rw [ofDigits_append, ofDigits, Nat.ofDigitChars_replicate_zero, Nat.mul_zero, Nat.zero_mul,
    Nat.zero_add]

theorem ofDigits_append_zeros (ds : List Char) (n : Nat) :
    ofDigits (ds ++ List.replicate n '0') = ofDigits ds * 10 ^ n := by
  have hzeros := ofDigits_zeros_append n []
  rw [List.append_nil] at hzeros
  rw [ofDigits_append, hzeros, List.length_replicate]
  rfl

/-- The text has digits on both sides of a point, and the value. -/
structure ShowsDecimal (text whole fraction : List Char) (v : ℚ) : Prop where
  /-- The point stands between the digits. -/
  text_eq : text = whole ++ '.' :: fraction
  /-- There are digits before the point. -/
  whole_ne : whole ≠ []
  /-- Only digits stand before the point. -/
  whole_digits : whole.all Char.isDigit = true
  /-- There are digits behind the point. -/
  fraction_ne : fraction ≠ []
  /-- Only digits stand behind the point. -/
  fraction_digits : fraction.all Char.isDigit = true
  /-- All digits together, with the places behind the point, have the value. -/
  value_eq : (⟨ofDigits (whole ++ fraction), 0 - fraction.length⟩ : Decimal).value = v

/-- Digits are shown with the value that the power of the leading digit gives them. -/
theorem showsDecimal_positional {ds : List Char} (hne : ds ≠ [])
    (hds : ds.all Char.isDigit = true) (leading : Int) :
    ∃ whole fraction, ShowsDecimal (positionalText ds leading) whole fraction
      (ofDigits ds * 10 ^ (leading + 1 - ds.length)) := by
  rw [positionalText]
  split
  · refine ⟨['0'], List.replicate (-leading - 1).toNat '0' ++ ds, rfl, by simp, by decide,
      by simp [hne], by simpa using hds, ?_⟩
    have hdigits := ofDigits_zeros_append ((-leading - 1).toNat + 1) ds
    rw [List.replicate_succ, List.cons_append] at hdigits
    simp only [Decimal.value, List.singleton_append, hdigits, List.length_append,
      List.length_replicate]
    congr 2
    omega
  dsimp only
  split
  · refine ⟨ds ++ List.replicate (leading.toNat + 1 - ds.length) '0', ['0'], by simp,
      by simp [hne], by simpa using hds, by simp, by decide, ?_⟩
    have hexponent : leading + 1 - ds.length =
        ((leading.toNat + 1 - ds.length + 1 : Nat) : Int) + (0 - 1) := by omega
    rw [hexponent, zpow_add₀ (by norm_num), zpow_natCast, Decimal.value, List.append_assoc,
      ← List.replicate_succ', ofDigits_append_zeros, Nat.cast_mul, Nat.cast_pow, mul_assoc]
    rfl
  · refine ⟨ds.take (leading.toNat + 1), ds.drop (leading.toNat + 1), rfl, by simp [hne], ?_, ?_,
      ?_, ?_⟩
    · exact List.all_eq_true.mpr fun c hc => List.all_eq_true.mp hds c (List.mem_of_mem_take hc)
    · simp only [ne_eq, List.drop_eq_nil_iff]
      omega
    · exact List.all_eq_true.mpr fun c hc => List.all_eq_true.mp hds c (List.mem_of_mem_drop hc)
    · simp only [Decimal.value, List.take_append_drop, List.length_drop]
      congr 2
      omega

/-! ## Texts of numbers -/

/-- Behind its significant digits a decimal has only zeros. -/
theorem exists_significant (d : Decimal) :
    ∃ n, Nat.toDigits 10 d.digits = d.significant ++ List.replicate n '0' := by
  obtain ⟨zeros, hzeros⟩ : ∃ zeros,
      zeros = (Nat.toDigits 10 d.digits).reverse.takeWhile (· == '0') := ⟨_, rfl⟩
  have hreplicate : zeros = List.replicate zeros.length '0' := by
    refine List.eq_replicate_iff.mpr ⟨rfl, fun c hc => ?_⟩
    rw [hzeros] at hc
    simpa using List.all_eq_true.mp List.all_takeWhile c hc
  refine ⟨zeros.length, ?_⟩
  rw [← List.reverse_inj, List.reverse_append, List.reverse_replicate, ← hreplicate, hzeros,
    Decimal.significant, List.reverse_reverse, List.takeWhile_append_dropWhile]

/-- A positive decimal is shown with its value. -/
theorem showsDecimal_significant {d : Decimal} (hd : d.digits ≠ 0) :
    ∃ whole fraction,
      ShowsDecimal (positionalText d.significant d.leading) whole fraction d.value := by
  obtain ⟨n, hn⟩ := exists_significant d
  have hdigits : d.digits = ofDigits d.significant * 10 ^ n := by
    rw [← ofDigits_append_zeros, ← hn, ofDigits, Nat.ofDigitChars_ten_toDigits]
  have hne : d.significant ≠ [] := by
    intro hnil
    rw [hnil] at hdigits
    exact hd (hdigits.trans (Nat.zero_mul _))
  have hall : d.significant.all Char.isDigit = true := by
    refine List.all_eq_true.mpr fun c hc => ?_
    have hmem : c ∈ Nat.toDigits 10 d.digits := by
      rw [hn]
      exact List.mem_append_left _ hc
    exact Nat.isDigit_of_mem_toDigits (by decide) (by decide) hmem
  have hvalue : (ofDigits d.significant * 10 ^ (d.leading + 1 - d.significant.length) : ℚ) =
      d.value := by
    have hlength := congrArg List.length hn
    rw [List.length_append, List.length_replicate] at hlength
    rw [Decimal.value, hdigits, Nat.cast_mul, Nat.cast_pow, mul_assoc, Nat.cast_ofNat,
      ← zpow_natCast, ← zpow_add₀ (by norm_num), Decimal.leading, hlength]
    congr 2
    omega
  rw [← hvalue]
  exact showsDecimal_positional hne hall d.leading

variable {f : Format}

/-- The number is neither infinite nor not-a-number. -/
def Binary.isFinite (x : Binary f) : Bool :=
  match x.decode with
  | .finite _ _ _ => true
  | .nan | .infinite _ => false

namespace Binary

variable {x : Binary f} {negative : Bool} {significand : Nat} {exponent : Int}

/-- A zero is read back with its sign. -/
theorem ofDecimal_zero (hx : x.Fields negative 0 exponent) (e : Int) :
    ofDecimal negative 0 e = x := by
  have hexponent : exponent = f.minExponent := by
    by_contra hne
    have hnormal := hx.normal (lt_of_le_of_ne hx.least (Ne.symm hne))
    have hpos := Format.hiddenBit_pos (f := f)
    omega
  have hmagnitude := hx.eq_ofMagnitude
  rw [hexponent, sub_self, Int.toNat_zero, Nat.zero_mul] at hmagnitude
  exact hmagnitude

/-- The decimal that a positive number is displayed as lies in its interval. -/
theorem contains_displayed (hs : 0 < significand) (exponent : Int) :
    (Rounds.of f significand exponent).Contains
      ((Rounds.of f significand exponent).shortest .away (f.magnitudeBits + 1)).value := by
  refine Rounds.contains_shortest ?_ ?_ .away (f.magnitudeBits + 1)
  · simp only [Rounds.of]
    split <;> omega
  · simp only [Rounds.of]
    omega

end Binary

/-- A finite number is displayed as digits around a point that are read as the number. -/
theorem shows_displayNumber (hf : 2 ≤ f.exponentBits) {x : Binary f} (hx : x.isFinite = true) :
    ∃ negative text whole fraction v, ShowsDecimal text whole fraction v ∧
      (displayNumber x).toList = (if negative = true then '-' :: text else text) ∧
      Numeral.toBinary ⟨negative, whole, fraction, 0⟩ = x := by
  cases hdecode : x.decode with
  | nan | infinite => simp [Binary.isFinite, hdecode] at hx
  | finite negative significand exponent =>
      have hfields := Binary.fields_of_decode hdecode
      rcases Nat.eq_zero_or_pos significand with rfl | hs
      · have htext : (displayNumber x).toList =
            if negative = true then '-' :: ['0', '.', '0'] else ['0', '.', '0'] := by
          simp [displayNumber, Layout.text?, hdecode]
        exact ⟨negative, ['0', '.', '0'], ['0'], ['0'], _,
          ⟨rfl, by simp, by decide, by simp, by decide, rfl⟩, htext,
          Binary.ofDecimal_zero hfields _⟩
      · have hcontains := Binary.contains_displayed (f := f) hs exponent
        obtain ⟨d, hd⟩ : ∃ d, d = (Rounds.of f significand exponent).shortest .away
          (f.magnitudeBits + 1) := ⟨_, rfl⟩
        rw [← hd] at hcontains
        have htext : (displayNumber x).toList =
            if negative = true then '-' :: positionalText d.significant d.leading
            else positionalText d.significant d.leading := by
          simp [displayNumber, Layout.text?, hdecode, hs.ne', Layout.decimal, displayLayout, hd]
        obtain ⟨whole, fraction, hshows⟩ := showsDecimal_significant (hcontains.digits_ne_zero hs)
        rw [← hshows.value_eq] at hcontains
        exact ⟨negative, _, whole, fraction, _, hshows, htext,
          Binary.ofDecimal_of_contains hf hfields hs hcontains⟩

end Pushdown.Number
