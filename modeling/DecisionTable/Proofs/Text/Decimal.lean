import DecisionTable.Text.Decimal
import Mathlib.Data.Nat.Digits.Defs

/-!
# What a decimal text stands for

A numeral is a run of digits with its value by position. A sign may stand before it; the texts read
as 64-bit words are those of the integers of that range, and the text of every such integer is read
back.

* `Numeral`, `SignedNumeral` : a run of digits, and one that may have a sign, with its value;
* `IntegerText` : the text of an integer of 64 bits;
* `readInt64_eq_some_iff` : these are the texts that are read, and what they are read as;
* `integerText_toString` : every integer is written as one of them.
-/

namespace DecisionTable.Text

/-- A run of decimal digits, one at least, from the highest down, and the number it stands for. -/
inductive Numeral : List Char → Nat → Prop where
  | ofDigits (ds : List Nat) (nonempty : ds ≠ []) (small : ∀ d ∈ ds, d < 10) :
      Numeral (ds.map Nat.digitChar) (Nat.ofDigits 10 ds.reverse)

inductive SignedNumeral : List Char → Int → Prop where
  | unsigned {cs : List Char} {n : Nat} (h : Numeral cs n) : SignedNumeral cs n
  | plus {cs : List Char} {n : Nat} (h : Numeral cs n) : SignedNumeral ('+' :: cs) n
  | minus {cs : List Char} {n : Nat} (h : Numeral cs n) : SignedNumeral ('-' :: cs) (-n)

/-- The text of an integer of 64 bits: a numeral that may have a sign, and whose value is in their
range. -/
def IntegerText (s : String) (n : Int64) : Prop :=
  SignedNumeral s.toList n.toInt

/-! ## Digits -/

theorem digitChar_of_isDigit {c : Char} (h : c.isDigit) :
    c.toNat - '0'.toNat < 10 ∧ Nat.digitChar (c.toNat - '0'.toNat) = c := by
  have hrange : 48 ≤ c.toNat ∧ c.toNat ≤ 57 := by
    rw [Char.isDigit, Bool.and_eq_true, decide_eq_true_iff, decide_eq_true_iff] at h
    exact h
  have hsmall : c.toNat - 48 < 10 := by omega
  refine ⟨hsmall, Char.toNat_inj.mp ?_⟩
  exact (Nat.toNat_digitChar_of_lt_ten hsmall).trans (Nat.add_sub_of_le hrange.1)

theorem map_digitChar_of_isDigit {cs : List Char} (h : ∀ c ∈ cs, c.isDigit) :
    (cs.map fun c => c.toNat - '0'.toNat).map Nat.digitChar = cs := by
  rw [List.map_map]
  exact (List.map_congr_left fun c hc => (digitChar_of_isDigit (h c hc)).2).trans (List.map_id cs)

theorem ofDigitChars_map_digitChar {ds : List Nat} (h : ∀ d ∈ ds, d < 10) :
    Nat.ofDigitChars 10 (ds.map Nat.digitChar) 0 = Nat.ofDigits 10 ds.reverse := by
  induction ds with
  | nil => rfl
  | cons d ds ih =>
      rw [List.forall_mem_cons] at h
      rw [List.map_cons, Nat.ofDigitChars_cons_digitChar_of_lt_ten h.1,
        Nat.ofDigitChars_eq_ofDigitChars_zero, ih h.2, List.reverse_cons, Nat.ofDigits_append,
        Nat.ofDigits_singleton, List.length_map, List.length_reverse, Nat.mul_zero, Nat.zero_add,
        Nat.add_comm]

theorem readDigits_eq_some_iff {cs : List Char} {n : Nat} :
    readDigits cs = some n ↔ Numeral cs n := by
  constructor
  · intro h
    rw [readDigits, Option.ite_none_right_eq_some, Bool.and_eq_true, List.all_eq_true] at h
    obtain ⟨⟨hnonempty, hdigits⟩, hn⟩ := h
    have hmap := map_digitChar_of_isDigit hdigits
    have hsmall : ∀ d ∈ cs.map fun c => c.toNat - '0'.toNat, d < 10 := by
      rw [List.forall_mem_map]
      intro c hc
      exact (digitChar_of_isDigit (hdigits c hc)).1
    have hnumeral := Numeral.ofDigits _ (by simpa using hnonempty) hsmall
    rw [← ofDigitChars_map_digitChar hsmall, hmap, Option.some.inj hn] at hnumeral
    exact hnumeral
  · rintro ⟨ds, nonempty, small⟩
    have hall : (ds.map Nat.digitChar).all Char.isDigit = true := by
      rw [List.all_map, List.all_eq_true]
      intro d hd
      simp [Nat.isDigit_digitChar, small d hd]
    have hnonempty : (ds.map Nat.digitChar).isEmpty = false := by
      simpa using nonempty
    rw [readDigits, hall, hnonempty, ofDigitChars_map_digitChar small]
    rfl

/-! ## Signs -/

theorem Numeral.ne_nil {cs : List Char} {n : Nat} (h : Numeral cs n) : cs ≠ [] := by
  obtain ⟨ds, nonempty, small⟩ := h
  simpa using nonempty

theorem Numeral.isDigit {cs : List Char} {n : Nat} (h : Numeral cs n) :
    ∀ c ∈ cs, c.isDigit = true := by
  obtain ⟨ds, nonempty, small⟩ := h
  intro c hc
  obtain ⟨d, hd, rfl⟩ := List.mem_map.mp hc
  simp [Nat.isDigit_digitChar, small d hd]

/-- A run of digits does not start with a sign. -/
theorem Numeral.head?_ne {cs : List Char} {n : Nat} (h : Numeral cs n) :
    cs.head? ≠ some '+' ∧ cs.head? ≠ some '-' := by
  obtain ⟨ds, nonempty, small⟩ := h
  cases ds with
  | nil => exact absurd rfl nonempty
  | cons d ds =>
      rw [List.map_cons, List.head?_cons]
      constructor <;> exact fun heq => Nat.digitChar_ne _ rfl (Option.some.inj heq)

theorem readInteger_eq_some_iff {cs : List Char} {k : Int} :
    readInteger cs = some k ↔ SignedNumeral cs k := by
  constructor
  · intro h
    unfold readInteger at h
    split at h <;>
      obtain ⟨n, hn, rfl⟩ := Option.map_eq_some_iff.mp h <;>
      rw [readDigits_eq_some_iff] at hn
    · exact .plus hn
    · exact .minus hn
    · exact .unsigned hn
  · intro h
    cases h with
    | unsigned hn =>
        unfold readInteger
        split
        · exact absurd rfl hn.head?_ne.1
        · exact absurd rfl hn.head?_ne.2
        · rw [readDigits_eq_some_iff.mpr hn]
          rfl
    | plus hn =>
        rw [readInteger, readDigits_eq_some_iff.mpr hn]
        rfl
    | minus hn =>
        rw [readInteger, readDigits_eq_some_iff.mpr hn]
        rfl

/-! ## Words -/

theorem toInt64?_eq_some_iff {k : Int} {n : Int64} : toInt64? k = some n ↔ n.toInt = k := by
  rw [toInt64?, Option.ite_none_right_eq_some]
  constructor
  · rintro ⟨hrange, hn⟩
    rw [← Option.some.inj hn]
    exact Int64.toInt_ofInt_of_le hrange.1 (Int.lt_add_one_of_le hrange.2)
  · rintro rfl
    exact ⟨⟨n.minValue_le_toInt, n.toInt_le⟩, congrArg some (Int64.ofInt_toInt n)⟩

/-- The texts that are read as an integer are those of the integers of 64 bits. -/
theorem readInt64_eq_some_iff {s : String} {n : Int64} :
    readInt64 s = some n ↔ IntegerText s n := by
  unfold readInt64 IntegerText
  rw [← readInteger_eq_some_iff]
  change (readInteger s.toList).bind toInt64? = some n ↔ _
  rw [Option.bind_eq_some_iff]
  simp only [toInt64?_eq_some_iff]
  constructor
  · rintro ⟨k, hk, rfl⟩
    exact hk
  · intro h
    exact ⟨n.toInt, h, rfl⟩

theorem readInt64_eq_none_iff {s : String} : readInt64 s = none ↔ ∀ n, ¬ IntegerText s n := by
  rw [Option.eq_none_iff_forall_ne_some]
  simp only [ne_eq, readInt64_eq_some_iff]

/-- A numeral is the text of an integer of 64 bits when its value is in their range. -/
theorem SignedNumeral.exists_integerText_iff {s : String} {k : Int}
    (h : SignedNumeral s.toList k) : (∃ n, IntegerText s n) ↔ -2 ^ 63 ≤ k ∧ k < 2 ^ 63 := by
  constructor
  · rintro ⟨n, hn⟩
    rw [IntegerText, ← readInteger_eq_some_iff] at hn
    rw [← readInteger_eq_some_iff] at h
    obtain rfl := Option.some.inj (h.symm.trans hn)
    exact ⟨n.le_toInt, n.toInt_lt⟩
  · rintro ⟨hlower, hupper⟩
    refine ⟨Int64.ofInt k, ?_⟩
    rw [IntegerText, Int64.toInt_ofInt_of_le hlower hupper]
    exact h

/-! ## Integers as they are written -/

theorem numeral_repr (n : Nat) : Numeral n.repr.toList n := by
  rw [Nat.repr_eq_ofList_toDigits, String.toList_ofList, ← readDigits_eq_some_iff]
  exact readDigits_toDigits n

theorem toList_toString_negSucc (n : Nat) :
    (toString (Int.negSucc n)).toList = '-' :: (n + 1).repr.toList := by
  change ("-" ++ (n + 1).repr).toList = _
  rw [String.toList_append]
  rfl

theorem signedNumeral_toString (k : Int) : SignedNumeral (toString k).toList k := by
  cases k with
  | ofNat n => exact .unsigned (numeral_repr n)
  | negSucc n =>
      rw [toList_toString_negSucc]
      exact .minus (numeral_repr (n + 1))

/-- An integer is written in digits, after a minus sign if it is negative. -/
theorem exists_numeral_toString (k : Int) : ∃ cs n, Numeral cs n ∧
    ((toString k).toList = cs ∨ (toString k).toList = '-' :: cs) := by
  cases k with
  | ofNat n => exact ⟨_, n, numeral_repr n, Or.inl rfl⟩
  | negSucc n => exact ⟨_, n + 1, numeral_repr (n + 1), Or.inr (toList_toString_negSucc n)⟩

/-- Every integer of 64 bits is written as a text that is read as that integer. -/
theorem integerText_toString (n : Int64) : IntegerText (toString n.toInt) n :=
  signedNumeral_toString n.toInt

example : readInt64 "-9223372036854775808" = some Int64.minValue ∧
    readInt64 "+9223372036854775807" = some Int64.maxValue ∧
    readInt64 "9223372036854775808" = none ∧ readInt64 "-007" = some (-7) ∧
    readInt64 "-" = none := by
  decide

end DecisionTable.Text
