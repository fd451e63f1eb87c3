import DecisionTable.Json.Printer
import DecisionTable.Json.Reader
import Mathlib.Data.List.TakeDrop

/-!
# Strings and numbers read back

What is printed for a string or for an integer of 64 bits is read as just that.

* `scanText_escapedChar` : one character, whether or not it is escaped;
* `readText_escaped` : a string after its opening quote;
* `Closes` : a text that can follow a value, so that a number ends where it should;
* `scanUnsigned_toDigits` : the digits of a number with such a text after them;
* `toJson_ofDigits` : the value that such a numeral stands for.
-/

namespace DecisionTable.Json

/-! ## Strings -/

theorem hexValue?_digitChar : ∀ d < 16, hexValue? (Nat.digitChar d) = some d := by
  decide

theorem hexValue?_zero : hexValue? '0' = some 0 := by
  decide

/-- A character that stands for itself in a string. -/
theorem scanText_cons {c : Char} (hq : c ≠ '"') (hb : c ≠ '\\') (hc : ¬ c.toNat < 0x20)
    (rest : List Char) :
    scanText (c :: rest) = (scanText rest).map fun p => (.char c :: p.1, p.2) := by
  rw [scanText]
  · have hno : ¬ (c = '\\' ∨ c.toNat < 0x20) := by simp [hb, hc]
    rw [if_neg hno, Option.map_eq_bind]
    rfl
  · exact hq
  · exact fun _ _ _ _ _ h => absurd h hb
  · exact fun _ _ h => absurd h hb

/-- A character that is escaped by a letter. -/
theorem scanText_simpleEscape {escape c : Char} (hu : escape ≠ 'u')
    (he : simpleEscape? escape = some c) (rest : List Char) :
    scanText ('\\' :: escape :: rest) = (scanText rest).map fun p => (.char c :: p.1, p.2) := by
  rw [scanText]
  · rw [he, Option.map_eq_bind]
    rfl
  · exact fun _ _ _ _ _ h => absurd h hu

/-- A control character that is escaped by its code. -/
theorem scanText_codeEscape {c : Char} (hc : c.toNat < 0x20) (rest : List Char) :
    scanText ('\\' :: 'u' :: '0' :: '0' :: Nat.digitChar (c.toNat / 16) ::
      Nat.digitChar (c.toNat % 16) :: rest) =
        (scanText rest).map fun p => (.char c :: p.1, p.2) := by
  have hhigh := hexValue?_digitChar (c.toNat / 16) (by omega)
  have hlow := hexValue?_digitChar (c.toNat % 16) (by omega)
  have hcode : hexCode? '0' '0' (Nat.digitChar (c.toNat / 16)) (Nat.digitChar (c.toNat % 16)) =
      some c.toNat := by
    simp only [hexCode?, hexValue?_zero, hhigh, hlow, Option.bind_eq_bind, Option.bind_some]
    exact congrArg some (by omega)
  have hunit : TextUnit.ofCode c.toNat = .char c := by
    have hpair : ¬ (0xd800 ≤ c.toNat ∧ c.toNat ≤ 0xdfff) := by omega
    rw [TextUnit.ofCode, if_neg hpair, Char.ofNat_toNat]
  rw [scanText, hcode, Option.map_eq_bind, ← hunit]
  rfl

theorem scanText_escapedChar (c : Char) (rest : List Char) :
    scanText (escapedChar c ++ rest) = (scanText rest).map fun p => (.char c :: p.1, p.2) := by
  unfold escapedChar
  split
  · subst c; exact scanText_simpleEscape (by decide) rfl rest
  split
  · subst c; exact scanText_simpleEscape (by decide) rfl rest
  split
  · subst c; exact scanText_simpleEscape (by decide) rfl rest
  split
  · subst c; exact scanText_simpleEscape (by decide) rfl rest
  split
  · subst c; exact scanText_simpleEscape (by decide) rfl rest
  split
  · subst c; exact scanText_simpleEscape (by decide) rfl rest
  split
  · subst c; exact scanText_simpleEscape (by decide) rfl rest
  split
  next hc => exact scanText_codeEscape hc rest
  next hq hb _ _ _ _ _ hc => exact scanText_cons hq hb hc rest

/-- Units that are all characters leave no half of a pair. -/
theorem joinHalves_map_char (cs : List Char) : joinHalves (cs.map .char) = some cs := by
  induction cs with
  | nil => rfl
  | cons c cs ih => rw [List.map_cons, joinHalves, ih]; rfl

theorem scanText_escaped (cs rest : List Char) :
    scanText (cs.flatMap escapedChar ++ '"' :: rest) = some (cs.map .char, rest) := by
  induction cs with
  | nil => rfl
  | cons c cs ih =>
    rw [List.flatMap_cons, List.append_assoc, scanText_escapedChar, ih]
    rfl

theorem readText_escaped (s : String) (rest : List Char) :
    readText (s.toList.flatMap escapedChar ++ '"' :: rest) = some (some s, rest) := by
  simp [readText, scanText_escaped, joinHalves_map_char]

/-! ## Numbers -/

/-- A text that can follow a value on the page: nothing, a comma or a new line. -/
def Closes (rest : List Char) : Prop :=
  ∀ c ∈ rest.head?, c = ',' ∨ c = '\n'

theorem closes_nil : Closes [] := by
  simp [Closes]

theorem closes_comma (rest : List Char) : Closes (',' :: rest) := by
  simp [Closes]

theorem closes_newLine (depth : Nat) (rest : List Char) : Closes (newLine depth ++ rest) := by
  simp [Closes, newLine]

theorem not_isDigit_of_closes {rest : List Char} (hrest : Closes rest) :
    ∀ c ∈ rest.head?, ¬ c.isDigit ∧ c ≠ '.' ∧ c ≠ 'e' ∧ c ≠ 'E' := by
  intro c hc
  rcases hrest c hc with rfl | rfl <;> decide

theorem span_digits {ds rest : List Char} (hds : ∀ c ∈ ds, c.isDigit) (hrest : Closes rest) :
    (ds ++ rest).span Char.isDigit = (ds, rest) := by
  rw [List.span_eq_takeWhile_dropWhile, List.takeWhile_append_of_pos hds,
    List.dropWhile_append_of_pos hds]
  cases rest with
  | nil => simp
  | cons c rest =>
    have hc := (not_isDigit_of_closes hrest c rfl).1
    simp [hc]

theorem isDigit_of_mem_digits {n : Nat} {c : Char} (hc : c ∈ Nat.toDigits 10 n) : c.isDigit :=
  Nat.isDigit_of_mem_toDigits (by decide) (by decide) hc

theorem toDigits_eq_cons (n : Nat) :
    ∃ c cs, Nat.toDigits 10 n = c :: cs ∧ c.isDigit := by
  obtain ⟨c, cs, hcs⟩ := List.exists_cons_of_ne_nil (Nat.toDigits_ne_nil (n := n) (b := 10))
  exact ⟨c, cs, hcs, isDigit_of_mem_digits (n := n) (by simp [hcs])⟩

theorem scanDigits_toDigits (n : Nat) {rest : List Char} (hrest : Closes rest) :
    scanDigits (Nat.toDigits 10 n ++ rest) = some (Nat.toDigits 10 n, rest) := by
  rw [scanDigits, span_digits (fun _ => isDigit_of_mem_digits) hrest]
  simp [List.isEmpty_iff, Nat.toDigits_ne_nil]

/-- The digits of a number other than zero do not start with a zero. -/
theorem head?_toDigits {n : Nat} (hn : 0 < n) : (Nat.toDigits 10 n).head? ≠ some '0' := by
  induction n using Nat.strongRecOn with
  | ind n ih =>
    by_cases h : n < 10
    · rw [Nat.toDigits_of_lt_base h]
      intro he
      have := congrArg Char.toNat (Option.some.inj he)
      rw [Nat.toNat_digitChar_of_lt_ten h] at this
      have hz : '0'.toNat = 48 := rfl
      omega
    · have hfront := ih (n / 10) (by omega) (by omega)
      obtain ⟨c, cs, hcs, -⟩ := toDigits_eq_cons (n / 10)
      rw [Nat.toDigits_of_base_le (by decide) (by omega), hcs]
      rwa [hcs] at hfront

theorem scanWhole_toDigits (n : Nat) {rest : List Char} (hrest : Closes rest) :
    scanWhole (Nat.toDigits 10 n ++ rest) = some (Nat.toDigits 10 n, rest) := by
  have hhead : ¬ ((Nat.toDigits 10 n).head? = some '0' ∧ (Nat.toDigits 10 n).length ≠ 1) := by
    rintro ⟨hzero, hlength⟩
    rcases Nat.eq_zero_or_pos n with rfl | hn
    · exact hlength (by rw [Nat.toDigits_zero]; rfl)
    · exact head?_toDigits hn hzero
  simp only [scanWhole, scanDigits_toDigits n hrest, Option.bind_eq_bind, Option.bind_some,
    if_neg hhead]
  rfl

theorem scanFraction_of_closes {rest : List Char} (hrest : Closes rest) :
    scanFraction rest = some ([], rest) := by
  rw [scanFraction]
  rintro cs rfl
  exact (not_isDigit_of_closes hrest '.' rfl).2.1 rfl

theorem scanExponent_of_closes {rest : List Char} (hrest : Closes rest) :
    scanExponent rest = some (none, rest) := by
  cases rest with
  | nil => rfl
  | cons c rest =>
    have hc := (not_isDigit_of_closes hrest c rfl).2.2
    rw [scanExponent, if_neg (not_or.2 hc)]

def Numeral.ofDigits (negative : Bool) (n : Nat) : Numeral :=
  ⟨negative, Nat.toDigits 10 n, [], none⟩

theorem scanUnsigned_toDigits (negative : Bool) (n : Nat) {rest : List Char}
    (hrest : Closes rest) :
    scanUnsigned negative (Nat.toDigits 10 n ++ rest) =
      some (.ofDigits negative n, rest) := by
  simp only [scanUnsigned, scanWhole_toDigits n hrest, scanFraction_of_closes hrest,
    scanExponent_of_closes hrest, Option.bind_eq_bind, Option.bind_some]
  rfl

theorem scanNumber_toDigits (n : Nat) {rest : List Char} (hrest : Closes rest) :
    scanNumber (Nat.toDigits 10 n ++ rest) = some (.ofDigits false n, rest) := by
  have hscan := scanUnsigned_toDigits false n hrest
  obtain ⟨c, cs, hcs, hc⟩ := toDigits_eq_cons n
  rw [hcs] at hscan ⊢
  rw [List.cons_append, scanNumber, ← List.cons_append, hscan]
  rintro _ heq
  obtain ⟨rfl, -⟩ := List.cons.inj heq
  exact absurd hc (by decide)

theorem le_ofDigitChars (ds : List Char) (significand : Nat) :
    significand ≤ Nat.ofDigitChars 10 ds significand := by
  induction ds generalizing significand with
  | nil => exact Nat.le_refl _
  | cons c ds ih =>
    rw [Nat.ofDigitChars_cons]
    exact Nat.le_trans (by omega) (ih _)

/-- Digits fit as a whole if the number they end in does. -/
theorem appendDigits_of_lt {ds : List Char} {significand : Nat}
    (h : Nat.ofDigitChars 10 ds significand < UInt64.size) :
    appendDigits significand ds = (Nat.ofDigitChars 10 ds significand, []) := by
  induction ds generalizing significand with
  | nil => rfl
  | cons c ds ih =>
    rw [Nat.ofDigitChars_cons] at h ⊢
    have hnext := Nat.lt_of_le_of_lt (le_ofDigitChars ds _) h
    rw [appendDigits, if_pos hnext, ih h]

theorem toJson_ofDigits {negative : Bool} {n : Nat} (hn : n < UInt64.size)
    (hsign : negative → n ≠ 0) :
    (Numeral.ofDigits negative n).toJson =
      .integer (if negative then -Int.ofNat n else Int.ofNat n) := by
  have hvalue : Nat.ofDigitChars 10 (Nat.toDigits 10 n) 0 = n :=
    Nat.ofDigitChars_toDigits (by decide) (by decide)
  have hall : appendDigits 0 (Nat.toDigits 10 n) = (n, []) := by
    rw [appendDigits_of_lt (by rwa [hvalue]), hvalue]
  have hdigits : (Numeral.ofDigits negative n).digits = n := by
    simp [Numeral.digits, Numeral.ofDigits, hvalue]
  have hscientific : (Numeral.ofDigits negative n).scientific = (n, 0) := by
    simp [Numeral.scientific, Numeral.ofDigits, hall, appendDigits]
  have hrange : inRange n 0 = true := by simp [inRange]
  simp only [Numeral.toJson, hscientific, hrange, hdigits]
  cases negative with
  | false => rfl
  | true => simp [Numeral.ofDigits, hsign rfl]

end DecisionTable.Json
