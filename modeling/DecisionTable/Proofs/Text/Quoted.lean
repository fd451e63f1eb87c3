import DecisionTable.Text.Quoted
import Mathlib.Logic.Function.Basic

/-!
# Quoted text ends at its closing quote

Where a quoted text ends can be seen from the text itself, whatever comes after it, and no two texts
are quoted alike. For one character there are three forms: it stands for itself, or after a backslash
there is a letter, or its code point in braces.

* `Delimits` : values that can be told apart by their texts, together with what follows them;
* `toDigits_inj` : the digits of a number in a base up to sixteen;
* `Shown` : the forms of one character in a quoted text;
* `quotedChar_delimits`, `quotedChars_delimits` : one character, and a whole quoted text.
-/

namespace DecisionTable.Text

/-! ## Texts that show where they end -/

/-- What is written for a value can be told from what follows it, as long as that is of some form:
where two texts agree as a whole, so do the values and what follows them. -/
def Delimits {α : Type} (follows : List Char → Prop) (write : α → List Char) : Prop :=
  ∀ ⦃a b : α⦄ ⦃r s : List Char⦄, follows r → follows s → write a ++ r = write b ++ s →
    a = b ∧ r = s

variable {α : Type} {follows : List Char → Prop} {write : α → List Char}

theorem Delimits.injective (h : Delimits follows write) (hnil : follows []) :
    Function.Injective write := by
  intro a b heq
  have happend : write a ++ [] = write b ++ [] := by rw [heq]
  exact (h hnil hnil happend).1

/-- Texts of certain characters, none of which can follow, end where these characters do. -/
theorem delimits_of_forall {p : Char → Bool} (hwrite : Function.Injective write)
    (hall : ∀ a, ∀ c ∈ write a, p c = true)
    (hfollows : ∀ r, follows r → ∀ c ∈ r.head?, p c = false) : Delimits follows write := by
  intro a b r s hr hs heq
  have htake : ∀ a r, follows r → (write a ++ r).takeWhile p = write a := by
    intro a r hr
    rw [List.takeWhile_append_of_pos (hall a)]
    cases r with
    | nil => exact List.append_nil _
    | cons c r => rw [List.takeWhile_cons_of_neg (by simp [hfollows _ hr c rfl]), List.append_nil]
  have hab : write a = write b := by rw [← htake a r hr, heq, htake b s hs]
  rw [hab] at heq
  exact ⟨hwrite hab, List.append_cancel_left heq⟩

/-! ## Digits -/

theorem digitChar_inj : ∀ d < 16, ∀ e < 16, Nat.digitChar d = Nat.digitChar e → d = e := by
  decide

/-- In a base up to sixteen, numbers have different digits. -/
theorem toDigits_inj {b : Nat} (hb : 1 < b) (hb16 : b ≤ 16) {m n : Nat}
    (h : Nat.toDigits b m = Nat.toDigits b n) : m = n := by
  induction m using Nat.strongRecOn generalizing n with
  | ind m ih =>
      have hdigit : ∀ k, k % b < 16 := fun k => by have := Nat.mod_lt k (by omega : b > 0); omega
      rw [Nat.toDigits_eq_if (n := m) hb, Nat.toDigits_eq_if (n := n) hb] at h
      split at h <;> split at h
      next hm hn => exact digitChar_inj m (by omega) n (by omega) (List.singleton_inj.mp h)
      next hm hn => exact absurd (List.append_eq_singleton_iff.mp h.symm) (by simp [Nat.toDigits_ne_nil])
      next hm hn => exact absurd (List.append_eq_singleton_iff.mp h) (by simp [Nat.toDigits_ne_nil])
      next hm hn =>
        obtain ⟨hrest, hlast⟩ := List.append_inj' h rfl
        have hquotient := ih (m / b) (Nat.div_lt_self (by omega) hb) hrest
        have hremainder := digitChar_inj _ (hdigit m) _ (hdigit n) (List.singleton_inj.mp hlast)
        rw [← Nat.div_add_mod m b, ← Nat.div_add_mod n b, hquotient, hremainder]

theorem exists_digit_of_mem_toDigits {b : Nat} (hb : 1 < b) {n : Nat} {c : Char}
    (h : c ∈ Nat.toDigits b n) : ∃ d, Nat.digitChar d = c := by
  induction n using Nat.strongRecOn with
  | ind n ih =>
      rw [Nat.toDigits_eq_if hb] at h
      split at h
      next => exact ⟨n, (List.mem_singleton.mp h).symm⟩
      next hn =>
        rcases List.mem_append.mp h with h | h
        · exact ih (n / b) (Nat.div_lt_self (by omega) hb) h
        · exact ⟨n % b, (List.mem_singleton.mp h).symm⟩

/-! ## One character -/

def namedEscapes : List (Char × Char) :=
  [('\x00', '0'), ('\t', 't'), ('\r', 'r'), ('\n', 'n'), ('"', '"'), ('\\', '\\')]

inductive Shown (c : Char) : List Char → Prop where
  | named {letter : Char} (h : (c, letter) ∈ namedEscapes) : Shown c ['\\', letter]
  | code : Shown c (codePointEscape c)
  | plain (hquote : c ≠ '"') (hbackslash : c ≠ '\\') : Shown c [c]

theorem shown_quotedChar (c : Char) : Shown c (quotedChar c) := by
  unfold quotedChar
  split
  next h => subst h; exact .named (by decide)
  split
  next h => subst h; exact .named (by decide)
  split
  next h => subst h; exact .named (by decide)
  split
  next h => subst h; exact .named (by decide)
  split
  next h => subst h; exact .named (by decide)
  split
  next h => subst h; exact .named (by decide)
  split
  next => exact .code
  next hquote hbackslash _ => exact .plain hquote hbackslash

/-- No letter stands for two characters, and none for the escape by code point. -/
theorem named_inj : ∀ e ∈ namedEscapes, e.2 ≠ 'u' ∧ ∀ f ∈ namedEscapes, e.2 = f.2 → e = f := by
  decide

theorem codePointEscape_delimits : Delimits (fun _ => True) codePointEscape := by
  have hdigits : Delimits (fun r => r.head? = some '}') fun c : Char => Nat.toDigits 16 c.toNat := by
    refine delimits_of_forall (p := (· != '}')) ?_ ?_ ?_
    · intro c d h
      exact Char.toNat_inj.mp (toDigits_inj (by decide) (by decide) h)
    · intro c digit hdigit
      obtain ⟨d, rfl⟩ := exists_digit_of_mem_toDigits (by decide) hdigit
      exact bne_iff_ne.mpr (Nat.digitChar_ne '}' rfl)
    · intro r hr c hc
      obtain rfl := Option.some.inj (hr.symm.trans hc)
      rfl
  intro c d r s _ _ h
  have hbraced : Nat.toDigits 16 c.toNat ++ '}' :: r = Nat.toDigits 16 d.toNat ++ '}' :: s := by
    simpa [codePointEscape] using h
  obtain ⟨rfl, hrest⟩ := hdigits rfl rfl hbraced
  exact ⟨rfl, (List.cons.inj hrest).2⟩

theorem quotedChar_delimits : Delimits (fun _ => True) quotedChar := by
  intro c d r s hr hs h
  have hc := shown_quotedChar c
  have hd := shown_quotedChar d
  generalize quotedChar c = cs at hc h
  generalize quotedChar d = ds at hd h
  cases hc with
  | named hc =>
      obtain ⟨hletter, hsame⟩ := named_inj _ hc
      cases hd with
      | named hd =>
          simp only [List.cons_append, List.nil_append, List.cons.injEq, true_and] at h
          exact ⟨congrArg Prod.fst (hsame _ hd h.1), h.2⟩
      | code => simp [codePointEscape, hletter] at h
      | plain _ hbackslash => simp [hbackslash.symm] at h
  | code =>
      cases hd with
      | named hd => simp [codePointEscape, (named_inj _ hd).1.symm] at h
      | code => exact codePointEscape_delimits hr hs h
      | plain _ hbackslash => simp [codePointEscape, hbackslash.symm] at h
  | plain _ hbackslash =>
      cases hd with
      | named => simp [hbackslash] at h
      | code => simp [codePointEscape, hbackslash] at h
      | plain => exact List.cons.inj h

/-- No character is shown with a quote in front, where the text would end. -/
theorem quotedChar_ne_quote (c : Char) (r s : List Char) : quotedChar c ++ r ≠ '"' :: s := by
  have hc := shown_quotedChar c
  generalize quotedChar c = cs at hc
  cases hc with
  | named => simp
  | code => simp [codePointEscape]
  | plain hquote => simp [hquote]

/-! ## A quoted text -/

theorem flatMap_quotedChar_delimits : ∀ {s t r r' : List Char},
    s.flatMap quotedChar ++ '"' :: r = t.flatMap quotedChar ++ '"' :: r' → s = t ∧ r = r'
  | [], [], _, _, h => ⟨rfl, (List.cons.inj h).2⟩
  | [], d :: t, _, _, h => by
      rw [List.flatMap_cons, List.append_assoc] at h
      exact absurd h.symm (quotedChar_ne_quote d _ _)
  | c :: s, [], _, _, h => by
      rw [List.flatMap_cons, List.append_assoc] at h
      exact absurd h (quotedChar_ne_quote c _ _)
  | c :: s, d :: t, r, r', h => by
      rw [List.flatMap_cons, List.flatMap_cons, List.append_assoc, List.append_assoc] at h
      obtain ⟨rfl, hrest⟩ := quotedChar_delimits trivial trivial h
      obtain ⟨rfl, hr⟩ := flatMap_quotedChar_delimits hrest
      exact ⟨rfl, hr⟩

/-- A quoted text ends at its closing quote, and is that of one text only. -/
theorem quotedChars_delimits : Delimits (fun _ => True) quotedChars := by
  intro s t r r' _ _ h
  have hrest : s.flatMap quotedChar ++ '"' :: r = t.flatMap quotedChar ++ '"' :: r' := by
    simpa [quotedChars] using h
  exact flatMap_quotedChar_delimits hrest

end DecisionTable.Text
