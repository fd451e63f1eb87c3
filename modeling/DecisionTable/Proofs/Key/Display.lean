import DecisionTable.Key.Column
import DecisionTable.Proofs.Text.Decimal
import DecisionTable.Proofs.Text.Quoted

/-!
# Keys told apart by their texts

No two keys are shown alike. The first character of a key tells whether it is a truth value, an
integer, a text, an interval or the catch-all key, and from the text itself can be seen where it
ends, since neither a digit nor a letter follows.

* `ClosesKey` : what can follow a key;
* `KeyType.initials`, `ColumnKey.initials` : the first characters of keys;
* `KeyValue.display_delimits`, `Interval.display_delimits`, `ColumnKey.display_delimits` : the
  texts of keys tell the keys, together with what follows.
-/

namespace DecisionTable

open Text (Delimits)

/-- A text that can follow a key: nothing, or a comma, a closing parenthesis or a blank. -/
def ClosesKey (rest : List Char) : Prop :=
  ∀ c ∈ rest.head?, c = ',' ∨ c = ')' ∨ c = ' '

theorem closesKey_nil : ClosesKey [] := nofun

/-! ## Values -/

def KeyType.initials : KeyType → List Char
  | .bool => ['t', 'f']
  | .integer => ['-', '0', '1', '2', '3', '4', '5', '6', '7', '8', '9']
  | .text => ['"']
  | .any => []

/-- The first character of a value tells its type. -/
theorem KeyType.eq_of_mem_initials {type type' : KeyType} {c : Char} (h : c ∈ type.initials)
    (h' : c ∈ type'.initials) : type = type' := by
  revert c
  cases type <;> cases type' <;> simp [initials]

namespace KeyValue

theorem exists_initial (key : KeyValue) :
    ∃ c cs, key.display.toList = c :: cs ∧ c ∈ key.keyType.initials := by
  cases key with
  | bool b => cases b <;> exact ⟨_, _, rfl, by decide⟩
  | text s => exact ⟨_, _, String.toList_ofList, List.mem_singleton_self _⟩
  | integer n =>
      obtain ⟨_, _, ⟨ds, nonempty, small⟩, h | h⟩ := Text.exists_numeral_toString n.toInt
      · obtain ⟨d, ds, rfl⟩ := List.exists_cons_of_ne_nil nonempty
        have hdigit : ∀ d < 10, Nat.digitChar d ∈ KeyType.integer.initials := by decide
        exact ⟨_, _, h, hdigit d (small d List.mem_cons_self)⟩
      · exact ⟨_, _, h, List.mem_cons_self⟩

theorem integer_display_delimits :
    Delimits ClosesKey fun n : Int64 => (toString n.toInt).toList := by
  refine Text.delimits_of_forall (p := fun c => c == '-' || c.isDigit) ?_ ?_ ?_
  · intro n m h
    have hn := Text.readInt64_eq_some_iff.mpr (Text.integerText_toString n)
    have hm := Text.readInt64_eq_some_iff.mpr (Text.integerText_toString m)
    rw [String.toList_inj.mp h] at hn
    exact Option.some.inj (hn.symm.trans hm)
  · intro n c hc
    obtain ⟨cs, k, hnumeral, h | h⟩ := Text.exists_numeral_toString n.toInt
    · rw [h] at hc
      simp [hnumeral.isDigit c hc]
    · rw [h] at hc
      rcases List.mem_cons.mp hc with rfl | hc
      · rfl
      · simp [hnumeral.isDigit c hc]
  · intro r hr c hc
    rcases hr c hc with rfl | rfl | rfl <;> decide

/-- The text of a value tells the value, and where it ends. -/
theorem display_delimits : Delimits ClosesKey fun key : KeyValue => key.display.toList := by
  intro a b r s hr hs h
  obtain ⟨c, cs, ha, hc⟩ := a.exists_initial
  obtain ⟨d, ds, hb, hd⟩ := b.exists_initial
  have hinitial : c = d := by
    simp only [ha, hb, List.cons_append] at h
    exact (List.cons.inj h).1
  have htype : a.keyType = b.keyType := KeyType.eq_of_mem_initials hc (hinitial ▸ hd)
  cases a with
  | bool x =>
      cases b with
      | bool y =>
          cases x <;> cases y
          · exact ⟨rfl, List.append_cancel_left h⟩
          · cases (List.cons.inj h).1
          · cases (List.cons.inj h).1
          · exact ⟨rfl, List.append_cancel_left h⟩
      | integer | text => cases htype
  | integer m =>
      cases b with
      | integer n =>
          obtain ⟨rfl, hrest⟩ := integer_display_delimits hr hs h
          exact ⟨rfl, hrest⟩
      | bool | text => cases htype
  | text x =>
      cases b with
      | text y =>
          have hquoted : Text.quotedChars x.toList ++ r = Text.quotedChars y.toList ++ s := by
            simpa [display, Text.quoted] using h
          obtain ⟨hxy, hrest⟩ := Text.quotedChars_delimits trivial trivial hquoted
          exact ⟨congrArg text (String.toList_inj.mp hxy), hrest⟩
      | bool | integer => cases htype

end KeyValue

/-! ## Intervals -/

namespace Interval

def lowerText : Option KeyValue → List Char
  | none => ['(', '-', 'i', 'n', 'f', ',', ' ']
  | some lower => '[' :: (lower.display.toList ++ [',', ' '])

def upperText : Option KeyValue → List Char
  | none => ['+', 'i', 'n', 'f', ')']
  | some upper => upper.display.toList ++ [')']

theorem toList_display (i : Interval) :
    i.display.toList = lowerText i.lower ++ upperText i.upper := by
  obtain ⟨lower, upper⟩ := i
  cases lower <;> cases upper <;>
    simp [display, lowerText, upperText, String.toList_append, toString]

theorem lowerText_delimits : Delimits (fun _ => True) lowerText := by
  intro a b r s _ _ h
  cases a with
  | none =>
      cases b with
      | none => exact ⟨rfl, List.append_cancel_left h⟩
      | some _ => cases (List.cons.inj h).1
  | some lower =>
      cases b with
      | none => cases (List.cons.inj h).1
      | some lower' =>
          simp only [lowerText, List.cons_append, List.append_assoc, List.cons.injEq,
            true_and] at h
          have hcomma : ∀ r : List Char, ClosesKey ([',', ' '] ++ r) := by simp [ClosesKey]
          obtain ⟨rfl, hrest⟩ := KeyValue.display_delimits (hcomma r) (hcomma s) h
          exact ⟨rfl, List.append_cancel_left hrest⟩

theorem upperText_delimits : Delimits (fun _ => True) upperText := by
  have hplus : ∀ (key : KeyValue) (r s : List Char), key.display.toList ++ r ≠ '+' :: s := by
    intro key r s h
    obtain ⟨c, cs, hkey, hc⟩ := key.exists_initial
    rw [hkey] at h
    obtain rfl := (List.cons.inj h).1
    generalize key.keyType = type at hc
    revert hc
    cases type <;> decide
  intro a b r s _ _ h
  cases a with
  | none =>
      cases b with
      | none => exact ⟨rfl, List.append_cancel_left h⟩
      | some upper =>
          rw [upperText, upperText, List.append_assoc] at h
          exact absurd h.symm (hplus upper _ _)
  | some upper =>
      rw [upperText, List.append_assoc] at h
      cases b with
      | none => exact absurd h (hplus upper _ _)
      | some upper' =>
          rw [upperText, List.append_assoc] at h
          have hparen : ∀ r : List Char, ClosesKey ([')'] ++ r) := by simp [ClosesKey]
          obtain ⟨rfl, hrest⟩ := KeyValue.display_delimits (hparen r) (hparen s) h
          exact ⟨rfl, List.append_cancel_left hrest⟩

/-- The text of an interval tells the interval, and ends with its parenthesis. -/
theorem display_delimits : Delimits (fun _ => True) fun i : Interval => i.display.toList := by
  intro i j r s _ _ h
  simp only [toList_display, List.append_assoc] at h
  obtain ⟨hlower, hrest⟩ := lowerText_delimits trivial trivial h
  obtain ⟨hupper, hrs⟩ := upperText_delimits trivial trivial hrest
  cases i
  cases j
  cases hlower
  cases hupper
  exact ⟨rfl, hrs⟩

end Interval

/-! ## Keys of columns -/

namespace ColumnKey

def initials : ColumnKey → List Char
  | .exact value => value.keyType.initials
  | .range _ => ['[', '(']
  | .any => ['*']

theorem exists_initial (key : ColumnKey) :
    ∃ c cs, key.display.toList = c :: cs ∧ c ∈ key.initials := by
  cases key with
  | exact value => exact value.exists_initial
  | any => exact ⟨_, _, rfl, List.mem_singleton_self _⟩
  | range i =>
      rw [display, i.toList_display]
      cases i.lower with
      | none => exact ⟨_, _, rfl, by simp [initials]⟩
      | some lower => exact ⟨_, _, rfl, by simp [initials]⟩

/-- No value starts like an interval or like the catch-all key. -/
theorem not_mem_initials {type : KeyType} : ∀ c ∈ type.initials, c ∉ ['[', '('] ∧ c ∉ ['*'] := by
  cases type <;> simp [KeyType.initials]

/-- The text of a key tells the key, and where it ends. -/
theorem display_delimits : Delimits ClosesKey fun key : ColumnKey => key.display.toList := by
  intro a b r s hr hs h
  obtain ⟨c, cs, ha, hc⟩ := a.exists_initial
  obtain ⟨d, ds, hb, hd⟩ := b.exists_initial
  have hinitial : d = c := by
    simp only [ha, hb, List.cons_append] at h
    exact (List.cons.inj h).1.symm
  rw [hinitial] at hd
  cases a with
  | exact x =>
      cases b with
      | exact y =>
          obtain ⟨rfl, hrest⟩ := KeyValue.display_delimits hr hs h
          exact ⟨rfl, hrest⟩
      | range j => exact absurd hd (not_mem_initials c hc).1
      | any => exact absurd hd (not_mem_initials c hc).2
  | range i =>
      cases b with
      | exact y => exact absurd hc (not_mem_initials c hd).1
      | range j =>
          obtain ⟨rfl, hrest⟩ := Interval.display_delimits trivial trivial h
          exact ⟨rfl, hrest⟩
      | any =>
          rw [List.mem_singleton.mp hd] at hc
          simp [initials] at hc
  | any =>
      cases b with
      | exact y => exact absurd hc (not_mem_initials c hd).2
      | range j =>
          rw [List.mem_singleton.mp hc] at hd
          simp [initials] at hd
      | any => exact ⟨rfl, List.append_cancel_left h⟩

end ColumnKey

/-! ## Nothing follows -/

theorem KeyValue.display_injective : Function.Injective KeyValue.display :=
  fun _ _ h => display_delimits.injective closesKey_nil (congrArg String.toList h)

theorem Interval.display_injective : Function.Injective Interval.display :=
  fun _ _ h => display_delimits.injective trivial (congrArg String.toList h)

theorem ColumnKey.display_injective : Function.Injective ColumnKey.display :=
  fun _ _ h => display_delimits.injective closesKey_nil (congrArg String.toList h)

end DecisionTable
