import DecisionTable.Proofs.Key.Display
import DecisionTable.Proofs.Tree.Trace

/-!
# Key paths told apart by their texts

A path of keys below the same columns is known from its text: each key stands after the name of its
column, and its own text tells where the next one starts. So names may be any text at all, also one
that looks like a part of a path.

* `steps` : the text of a path, with a slash in front of every key;
* `steps_inj` : which keys it is the text of;
* `path_identifies_keys` : paths of the same columns, and keys on their own.
-/

namespace DecisionTable.KeyPath

/-! ## The text of a path -/

def slash : List Char := [' ', '/', ' ']

def step (entry : String × ColumnKey) : List Char :=
  entry.1.toList ++ '=' :: entry.2.display.toList

/-- Keys after the names of their columns, with a slash in front of each. -/
def steps (columns : List String) (keys : List ColumnKey) : List Char :=
  (columns.zip keys).flatMap fun entry => slash ++ step entry

theorem steps_cons (name : String) (columns : List String) (key : ColumnKey)
    (keys : List ColumnKey) : steps (name :: columns) (key :: keys) =
      slash ++ (name.toList ++ '=' :: (key.display.toList ++ steps columns keys)) := by
  simp [steps, step]

theorem closesKey_steps (columns : List String) (keys : List ColumnKey) :
    ClosesKey (steps columns keys) := by
  unfold steps
  cases columns.zip keys with
  | nil => exact closesKey_nil
  | cons => simp [ClosesKey, slash]

/-- Below the same columns, different keys give different texts. -/
theorem steps_inj {columns : List String} {keys keys' : List ColumnKey}
    (hkeys : keys.length ≤ columns.length) (hkeys' : keys'.length ≤ columns.length)
    (h : steps columns keys = steps columns keys') : keys = keys' := by
  induction columns generalizing keys keys' with
  | nil =>
      rw [List.eq_nil_of_length_eq_zero (Nat.le_zero.mp hkeys),
        List.eq_nil_of_length_eq_zero (Nat.le_zero.mp hkeys')]
  | cons name columns ih =>
      cases keys with
      | nil =>
          cases keys' with
          | nil => rfl
          | cons key' keys' =>
              rw [steps_cons] at h
              cases h
      | cons key keys =>
          cases keys' with
          | nil =>
              rw [steps_cons] at h
              cases h
          | cons key' keys' =>
              rw [steps_cons, steps_cons] at h
              have hname := List.append_cancel_left (List.append_cancel_left h)
              obtain ⟨rfl, hrest⟩ := ColumnKey.display_delimits (closesKey_steps columns keys)
                (closesKey_steps columns keys') (List.cons.inj hname).2
              rw [ih (Nat.le_of_succ_le_succ hkeys) (Nat.le_of_succ_le_succ hkeys') hrest]

/-- Up to the number of columns, every key is labelled. -/
theorem segments_follow {columns : List String} {keys : List ColumnKey}
    (hkeys : keys.length ≤ columns.length) : ((forColumns columns).follow keys).segments =
      (columns.zip keys).map fun entry => entry.1 ++ "=" ++ entry.2.display := by
  rw [follow_eq_extend]
  refine List.ext_getElem (by simp [extend, forColumns, hkeys]) fun n hn hn' => ?_
  have hlt : n < columns.length := by
    rw [List.length_map, List.length_zip] at hn'
    omega
  simp [extend, forColumns, depth, labelled, hlt, toString]

theorem slash_append_intercalate (text : List Char) (texts : List (List Char)) :
    slash ++ slash.intercalate (text :: texts) = (text :: texts).flatMap (slash ++ ·) := by
  induction texts generalizing text with
  | nil => simp
  | cons next texts ih =>
      rw [List.intercalate_cons_cons, List.append_assoc text, ih]
      simp only [List.flatMap_cons, List.append_assoc]

/-- A slash in front of every key of a path that has keys. -/
theorem slash_append_display {columns : List String} {keys : List ColumnKey} (hne : keys ≠ [])
    (hkeys : keys.length ≤ columns.length) :
    slash ++ ((forColumns columns).follow keys).display.toList = steps columns keys := by
  obtain ⟨key, keys, rfl⟩ := List.exists_cons_of_ne_nil hne
  obtain ⟨name, columns, rfl⟩ :=
    List.exists_cons_of_ne_nil (List.length_pos_iff.mp (Nat.lt_of_lt_of_le (Nat.succ_pos _) hkeys))
  have hsegments := segments_follow hkeys
  rw [List.zip_cons_cons, List.map_cons] at hsegments
  rw [display, hsegments, List.isEmpty_cons, if_neg Bool.false_ne_true,
    String.toList_intercalate, List.map_cons]
  refine (slash_append_intercalate _ _).trans ?_
  simp [steps, step, List.flatMap_map, Function.comp_def, String.toList_append]

/-- The text of a path without keys is that of no other. -/
theorem display_ne_root {columns : List String} {keys : List ColumnKey} (hne : keys ≠ [])
    (hkeys : keys.length ≤ columns.length) :
    ((forColumns columns).follow keys).display ≠ "<root>" := by
  intro h
  have hsteps := slash_append_display hne hkeys
  rw [h] at hsteps
  obtain ⟨key, keys, rfl⟩ := List.exists_cons_of_ne_nil hne
  obtain ⟨name, columns, rfl⟩ :=
    List.exists_cons_of_ne_nil (List.length_pos_iff.mp (Nat.lt_of_lt_of_le (Nat.succ_pos _) hkeys))
  have hequals : '=' ∈ slash ++ "<root>".toList := by
    rw [hsteps, steps_cons]
    simp
  revert hequals
  decide

/-- The text of a path of keys, none of them beyond the columns, tells the keys. So does the text of
a value, of an interval and of a key of a column. -/
theorem path_identifies_keys (columns : List String) {keys keys' : List ColumnKey}
    (hkeys : keys.length ≤ columns.length) (hkeys' : keys'.length ≤ columns.length) :
    (((forColumns columns).follow keys).display = ((forColumns columns).follow keys').display ↔
      keys = keys') ∧
    Function.Injective KeyValue.display ∧ Function.Injective Interval.display ∧
    Function.Injective ColumnKey.display := by
  refine ⟨⟨fun h => ?_, fun h => h ▸ rfl⟩, KeyValue.display_injective,
    Interval.display_injective, ColumnKey.display_injective⟩
  have hroot : ((forColumns columns).follow []).display = "<root>" := rfl
  by_cases hne : keys = []
  · subst hne
    by_contra hne'
    exact display_ne_root (Ne.symm hne') hkeys' (h.symm.trans hroot)
  · by_cases hne' : keys' = []
    · subst hne'
      exact absurd (h.trans hroot) (display_ne_root hne hkeys)
    · refine steps_inj hkeys hkeys' ?_
      rw [← slash_append_display hne hkeys, ← slash_append_display hne' hkeys', h]

/-- A text with the looks of a path is not taken for one, whatever the columns are called. -/
theorem path_identifies_keys_lookalike :
    let columns := ["a", "b=2 / b"]
    let pair : List ColumnKey := [.exact (.integer 1), .exact (.integer 2)]
    let single : List ColumnKey := [.exact (.text "1 / b=2 / b=2")]
    ((forColumns columns).follow pair).display ≠ ((forColumns columns).follow single).display := by
  intro columns pair single h
  have hlengths : pair.length ≤ columns.length ∧ single.length ≤ columns.length := by decide
  have heq : pair = single := (path_identifies_keys columns hlengths.1 hlengths.2).1.mp h
  revert heq
  decide

end DecisionTable.KeyPath
