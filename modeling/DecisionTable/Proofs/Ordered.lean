import DecisionTable.Ordered.Bisect
import DecisionTable.Ordered.Distinct
import DecisionTable.Ordered.Entries
import Mathlib.Data.List.Forall2
import Mathlib.Data.List.Nodup
import Mathlib.Data.Option.Basic

/-!
# Laws of the ordered lists

* `Distinct.eq_of_mem_iff` : sets in ascending order are equal when they have the same elements;
* `Entries.lookup_put`, `Entries.ascending_put` : what replacing one entry does;
* `Entries.correspond_of_lookup` : entry lists whose keys ascend correspond, entry by entry, as soon
  as they correspond under every key;
* `exists_split_partitionPoint` : the partition point cuts a list in two where the predicate turns.
-/

namespace DecisionTable.Ordered

/-! ## Sets -/

namespace Distinct

variable {α : Type} [Ord α] [Std.TransOrd α] [Std.LawfulEqOrd α]

omit [Std.LawfulEqOrd α] in
theorem Ascending.nodup {xs : List α} (h : Ascending xs) : xs.Nodup := by
  refine h.imp fun {a b} hab hne => ?_
  subst hne
  simp [Std.ReflOrd.compare_self] at hab

theorem ascending_insert {a : α} {xs : List α} (h : Ascending xs) : Ascending (insert a xs) := by
  induction xs with
  | nil => exact List.pairwise_singleton _ _
  | cons b rest ih =>
      obtain ⟨hb, hrest⟩ := List.pairwise_cons.mp h
      simp only [insert]
      split
      · rename_i hab
        refine List.pairwise_cons.mpr ⟨fun c hc => ?_, h⟩
        rcases List.mem_cons.mp hc with rfl | hc
        · exact hab
        · exact Std.TransCmp.lt_trans hab (hb c hc)
      · exact h
      · rename_i hab
        refine List.pairwise_cons.mpr ⟨fun c hc => ?_, ih hrest⟩
        rcases mem_insert.mp hc with rfl | hc
        · exact Std.OrientedCmp.lt_of_gt hab
        · exact hb c hc

theorem ascending_union {xs added : List α} (h : Ascending xs) : Ascending (union xs added) := by
  induction added generalizing xs with
  | nil => exact h
  | cons a rest ih => exact ih (ascending_insert h)

theorem ascending_ofList (xs : List α) : Ascending (ofList xs) :=
  ascending_union List.Pairwise.nil

omit [Std.LawfulEqOrd α] in
/-- Sets in ascending order are determined by their elements. -/
theorem eq_of_mem_iff {xs ys : List α} (hx : Ascending xs) (hy : Ascending ys)
    (h : ∀ a, a ∈ xs ↔ a ∈ ys) : xs = ys := by
  have hperm : xs.Perm ys := (List.perm_ext_iff_of_nodup hx.nodup hy.nodup).mpr h
  apply hperm.eq_of_pairwise _ hx hy
  intro a b _ _ hab hba
  rw [Std.OrientedCmp.gt_of_lt hab] at hba
  cases hba

theorem ofList_congr {xs ys : List α} (h : ∀ a, a ∈ xs ↔ a ∈ ys) : ofList xs = ofList ys := by
  apply eq_of_mem_iff (ascending_ofList xs) (ascending_ofList ys)
  intro a
  rw [mem_ofList, mem_ofList, h]

end Distinct

/-! ## Entries -/

namespace Entries

variable {κ α β : Type}

theorem lookup_cons_of_ne [DecidableEq κ] {key first : κ} {held : α} (h : key ≠ first)
    (entries : List (κ × α)) : ((first, held) :: entries).lookup key = entries.lookup key := by
  simp only [List.lookup_cons, beq_false_of_ne h]

theorem lookup_put [Ord κ] [Std.LawfulEqOrd κ] [DecidableEq κ] (key key' : κ) (value : α)
    (entries : List (κ × α)) :
    (put key value entries).lookup key' =
      if key' = key then some value else entries.lookup key' := by
  induction entries with
  | nil =>
      by_cases h : key' = key
      · simp [put, h]
      · simp [put, h, lookup_cons_of_ne h]
  | cons entry rest ih =>
      simp only [put]
      split
      · by_cases h : key' = key
        · simp [h]
        · rw [lookup_cons_of_ne h, if_neg h]
      · rename_i heq
        have hkey : key = entry.1 := Std.LawfulEqOrd.eq_of_compare heq
        by_cases h : key' = key
        · simp [h]
        · rw [lookup_cons_of_ne h, if_neg h, lookup_cons_of_ne (hkey ▸ h)]
      · rename_i hgt
        by_cases h : key' = entry.1
        · have hne : key' ≠ key := by
            rintro rfl
            rw [h, Std.ReflOrd.compare_self] at hgt
            cases hgt
          rw [if_neg hne]
          obtain ⟨first, held⟩ := entry
          simp [h]
        · rw [lookup_cons_of_ne h, lookup_cons_of_ne h, ih]

theorem lookup_remove [DecidableEq κ] (key key' : κ) (entries : List (κ × α)) :
    (remove key entries).lookup key' = if key' = key then none else entries.lookup key' := by
  induction entries with
  | nil => simp [remove]
  | cons entry rest ih =>
      obtain ⟨first, held⟩ := entry
      unfold remove at ih ⊢
      by_cases hfirst : key = first
      · subst hfirst
        rw [List.filter_cons_of_neg (by simp), ih]
        by_cases h : key' = key
        · rw [if_pos h, if_pos h]
        · rw [if_neg h, if_neg h, lookup_cons_of_ne h]
      · rw [List.filter_cons_of_pos (by simpa using hfirst)]
        by_cases h : key' = first
        · subst h
          rw [if_neg (Ne.symm hfirst), List.lookup_cons_self, List.lookup_cons_self]
        · rw [lookup_cons_of_ne h, lookup_cons_of_ne h, ih]

theorem lookup_map [DecidableEq κ] (g : κ → α → β) (key : κ) (entries : List (κ × α)) :
    (entries.map fun entry => (entry.1, g entry.1 entry.2)).lookup key =
      (entries.lookup key).map (g key) := by
  induction entries with
  | nil => rfl
  | cons entry rest ih =>
      obtain ⟨first, held⟩ := entry
      by_cases h : key = first
      · subst h
        simp
      · rw [List.map_cons, lookup_cons_of_ne h, lookup_cons_of_ne h, ih]

theorem mem_put [Ord κ] {key : κ} {value : α} {entry : κ × α} {entries : List (κ × α)}
    (h : entry ∈ put key value entries) : entry = (key, value) ∨ entry ∈ entries := by
  induction entries with
  | nil => simpa [put] using h
  | cons first rest ih =>
      simp only [put] at h
      split at h
      · simpa using h
      · rcases List.mem_cons.mp h with h | h
        · exact Or.inl h
        · exact Or.inr (List.mem_cons_of_mem _ h)
      · rcases List.mem_cons.mp h with rfl | h
        · exact Or.inr List.mem_cons_self
        · exact (ih h).imp_right (List.mem_cons_of_mem _)

theorem ascending_put [Ord κ] [Std.TransOrd κ] [Std.LawfulEqOrd κ] {key : κ} {value : α}
    {entries : List (κ × α)} (h : Ascending entries) : Ascending (put key value entries) := by
  induction entries with
  | nil => exact List.pairwise_singleton _ _
  | cons entry rest ih =>
      obtain ⟨hfirst, hrest⟩ := List.pairwise_cons.mp h
      simp only [put]
      split
      · rename_i hlt
        refine List.pairwise_cons.mpr ⟨fun e he => ?_, h⟩
        rcases List.mem_cons.mp he with rfl | he
        · exact hlt
        · exact Std.TransCmp.lt_trans hlt (hfirst e he)
      · rename_i heq
        obtain rfl : key = entry.1 := Std.LawfulEqOrd.eq_of_compare heq
        exact List.pairwise_cons.mpr ⟨hfirst, hrest⟩
      · rename_i hgt
        refine List.pairwise_cons.mpr ⟨fun e he => ?_, ih hrest⟩
        rcases mem_put he with rfl | he
        · exact Std.OrientedCmp.lt_of_gt hgt
        · exact hfirst e he

theorem ascending_iff [Ord κ] {entries : List (κ × α)} :
    Ascending entries ↔ (entries.map Prod.fst).Pairwise fun k k' => compare k k' = .lt := by
  rw [Ascending, List.pairwise_map]

theorem nodup_keys [Ord κ] [Std.ReflOrd κ] {entries : List (κ × α)} (h : Ascending entries) :
    (entries.map Prod.fst).Nodup := by
  apply (ascending_iff.mp h).imp
  rintro a _ hab rfl
  simp [Std.ReflOrd.compare_self] at hab

variable [DecidableEq κ]

theorem mem_of_lookup {entries : List (κ × α)} {key : κ} {value : α}
    (h : entries.lookup key = some value) : (key, value) ∈ entries := by
  obtain ⟨before, after, rfl, -⟩ := List.lookup_eq_some_iff.mp h
  simp

/-- With distinct keys, an entry is found under its key. -/
theorem lookup_of_mem {entries : List (κ × α)} (hkeys : (entries.map Prod.fst).Nodup) {key : κ}
    {value : α} (h : (key, value) ∈ entries) : entries.lookup key = some value := by
  induction entries with
  | nil => cases h
  | cons entry rest ih =>
      obtain ⟨hfirst, hrest⟩ := List.nodup_cons.mp hkeys
      rcases List.mem_cons.mp h with rfl | h
      · simp
      · have hne : key ≠ entry.1 := by
          rintro rfl
          exact hfirst (List.mem_map.mpr ⟨_, h, rfl⟩)
        rw [lookup_cons_of_ne hne, ih hrest h]

theorem mem_keys_iff {entries : List (κ × α)} {key : κ} :
    key ∈ entries.map Prod.fst ↔ (entries.lookup key).isSome := by
  induction entries with
  | nil => simp
  | cons entry rest ih =>
      by_cases h : key = entry.1
      · simp [h]
      · rw [lookup_cons_of_ne h, ← ih]
        simp [h]

theorem lookup_eq_none_of_not_mem {entries : List (κ × α)} {key : κ}
    (h : key ∉ entries.map Prod.fst) : entries.lookup key = none := by
  rwa [mem_keys_iff, Bool.not_eq_true, Option.isSome_eq_false_iff, Option.isNone_iff_eq_none] at h

/-- An entry put between others is found under its key, and nothing else changes. -/
theorem lookup_between {front back : List (κ × α)} {key : κ} (h : key ∉ front.map Prod.fst)
    (value : α) (key' : κ) :
    (front ++ (key, value) :: back).lookup key' =
      if key' = key then some value else (front ++ back).lookup key' := by
  rw [List.lookup_append, List.lookup_append]
  by_cases hk : key' = key
  · subst hk
    simp [lookup_eq_none_of_not_mem h]
  · rw [if_neg hk, lookup_cons_of_ne hk]

section Rel

variable {R : α → β → Prop} {a : α} {b : β} {x : Option α} {y : Option β}

omit [DecidableEq κ] in
theorem exists_of_rel_some_left (h : Option.Rel R (some a) y) : ∃ b, y = some b ∧ R a b := by
  cases h with
  | some hab => exact ⟨_, rfl, hab⟩

omit [DecidableEq κ] in
theorem exists_of_rel_some_right (h : Option.Rel R x (some b)) : ∃ a, x = some a ∧ R a b := by
  cases h with
  | some hab => exact ⟨_, rfl, hab⟩

omit [DecidableEq κ] in
theorem eq_of_rel {x y : Option α} (h : Option.Rel Eq x y) : x = y := by
  cases h with
  | none => rfl
  | some hab => exact congrArg some hab

end Rel

/-- Two entry lists have the same keys in the same order, and related values under them. -/
def Correspond (R : α → β → Prop) (es : List (κ × α)) (es' : List (κ × β)) : Prop :=
  List.Forall₂ (fun e e' => e.1 = e'.1 ∧ R e.2 e'.2) es es'

section Correspond

variable {R : α → β → Prop} {e : κ × α} {e' : κ × β} {es : List (κ × α)} {es' : List (κ × β)}

omit [DecidableEq κ]

@[simp] theorem correspond_nil : Correspond R ([] : List (κ × α)) [] := List.Forall₂.nil

@[simp] theorem not_correspond_nil_cons : ¬ Correspond R [] (e' :: es') := nofun

@[simp] theorem not_correspond_cons_nil : ¬ Correspond R (e :: es) [] := nofun

@[simp] theorem correspond_cons : Correspond R (e :: es) (e' :: es') ↔
    (e.1 = e'.1 ∧ R e.2 e'.2) ∧ Correspond R es es' :=
  List.forall₂_cons

end Correspond

/-- Entry lists with the same distinct keys in the same order correspond entry by entry. -/
theorem correspond_of_keys_eq {R : α → β → Prop} {es : List (κ × α)} {es' : List (κ × β)}
    (hkeys : es.map Prod.fst = es'.map Prod.fst) (hnodup : (es.map Prod.fst).Nodup)
    (h : ∀ key, Option.Rel R (es.lookup key) (es'.lookup key)) : Correspond R es es' := by
  induction es generalizing es' with
  | nil =>
      obtain rfl : es' = [] := List.map_eq_nil_iff.mp hkeys.symm
      exact List.Forall₂.nil
  | cons e rest ih =>
      cases es' with
      | nil => cases hkeys
      | cons e' rest' =>
          obtain ⟨key, value⟩ := e
          obtain ⟨key', value'⟩ := e'
          obtain ⟨rfl, htail⟩ := List.cons.inj hkeys
          obtain ⟨hnot, hrest⟩ := List.nodup_cons.mp hnodup
          have hhead := h key
          rw [List.lookup_cons_self, List.lookup_cons_self] at hhead
          cases hhead with
          | some hR =>
              apply List.Forall₂.cons ⟨rfl, hR⟩
              apply ih htail hrest
              intro k
              by_cases hk : k = key
              · subst hk
                rw [lookup_eq_none_of_not_mem hnot, lookup_eq_none_of_not_mem (htail ▸ hnot)]
                exact Option.Rel.none
              · have hk := h k
                rwa [lookup_cons_of_ne ‹_›, lookup_cons_of_ne ‹_›] at hk

/-- Entry lists whose keys ascend in one strict order correspond entry by entry, as soon as they
correspond under every key. -/
theorem correspond_of_lookup {R : α → β → Prop} {r : κ → κ → Prop} (asymm : ∀ a b, r a b → ¬ r b a)
    {es : List (κ × α)} {es' : List (κ × β)} (hes : (es.map Prod.fst).Pairwise r)
    (hes' : (es'.map Prod.fst).Pairwise r)
    (h : ∀ key, Option.Rel R (es.lookup key) (es'.lookup key)) : Correspond R es es' := by
  have hne : ∀ {a b}, r a b → a ≠ b := by
    rintro a _ hab rfl
    exact asymm a a hab hab
  have hnodup : (es.map Prod.fst).Nodup := hes.imp hne
  have hmem : ∀ key, key ∈ es.map Prod.fst ↔ key ∈ es'.map Prod.fst := by
    intro key
    have hsome : ∀ {x : Option α} {y : Option β}, Option.Rel R x y → (x.isSome ↔ y.isSome) := by
      rintro _ _ (⟨_⟩ | _) <;> simp
    rw [mem_keys_iff, mem_keys_iff]
    exact hsome (h key)
  have hperm : (es.map Prod.fst).Perm (es'.map Prod.fst) :=
    (List.perm_ext_iff_of_nodup hnodup (hes'.imp hne)).mpr hmem
  have hkeys := hperm.eq_of_pairwise (fun a b _ _ hab hba => absurd hba (asymm a b hab)) hes hes'
  exact correspond_of_keys_eq hkeys hnodup h

/-- Entry lists that correspond entry by entry correspond under every key. -/
theorem Correspond.lookup {R : α → β → Prop} {es : List (κ × α)} {es' : List (κ × β)}
    (h : Correspond R es es') (key : κ) : Option.Rel R (es.lookup key) (es'.lookup key) := by
  induction h with
  | nil => exact Option.Rel.none
  | @cons e e' rest rest' hhead htail ih =>
      obtain ⟨first, value⟩ := e
      obtain ⟨_, value'⟩ := e'
      obtain ⟨rfl, hR⟩ := hhead
      by_cases hk : key = first
      · subst hk
        simpa using Option.Rel.some hR
      · rwa [lookup_cons_of_ne hk, lookup_cons_of_ne hk]

omit [DecidableEq κ] in
theorem Correspond.imp_of_mem {R S : α → β → Prop} {es : List (κ × α)} {es' : List (κ × β)}
    (h : Correspond R es es') (himp : ∀ e ∈ es, ∀ value, R e.2 value → S e.2 value) :
    Correspond S es es' := by
  induction h with
  | nil => exact .nil
  | @cons e e' rest rest' hhead _ ih =>
      refine .cons ⟨hhead.1, himp e List.mem_cons_self _ hhead.2⟩ (ih fun e he => ?_)
      exact himp e (List.mem_cons_of_mem _ he)

omit [DecidableEq κ] in
theorem Correspond.keys_eq {R : α → β → Prop} {es : List (κ × α)} {es' : List (κ × β)}
    (h : Correspond R es es') : es.map Prod.fst = es'.map Prod.fst := by
  induction h with
  | nil => rfl
  | cons hhead _ ih => simp [hhead.1, ih]

omit [DecidableEq κ] in
/-- Entry lists that correspond with equal values are equal. -/
theorem Correspond.eq {es es' : List (κ × α)} (h : Correspond Eq es es') : es = es' :=
  List.forall₂_eq_eq_eq ▸ h.imp fun _ _ hpair => Prod.ext hpair.1 hpair.2

end Entries

/-! ## Bisection -/

section Bisection

variable {α : Type} {p : α → Bool}

theorem exists_split {xs : List α} (h : xs.Pairwise fun a b => p b = true → p a = true) :
    ∃ front back, xs = front ++ back ∧ (∀ a ∈ front, p a = true) ∧ ∀ b ∈ back, p b = false := by
  induction xs with
  | nil => exact ⟨[], [], rfl, by simp, by simp⟩
  | cons x rest ih =>
      obtain ⟨hx, hrest⟩ := List.pairwise_cons.mp h
      cases hp : p x with
      | true =>
          obtain ⟨front, back, rfl, hfront, hback⟩ := ih hrest
          exact ⟨x :: front, back, rfl, by simpa [hp] using hfront, hback⟩
      | false =>
          refine ⟨[], x :: rest, rfl, by simp, ?_⟩
          intro b hb
          rcases List.mem_cons.mp hb with rfl | hb
          · exact hp
          · have := hx b hb
            grind

/-- Where a predicate holds of every element in front of one of which it holds, the partition point
cuts the list in two. -/
theorem exists_split_partitionPoint {xs : Array α}
    (h : xs.toList.Pairwise fun a b => p b = true → p a = true) :
    ∃ front back, xs.toList = front ++ back ∧ partitionPoint p xs = front.length ∧
      (∀ a ∈ front, p a = true) ∧ ∀ b ∈ back, p b = false := by
  obtain ⟨front, back, hxs, hfront, hback⟩ := exists_split h
  refine ⟨front, back, hxs, partitionPoint_eq ?_ ?_ ?_, hfront, hback⟩
  · rw [← Array.length_toList, hxs, List.length_append]
    exact Nat.le_add_right _ _
  · intro i hi
    rw [← Array.getElem?_toList, hxs, List.getElem?_append_left hi, List.getElem?_eq_getElem hi]
    exact hfront _ (List.getElem_mem hi)
  · intro i hi
    rw [← Array.getElem?_toList, hxs, List.getElem?_append_right hi]
    cases hb : back[i - front.length]? with
    | none => rfl
    | some b => exact hback b (List.mem_of_getElem? hb)

/-- Whatever the order of the elements, one that satisfies the predicate stands right in front of the
partition point. -/
theorem any_of_partitionPoint_eq_succ {xs : Array α} {n : Nat}
    (h : partitionPoint p xs = n + 1) : xs[n]?.any p = true := by
  have hbisect : ∀ steps lo hi, bisect p xs steps lo hi = n + 1 →
      lo = n + 1 ∨ xs[n]?.any p = true := by
    intro steps
    induction steps with
    | zero => exact fun lo hi heq => Or.inl heq
    | succ steps ih =>
        intro lo hi heq
        simp only [bisect] at heq
        split at heq
        · split at heq
          · rename_i hmid
            rcases ih _ _ heq with hlo | hany
            · exact Or.inr (Nat.succ.inj hlo ▸ hmid)
            · exact Or.inr hany
          · exact ih _ _ heq
        · exact Or.inl heq
  exact (hbisect _ _ _ h).resolve_left (Nat.succ_ne_zero n).symm

end Bisection

end DecisionTable.Ordered
