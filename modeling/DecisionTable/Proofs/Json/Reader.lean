import DecisionTable.Proofs.Json.Tokens
import Mathlib.Data.List.DropRight

/-!
# Laid-out text read back

`parse?_pretty`: the laid-out text of a value is read as that value, whatever its size.

* `Legible depth value` : inside `depth` arrays and objects the value is one that JSON text can say in
  full: no fraction or unreadable part, integers of 64 bits and no deeper nesting than is read;
* `Reads depth value` : the text of the value, with anything after it that can follow a value, is
  read as the value. The fuel is measured against the text, as in `Json.parse?`;
* `Reads.array`, `Reads.object` : from the parts to the whole;
* `Legible.reads` : the induction that puts these together.
-/

namespace DecisionTable.Json

/-! ## Blanks -/

theorem skipBlanks_cons {c : Char} (hc : isBlank c = false) (cs : List Char) :
    skipBlanks (c :: cs) = c :: cs := by
  simp [skipBlanks, hc]

@[simp] theorem skipBlanks_space (cs : List Char) : skipBlanks (' ' :: cs) = skipBlanks cs := rfl

theorem skipBlanks_skipBlanks (cs : List Char) : skipBlanks (skipBlanks cs) = skipBlanks cs :=
  List.dropWhile_idempotent isBlank cs

@[simp] theorem skipBlanks_newLine (depth : Nat) (cs : List Char) :
    skipBlanks (newLine depth ++ cs) = skipBlanks cs := by
  have hblank : ∀ c ∈ newLine depth, isBlank c := by
    intro c hc
    rcases List.mem_cons.1 hc with rfl | hc
    · rfl
    · rw [List.eq_of_mem_replicate hc]; rfl
  exact List.dropWhile_append_of_pos hblank

section Skip

variable {cs cs' : List Char} (h : skipBlanks cs = skipBlanks cs') (fuel depth : Nat)

include h

theorem readValue_congr : readValue fuel depth cs = readValue fuel depth cs' := by
  cases fuel with
  | zero => simp only [readValue]
  | succ fuel => simp only [readValue, h]

theorem readItems_congr : readItems fuel depth cs = readItems fuel depth cs' := by
  cases fuel with
  | zero => simp only [readItems]
  | succ fuel => simp only [readItems, readValue_congr h]

theorem readMembers_congr : readMembers fuel depth cs = readMembers fuel depth cs' := by
  cases fuel with
  | zero => simp only [readMembers]
  | succ fuel => simp only [readMembers, h]

end Skip

/-! ## Legible values -/

/-- A value that JSON text says in full, inside `depth` arrays and objects. -/
inductive Legible : Nat → Json → Prop
  | null {depth : Nat} : Legible depth .null
  | bool {depth : Nat} (b : Bool) : Legible depth (.bool b)
  | integer {depth : Nat} {n : Int} (h : n.natAbs < UInt64.size) : Legible depth (.integer n)
  | text {depth : Nat} (s : String) : Legible depth (.text s)
  | array {depth : Nat} {items : List Json} (hdepth : depth < maxDepth)
      (h : ∀ item ∈ items, Legible (depth + 1) item) : Legible depth (.array items)
  | object {depth : Nat} {members : List (String × Json)} (hdepth : depth < maxDepth)
      (h : ∀ member ∈ members, Legible (depth + 1) member.2) : Legible depth (.object members)

theorem allReadable_eq (items : List Json) : allReadable items = items.all readable := by
  induction items with
  | nil => rfl
  | cons item items ih => rw [allReadable, List.all_cons, ih]

theorem membersReadable_eq (members : List (String × Json)) :
    membersReadable members = members.all fun member => member.2.readable := by
  induction members with
  | nil => rfl
  | cons member members ih => rw [membersReadable, List.all_cons, ih]

theorem Legible.readable {depth : Nat} {value : Json} (h : Legible depth value) :
    value.readable = true := by
  induction h with
  | null | bool | integer | text => rfl
  | array _ _ ih => rw [Json.readable, allReadable_eq, List.all_eq_true]; exact ih
  | object _ _ ih => rw [Json.readable, membersReadable_eq, List.all_eq_true]; exact ih

def Reads (depth : Nat) (value : Json) : Prop :=
  ∀ fuel rest, 3 * (render depth value).length < fuel → Closes rest →
    readValue fuel depth (render depth value ++ rest) = some (value, rest)

/-! ## Words, strings and numbers -/

/-- A value read by a single call. -/
theorem Reads.of_succ {depth : Nat} {value : Json}
    (h : ∀ fuel rest, Closes rest →
      readValue (fuel + 1) depth (render depth value ++ rest) = some (value, rest)) :
    Reads depth value := by
  intro fuel rest hfuel hrest
  cases fuel with
  | zero => cases hfuel
  | succ fuel => exact h fuel rest hrest

theorem readValue_text (fuel depth : Nat) (s : String) (rest : List Char) :
    readValue (fuel + 1) depth (renderText s ++ rest) = some (.text s, rest) := by
  simp only [renderText, List.cons_append, List.append_assoc, List.nil_append, readValue,
    skipBlanks_cons (c := '"') rfl, readText_escaped]
  rfl

theorem not_isBlank_of_digit {c : Char} (hc : c = '-' ∨ c.isDigit) : isBlank c = false := by
  cases hb : isBlank c with
  | false => rfl
  | true =>
    simp only [isBlank, Bool.or_eq_true, decide_eq_true_eq] at hb
    rcases hb with ((rfl | rfl) | rfl) | rfl <;> exact absurd hc (by decide)

/-- A value that starts like a number is one. -/
theorem readValue_number {c : Char} (hc : c = '-' ∨ c.isDigit) (fuel depth : Nat)
    (cs : List Char) :
    readValue (fuel + 1) depth (c :: cs) =
      (scanNumber (c :: cs)).map fun p => (p.1.toJson, p.2) := by
  rw [readValue, skipBlanks_cons (not_isBlank_of_digit hc)]
  split
  case h_7 => rw [Option.map_eq_bind]; rfl
  all_goals
    next heq =>
      obtain ⟨rfl, -⟩ := List.cons.inj heq
      exact absurd hc (by decide)

theorem readValue_ofNat {n : Nat} (hn : n < UInt64.size) (fuel depth : Nat) {rest : List Char}
    (hrest : Closes rest) :
    readValue (fuel + 1) depth (Nat.toDigits 10 n ++ rest) = some (.integer (.ofNat n), rest) := by
  have hscan := scanNumber_toDigits n hrest
  obtain ⟨c, cs, hcs, hc⟩ := toDigits_eq_cons n
  rw [hcs] at hscan ⊢
  rw [List.cons_append, readValue_number (.inr hc), ← List.cons_append, hscan, Option.map_some,
    toJson_ofDigits hn (by simp)]
  rfl

theorem readValue_negSucc {n : Nat} (hn : n + 1 < UInt64.size) (fuel depth : Nat)
    {rest : List Char} (hrest : Closes rest) :
    readValue (fuel + 1) depth ('-' :: (Nat.toDigits 10 (n + 1) ++ rest)) =
      some (.integer (.negSucc n), rest) := by
  rw [readValue_number (.inl rfl), scanNumber, scanUnsigned_toDigits true _ hrest, Option.map_some,
    toJson_ofDigits hn (by simp)]
  rfl

/-! ## Arrays -/

theorem readItems_bracket (fuel depth : Nat) (cs : List Char) :
    readItems fuel depth (']' :: cs) = none := by
  have hvalue (fuel : Nat) : readValue fuel depth (']' :: cs) = none := by
    cases fuel <;> rw [readValue]; rfl
  cases fuel with
  | zero => rw [readItems]
  | succ fuel => rw [readItems, hvalue]; rfl

/-- Items that are read do not start with the closing bracket. -/
theorem readArray_of_readItems {fuel depth : Nat} {cs : List Char}
    {result : List Json × List Char} (h : readItems fuel depth cs = some result) :
    readArray (fuel + 1) depth cs = some result := by
  rw [readArray]
  split
  next cs' heq =>
    have hskip : skipBlanks cs = skipBlanks (']' :: cs') := heq
    rw [readItems_congr hskip, readItems_bracket] at h
    cases h
  next => rwa [readItems_congr (skipBlanks_skipBlanks cs)]

section Items

variable {fuel depth : Nat} {cs after rest : List Char} {item : Json} {items : List Json}
  (hitem : readValue fuel depth cs = some (item, after))

include hitem

theorem readItems_last (hafter : skipBlanks after = ']' :: rest) :
    readItems (fuel + 1) depth cs = some ([item], rest) := by
  simp [readItems, hitem, hafter]

theorem readItems_more {more : List Char} (hafter : skipBlanks after = ',' :: more)
    (hmore : readItems fuel depth more = some (items, rest)) :
    readItems (fuel + 1) depth cs = some (item :: items, rest) := by
  simp [readItems, hitem, hafter, hmore]

end Items

/-- One item or more, laid out and followed by the closing bracket. -/
theorem readItems_rendered {depth : Nat} {item : Json} {items : List Json}
    (hitem : Reads depth item) (hitems : ∀ item ∈ items, Reads depth item) (outer : Nat)
    (rest : List Char) (fuel : Nat)
    (hfuel : 3 * ((render depth item).length + (renderItems depth items).length) + 1 < fuel) :
    readItems fuel depth (render depth item ++
      (renderItems depth items ++ (newLine outer ++ ']' :: rest))) =
        some (item :: items, rest) := by
  induction items generalizing item fuel with
  | nil =>
    obtain _ | fuel := fuel
    · cases hfuel
    simp only [renderItems, List.length_nil, List.nil_append] at hfuel ⊢
    exact readItems_last (hitem fuel _ (by omega) (closes_newLine _ _)) (skipBlanks_newLine ..)
  | cons next items ih =>
    -- the comma and the new line pay for the call that reads the item
    obtain _ | fuel := fuel
    · cases hfuel
    simp only [renderItems, List.length_cons, List.length_append, List.cons_append,
      List.append_assoc] at hfuel ⊢
    have hnext := ih (hitems next (.head _)) (fun i hi => hitems i (.tail _ hi)) fuel (by omega)
    rw [← readItems_congr (skipBlanks_newLine depth _)] at hnext
    exact readItems_more (hitem fuel _ (by omega) (closes_comma _)) (skipBlanks_cons rfl _) hnext

theorem readValue_array {fuel depth : Nat} {cs rest : List Char} {items : List Json}
    (hdepth : depth < maxDepth) (h : readArray fuel (depth + 1) cs = some (items, rest)) :
    readValue (fuel + 1) depth ('[' :: cs) = some (.array items, rest) := by
  rw [readValue, skipBlanks_cons rfl]
  simp [h, nested, hdepth]

theorem Reads.array {depth : Nat} {items : List Json} (hdepth : depth < maxDepth)
    (h : ∀ item ∈ items, Reads (depth + 1) item) : Reads depth (.array items) := by
  intro fuel rest hfuel hrest
  obtain ⟨fuel, rfl⟩ : ∃ n, fuel = n + 2 := ⟨fuel - 2, by
    cases items <;> simp [render] at hfuel <;> omega⟩
  cases items with
  | nil =>
    refine readValue_array hdepth ?_
    rw [readArray]
    rfl
  | cons item items =>
    simp only [render, List.length_append, List.length_cons, newLine] at hfuel
    have hitems := readItems_rendered (h item (.head _)) (fun i hi => h i (.tail _ hi)) depth rest
      fuel (by omega)
    rw [← readItems_congr (skipBlanks_newLine (depth + 1) _)] at hitems
    simp only [render, List.cons_append, List.append_assoc, List.nil_append]
    exact readValue_array hdepth (readArray_of_readItems hitems)

/-! ## Objects -/

section Members

variable {fuel depth : Nat} {name : String} {value : Json} {cs after rest : List Char}
  (hvalue : readValue fuel depth cs = some (value, after))

include hvalue

theorem readMembers_last (hafter : skipBlanks after = '}' :: rest) :
    readMembers (fuel + 1) depth (renderText name ++ ':' :: ' ' :: cs) =
      some ([(some name, value)], rest) := by
  rw [← readValue_congr (skipBlanks_space cs)] at hvalue
  simp [renderText, readMembers, skipBlanks_cons (c := '"') rfl, readText_escaped,
    skipBlanks_cons (c := ':') rfl, hvalue, hafter]

theorem readMembers_more {more : List Char} {members : List (Option String × Json)}
    (hafter : skipBlanks after = ',' :: more)
    (hmore : readMembers fuel depth more = some (members, rest)) :
    readMembers (fuel + 1) depth (renderText name ++ ':' :: ' ' :: cs) =
      some ((some name, value) :: members, rest) := by
  rw [← readValue_congr (skipBlanks_space cs)] at hvalue
  simp [renderText, readMembers, skipBlanks_cons (c := '"') rfl, readText_escaped,
    skipBlanks_cons (c := ':') rfl, hvalue, hafter, hmore]

end Members

/-- One member or more, laid out and followed by the closing brace. -/
theorem readMembers_rendered {depth : Nat} (name : String) {value : Json}
    {members : List (String × Json)} (hvalue : Reads depth value)
    (hmembers : ∀ member ∈ members, Reads depth member.2) (outer : Nat) (rest : List Char)
    (fuel : Nat)
    (hfuel : 3 * ((render depth value).length + (renderMembers depth members).length) + 1
      < fuel) :
    readMembers fuel depth (renderText name ++ ':' :: ' ' :: (render depth value ++
      (renderMembers depth members ++ (newLine outer ++ '}' :: rest)))) =
        some ((some name, value) :: members.map (Prod.map some id), rest) := by
  induction members generalizing name value fuel with
  | nil =>
    obtain _ | fuel := fuel
    · cases hfuel
    simp only [renderMembers, List.length_nil, List.nil_append] at hfuel ⊢
    exact readMembers_last (hvalue fuel _ (by omega) (closes_newLine _ _)) (skipBlanks_newLine ..)
  | cons next members ih =>
    obtain _ | fuel := fuel
    · cases hfuel
    simp only [renderMembers, List.length_cons, List.length_append, List.cons_append,
      List.append_assoc, List.nil_append] at hfuel ⊢
    have hnext := ih next.1 (hmembers next (.head _)) (fun m hm => hmembers m (.tail _ hm)) fuel
      (by omega)
    rw [← readMembers_congr (skipBlanks_newLine depth _)] at hnext
    exact readMembers_more (hvalue fuel _ (by omega) (closes_comma _)) (skipBlanks_cons rfl _)
      hnext

theorem readMembers_brace (fuel depth : Nat) (cs : List Char) :
    readMembers fuel depth ('}' :: cs) = none := by
  cases fuel <;> rw [readMembers]; rfl

/-- Members that are read do not start with the closing brace. -/
theorem readObject_of_readMembers {fuel depth : Nat} {cs : List Char}
    {result : List (Option String × Json) × List Char}
    (h : readMembers fuel depth cs = some result) :
    readObject (fuel + 1) depth cs = some result := by
  rw [readObject]
  split
  next cs' heq =>
    have hskip : skipBlanks cs = skipBlanks ('}' :: cs') := heq
    rw [readMembers_congr hskip, readMembers_brace] at h
    cases h
  next => rwa [readMembers_congr (skipBlanks_skipBlanks cs)]

theorem ofMembers_map_some (members : List (String × Json)) :
    ofMembers (members.map (Prod.map some id)) = .object members := by
  have hnamed : ∀ f : Option String × Json → Option (String × Json),
      (∀ member, f (Prod.map some id member) = some member) →
        (members.map (Prod.map some id)).mapM f = some members := by
    intro f hf
    rw [List.mapM_map, show f ∘ Prod.map some id = fun member => pure (id member) from funext hf,
      List.mapM_pure, List.map_id]
    rfl
  rw [ofMembers, hnamed _ fun _ => rfl]

theorem readValue_object {fuel depth : Nat} {cs rest : List Char}
    {members : List (String × Json)} (hdepth : depth < maxDepth)
    (h : readObject fuel (depth + 1) cs = some (members.map (Prod.map some id), rest)) :
    readValue (fuel + 1) depth ('{' :: cs) = some (.object members, rest) := by
  rw [readValue, skipBlanks_cons rfl]
  simp [h, nested, hdepth, ofMembers_map_some]

theorem Reads.object {depth : Nat} {members : List (String × Json)} (hdepth : depth < maxDepth)
    (h : ∀ member ∈ members, Reads (depth + 1) member.2) : Reads depth (.object members) := by
  intro fuel rest hfuel hrest
  obtain ⟨fuel, rfl⟩ : ∃ n, fuel = n + 2 := ⟨fuel - 2, by
    cases members <;> simp [render] at hfuel <;> omega⟩
  cases members with
  | nil =>
    refine readValue_object hdepth ?_
    rw [readObject]
    rfl
  | cons member members =>
    simp only [render, List.length_append, List.length_cons, newLine] at hfuel
    have hmembers := readMembers_rendered member.1 (h member (.head _))
      (fun m hm => h m (.tail _ hm)) depth rest fuel (by omega)
    rw [← readMembers_congr (skipBlanks_newLine (depth + 1) _)] at hmembers
    simp only [render, List.cons_append, List.append_assoc, List.nil_append]
    exact readValue_object hdepth (readObject_of_readMembers hmembers)

/-! ## Whole texts -/

theorem Legible.reads {depth : Nat} {value : Json} (h : Legible depth value) :
    Reads depth value := by
  induction h with
  | null => exact .of_succ fun fuel rest _ => by rw [render, readValue]; rfl
  | bool b => exact .of_succ fun fuel rest _ => by cases b <;> rw [render, readValue] <;> rfl
  | text s => exact .of_succ fun fuel rest _ => readValue_text fuel _ s rest
  | @integer depth n hn =>
    refine .of_succ fun fuel rest hrest => ?_
    cases n with
    | ofNat n => exact readValue_ofNat hn fuel depth hrest
    | negSucc n => exact readValue_negSucc hn fuel depth hrest
  | array hdepth _ ih => exact .array hdepth ih
  | object hdepth _ ih => exact .object hdepth ih

/-- The laid-out text of a value is read as the value. -/
theorem parse?_pretty {value : Json} (h : Legible 0 value) : parse? value.pretty = some value := by
  have hread := h.reads (3 * (render 0 value).length + 3) [] (by omega) closes_nil
  rw [List.append_nil] at hread
  simp only [parse?, pretty, String.toList_ofList, hread, Option.bind_eq_bind, Option.bind_some]
  rfl

end DecisionTable.Json
