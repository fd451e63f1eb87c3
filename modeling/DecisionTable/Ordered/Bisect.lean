/-!
# Bisection

`partitionPoint p xs` is the number of leading elements of `xs` that satisfy `p`, found by halving.
It is meaningful for an array in which `p` holds of a leading run and of nothing after it;
`partitionPoint_eq` says that it then finds the end of the run.
-/

namespace DecisionTable.Ordered

variable {α : Type}

/-- Narrows the half-open index range `[lo, hi)` to the end of the leading run, halving it in every
step. -/
def bisect (p : α → Bool) (xs : Array α) : (steps lo hi : Nat) → Nat
  | 0, lo, _ => lo
  | steps + 1, lo, hi =>
    if lo < hi then
      let mid := lo + (hi - lo) / 2
      if xs[mid]?.any p then bisect p xs steps (mid + 1) hi else bisect p xs steps lo mid
    else lo

/-- The number of leading elements that satisfy `p`. Every step shortens the range, so the size of
the array bounds their number. -/
def partitionPoint (p : α → Bool) (xs : Array α) : Nat :=
  bisect p xs xs.size 0 xs.size

theorem bisect_eq {p : α → Bool} {xs : Array α} {n : Nat}
    (before : ∀ i, i < n → xs[i]?.any p = true)
    (after : ∀ i, n ≤ i → xs[i]?.any p = false) :
    ∀ steps lo hi, lo ≤ n → n ≤ hi → hi - lo ≤ steps → bisect p xs steps lo hi = n := by
  intro steps
  induction steps with
  | zero => intro lo hi _ _ _; simp only [bisect]; omega
  | succ steps ih =>
    intro lo hi hlo hhi hsteps
    simp only [bisect]
    split
    · by_cases hmid : lo + (hi - lo) / 2 < n
      · rw [if_pos (before _ hmid)]
        exact ih _ _ (by omega) hhi (by omega)
      · rw [if_neg (by simp [after _ (Nat.le_of_not_lt hmid)])]
        exact ih _ _ hlo (by omega) (by omega)
    · omega

/-- Where `p` holds of the first `n` elements and of none after them, the partition point is `n`. -/
theorem partitionPoint_eq {p : α → Bool} {xs : Array α} {n : Nat} (le_size : n ≤ xs.size)
    (before : ∀ i, i < n → xs[i]?.any p = true)
    (after : ∀ i, n ≤ i → xs[i]?.any p = false) : partitionPoint p xs = n :=
  bisect_eq before after _ _ _ (Nat.zero_le _) le_size (by omega)

theorem bisect_le {p : α → Bool} {xs : Array α} :
    ∀ steps lo hi, lo ≤ hi → bisect p xs steps lo hi ≤ hi := by
  intro steps
  induction steps with
  | zero => intro lo hi h; exact h
  | succ steps ih =>
    intro lo hi h
    simp only [bisect]
    split
    · split
      · exact ih _ _ (by omega)
      · exact Nat.le_trans (ih _ _ (by omega)) (by omega)
    · exact h

theorem partitionPoint_le_size (p : α → Bool) (xs : Array α) : partitionPoint p xs ≤ xs.size :=
  bisect_le _ _ _ (Nat.zero_le _)

end DecisionTable.Ordered
