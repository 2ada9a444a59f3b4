import Mathlib.Order.Lattice

/-!
# A loop that keeps the first of the smallest

`for (auto b : l) if (key(b) < key(res)) res = b;` over a list, from a start value.

* `firstMin_eq`: the result is the start value, or an element with a smaller key.
* `key_firstMin_le`, `key_firstMin_le_of_mem`: no key is smaller than the result's.
-/

namespace EndlessPeak.Lib

variable {B K : Type*} [LinearOrder K] {key : B → K} {init b : B} {l : List B}

/-- The loop body. -/
def keepMin (key : B → K) (res b : B) : B := if key b < key res then b else res

/-- The loop. -/
def firstMin (key : B → K) (init : B) (l : List B) : B := l.foldl (keepMin key) init

theorem key_keepMin_le_left (res b : B) : key (keepMin key res b) ≤ key res := by
  unfold keepMin
  split_ifs with h
  · exact h.le
  · exact le_rfl

theorem key_keepMin_le_right (res b : B) : key (keepMin key res b) ≤ key b := by
  unfold keepMin
  split_ifs with h
  · exact le_rfl
  · exact not_lt.mp h

theorem firstMin_cons : firstMin key init (b :: l) = firstMin key (keepMin key init b) l := rfl

theorem key_firstMin_le : key (firstMin key init l) ≤ key init := by
  induction l generalizing init with
  | nil => exact le_rfl
  | cons b l ih => exact ih.trans (key_keepMin_le_left init b)

theorem key_firstMin_le_of_mem (h : b ∈ l) : key (firstMin key init l) ≤ key b := by
  induction l generalizing init with
  | nil => simp at h
  | cons c l ih =>
    rw [firstMin_cons]
    rcases List.mem_cons.mp h with rfl | h
    · exact key_firstMin_le.trans (key_keepMin_le_right init b)
    · exact ih h

/-- The result is the start value, or an element smaller than it. -/
theorem firstMin_eq (key : B → K) (init : B) (l : List B) : firstMin key init l = init ∨
    firstMin key init l ∈ l ∧ key (firstMin key init l) < key init := by
  induction l generalizing init with
  | nil => exact .inl rfl
  | cons b l ih =>
    rw [firstMin_cons, keepMin]
    split_ifs with hlt
    · rcases ih b with heq | ⟨hmem, hkey⟩
      · rw [heq]
        exact .inr ⟨List.mem_cons_self, hlt⟩
      · exact .inr ⟨List.mem_cons_of_mem _ hmem, hkey.trans hlt⟩
    · rcases ih init with heq | ⟨hmem, hkey⟩
      · exact .inl heq
      · exact .inr ⟨List.mem_cons_of_mem _ hmem, hkey⟩

end EndlessPeak.Lib
