import Mathlib.Algebra.Order.Field.Basic
import Mathlib.Tactic.FieldSimp
import Mathlib.Tactic.Linarith
import Mathlib.Tactic.Ring

/-!
# Boxes moving along a line

Intervals and axis-parallel boxes over an ordered field, one of them translated
at constant velocity. Two open intervals `(a, a + u)` and `(b, b + w)` meet when
`Meets a u b w`.

* `meets_shift_iff`, `touch_shift_iff`: an interval moving at `v ≠ 0` meets a fixed
  one exactly between its entry and its exit time, and touches it from the one up to
  the other.
* `shift_le_of_clear`, `le_shift_of_clear`: on a path on which the two never
  meet, the moving interval stays on its side of the fixed one.
* `Rect.Clear`: a moving box overlaps a fixed one at no time of a closed interval.
-/

namespace EndlessPeak.Lib

section Axis

variable {K : Type*} [Field K] [LinearOrder K] [IsStrictOrderedRing K]

/-- The open intervals `(a, a + u)` and `(b, b + w)` have a point in common
    (for `u` and `w` positive). -/
def Meets (a u b w : K) : Prop := a < b + w ∧ b < a + u

instance (a u b w : K) : Decidable (Meets a u b w) := inferInstanceAs (Decidable (_ ∧ _))

/-- The closed intervals `[a, a + u]` and `[b, b + w]` have a point in common. -/
def Touch (a u b w : K) : Prop := a ≤ b + w ∧ b ≤ a + u

/-- When `(a, a + u)`, moving at `v ≠ 0`, starts to meet `(b, b + w)`. -/
def entryTime (a u b w v : K) : K := if 0 < v then (b - (a + u)) / v else ((b + w) - a) / v

/-- When `(a, a + u)`, moving at `v ≠ 0`, ceases to meet `(b, b + w)`. -/
def exitTime (a u b w v : K) : K := if 0 < v then ((b + w) - a) / v else (b - (a + u)) / v

variable {a u b w v t e : K}

theorem meets_shift_iff (hv : v ≠ 0) :
    Meets (a + t * v) u b w ↔ entryTime a u b w v < t ∧ t < exitTime a u b w v := by
  unfold Meets entryTime exitTime
  rcases lt_or_gt_of_ne hv with hneg | hpos
  · rw [if_neg hneg.not_gt, if_neg hneg.not_gt, div_lt_iff_of_neg hneg, lt_div_iff_of_neg hneg]
    constructor <;> rintro ⟨h1, h2⟩ <;> constructor <;> linarith
  · rw [if_pos hpos, if_pos hpos, div_lt_iff₀ hpos, lt_div_iff₀ hpos]
    constructor <;> rintro ⟨h1, h2⟩ <;> constructor <;> linarith

theorem touch_shift_iff (hv : v ≠ 0) :
    Touch (a + t * v) u b w ↔ entryTime a u b w v ≤ t ∧ t ≤ exitTime a u b w v := by
  unfold Touch entryTime exitTime
  rcases lt_or_gt_of_ne hv with hneg | hpos
  · rw [if_neg hneg.not_gt, if_neg hneg.not_gt, div_le_iff_of_neg hneg, le_div_iff_of_neg hneg]
    constructor <;> rintro ⟨h1, h2⟩ <;> constructor <;> linarith
  · rw [if_pos hpos, if_pos hpos, div_le_iff₀ hpos, le_div_iff₀ hpos]
    constructor <;> rintro ⟨h1, h2⟩ <;> constructor <;> linarith

omit [IsStrictOrderedRing K] in
theorem Meets.touch (h : Meets a u b w) : Touch a u b w := ⟨h.1.le, h.2.le⟩

theorem entryTime_lt_exitTime (hu : 0 < u) (hw : 0 < w) (hv : v ≠ 0) :
    entryTime a u b w v < exitTime a u b w v := by
  unfold entryTime exitTime
  rcases lt_or_gt_of_ne hv with hneg | hpos
  · rw [if_neg hneg.not_gt, if_neg hneg.not_gt, div_lt_div_right_of_neg hneg]
    linarith
  · rw [if_pos hpos, if_pos hpos, div_lt_div_iff_of_pos_right hpos]
    linarith

/-- A fixed interval that is entered before time `1` lies between the ends of the path. -/
theorem between_of_entryTime (hu : 0 < u) (hw : 0 < w) (hv : v ≠ 0)
    (h0 : 0 ≤ entryTime a u b w v) (h1 : entryTime a u b w v < 1) :
    min a (a + v) < b + w ∧ b ≤ max (a + u) (a + u + v) := by
  unfold entryTime at h0 h1
  rcases lt_or_gt_of_ne hv with hneg | hpos
  · rw [if_neg hneg.not_gt, div_lt_iff_of_neg hneg] at h1
    rw [if_neg hneg.not_gt, le_div_iff_of_neg hneg] at h0
    constructor
    · exact (min_le_right _ _).trans_lt (by linarith)
    · exact le_trans (by linarith) (le_max_left _ _)
  · rw [if_pos hpos, div_lt_iff₀ hpos] at h1
    rw [if_pos hpos, le_div_iff₀ hpos] at h0
    constructor
    · exact (min_le_left _ _).trans_lt (by linarith)
    · exact le_trans (by linarith) (le_max_right _ _)

theorem entryTime_inj {b' : K} (hv : v ≠ 0) (h : entryTime a u b w v = entryTime a u b' w v) :
    b = b' := by
  unfold entryTime at h
  split_ifs at h
  · have hcancel := (div_left_inj' hv).mp h
    linarith
  · have hcancel := (div_left_inj' hv).mp h
    linarith

/-- On a path `[0, e]` without a meeting, the meeting is either still to come or
    was over before the start. -/
theorem le_entryTime_or_exitTime_le (hu : 0 < u) (hw : 0 < w) (hv : v ≠ 0) (he : 0 ≤ e)
    (hclear : ∀ t, 0 ≤ t → t ≤ e → ¬ Meets (a + t * v) u b w) :
    e ≤ entryTime a u b w v ∨ exitTime a u b w v ≤ 0 := by
  have hlt := entryTime_lt_exitTime (a := a) (b := b) hu hw hv
  simp only [meets_shift_iff hv, not_and, not_lt] at hclear
  by_contra hcon
  push Not at hcon
  obtain ⟨hen, hex⟩ := hcon
  rcases he.eq_or_lt with rfl | hpos
  · exact absurd (hclear 0 le_rfl le_rfl hen) (not_le.mpr hex)
  · -- a time strictly between both pairs of bounds
    have hmid : max (entryTime a u b w v) 0 < min (exitTime a u b w v) e := by
      simp only [lt_min_iff, max_lt_iff]
      exact ⟨⟨hlt, hex⟩, hen, hpos⟩
    obtain ⟨t, h1, h2⟩ := exists_between hmid
    rw [max_lt_iff] at h1
    rw [lt_min_iff] at h2
    exact absurd (hclear t h1.2.le h2.2.le h1.1) (not_le.mpr h2.1)

/-- On a clear path an interval that starts left of another stays left of it. -/
theorem shift_le_of_clear (hu : 0 < u) (hw : 0 < w) (he : 0 ≤ e)
    (hclear : ∀ t, 0 ≤ t → t ≤ e → ¬ Meets (a + t * v) u b w) (h : a + u ≤ b) :
    a + e * v + u ≤ b := by
  rcases lt_trichotomy v 0 with hneg | rfl | hpos
  · nlinarith [mul_nonneg he (neg_nonneg.mpr hneg.le)]
  · simpa using h
  · rcases le_entryTime_or_exitTime_le hu hw hpos.ne' he hclear with hen | hex
    · rw [entryTime, if_pos hpos, le_div_iff₀ hpos] at hen
      linarith
    · rw [exitTime, if_pos hpos, div_le_iff₀ hpos] at hex
      linarith

/-- On a clear path an interval that starts right of another stays right of it. -/
theorem le_shift_of_clear (hu : 0 < u) (hw : 0 < w) (he : 0 ≤ e)
    (hclear : ∀ t, 0 ≤ t → t ≤ e → ¬ Meets (a + t * v) u b w) (h : b + w ≤ a) :
    b + w ≤ a + e * v := by
  rcases lt_trichotomy v 0 with hneg | rfl | hpos
  · rcases le_entryTime_or_exitTime_le hu hw hneg.ne he hclear with hen | hex
    · rw [entryTime, if_neg hneg.not_gt, le_div_iff_of_neg hneg] at hen
      linarith
    · rw [exitTime, if_neg hneg.not_gt, div_le_iff_of_neg hneg] at hex
      linarith
  · simpa using h
  · nlinarith [mul_nonneg he hpos.le]

omit [IsStrictOrderedRing K] in
/-- Two positive intervals that do not meet lie side by side. -/
theorem le_or_le_of_not_meets (h : ¬ Meets a u b w) : b + w ≤ a ∨ a + u ≤ b := by
  unfold Meets at h
  rw [not_and_or, not_lt, not_lt] at h
  exact h

end Axis

/-! ## Boxes -/

/-- An axis-parallel box: corner, width and height. -/
structure Rect (K : Type*) where
  x : K
  y : K
  w : K
  h : K

namespace Rect

variable {K : Type*} [Field K] [LinearOrder K] [IsStrictOrderedRing K]

/-- The open interiors of two boxes have a point in common. -/
def Overlaps (r s : Rect K) : Prop := Meets r.x r.w s.x s.w ∧ Meets r.y r.h s.y s.h

instance (r s : Rect K) : Decidable (r.Overlaps s) :=
  inferInstanceAs (Decidable (_ ∧ _))

/-- The two closed boxes have a point in common. -/
def Touches (r s : Rect K) : Prop := Touch r.x r.w s.x s.w ∧ Touch r.y r.h s.y s.h

/-- The translated box. -/
def shift (r : Rect K) (dx dy : K) : Rect K := { r with x := r.x + dx, y := r.y + dy }

/-- `r` lies in `s`. -/
def Within (r s : Rect K) : Prop :=
  s.x ≤ r.x ∧ r.x + r.w ≤ s.x + s.w ∧ s.y ≤ r.y ∧ r.y + r.h ≤ s.y + s.h

instance (r s : Rect K) : Decidable (r.Within s) :=
  inferInstanceAs (Decidable (_ ≤ _ ∧ _ ≤ _ ∧ _ ≤ _ ∧ _ ≤ _))

/-- Moving at `(vx, vy)`, the box `r` does not overlap `s` up to time `e`. -/
def Clear (r s : Rect K) (vx vy e : K) : Prop :=
  ∀ t, 0 ≤ t → t ≤ e → ¬ (r.shift (t * vx) (t * vy)).Overlaps s

variable {r s : Rect K} {vx vy e : K}

omit [IsStrictOrderedRing K] in
theorem Clear.not_overlaps_end (h : r.Clear s vx vy e) (he : 0 ≤ e) :
    ¬ (r.shift (e * vx) (e * vy)).Overlaps s := h e he le_rfl

end Rect

end EndlessPeak.Lib
