import EndlessPeak.Game.SweptMath

/-!
# What the result of `SweptAABB` says about the motion

The entry time of a hit is the first moment at which the two closed boxes touch, and
until then their interiors are disjoint. The two divisions of each axis are guarded:
`sweptAABB?` is the function with divisions that fail on zero, and never does.

* `sweptAABB?_eq`: no division by zero.
* `sweptAABB_firstContact`: the first contact of any two boxes without overlap.
-/

namespace EndlessPeak

open Lib

/-! ## `SweptAABB` with its divisions -/

/-- `x / y` on doubles; `none` is a division by zero. -/
def ExtRat.div? (x : ExtRat) (y : ℚ) : Option ExtRat :=
  if y = 0 then none
  else match x with
    | none => some (if 0 < y then ⊥ else ⊤)
    | some none => some (if 0 < y then ⊤ else ⊥)
    | some (some q) => some (.ofRat (q / y))

/-- The block "X axis" (or "Y axis"): `inv_entry` and `inv_exit`. `none` is its early
    return. -/
def invTimes (pos1 size1 pos2 size2 vel : ℚ) : Option (ExtRat × ExtRat) :=
  if 0 < vel then
    some (.ofRat (pos2 - (pos1 + size1)), .ofRat ((pos2 + size2) - pos1))
  else if vel < 0 then
    some (.ofRat ((pos2 + size2) - pos1), .ofRat (pos2 - (pos1 + size1)))
  else if pos1 + size1 ≤ pos2 ∨ pos2 + size2 ≤ pos1 then none
  else some (⊥, ⊤)

/-- `vel == 0.0 ? inv : inv / vel`. -/
def axisTime? (inv : ExtRat) (vel : ℚ) : Option ExtRat :=
  if vel = 0 then some inv else inv.div? vel

/-- `SweptAABB`, failing on a division by zero. -/
def sweptAABB? (box1 box2 : Box) (velX velY : ℚ) : Option SweptData :=
  if velX = 0 ∧ velY = 0 then some .miss
  else
    match invTimes box1.x box1.w box2.x box2.w velX with
    | none => some .miss
    | some (xInvEntry, xInvExit) =>
      match invTimes box1.y box1.h box2.y box2.h velY with
      | none => some .miss
      | some (yInvEntry, yInvExit) => do
        let xEntry ← axisTime? xInvEntry velX
        let xExit ← axisTime? xInvExit velX
        let yEntry ← axisTime? yInvEntry velY
        let yExit ← axisTime? yInvExit velY
        let entryTime := max xEntry yEntry
        let exitTime := min xExit yExit
        if exitTime < entryTime ∨ entryTime < .ofRat 0 ∨ .ofRat 1 < entryTime then some .miss
        else if yEntry < xEntry then
          some { entryTime := entryTime.toRat, normalX := if 0 < velX then 255 else 1,
                 normalY := 0, hit := true }
        else
          some { entryTime := entryTime.toRat, normalX := 0,
                 normalY := if 0 < velY then 255 else 1, hit := true }

section Axis

variable {a u b w v t : ℚ} {en ex : ExtRat}

theorem axisTime?_ofRat (hv : v ≠ 0) (q : ℚ) :
    axisTime? (.ofRat q) v = some (.ofRat (q / v)) := by
  unfold axisTime? ExtRat.div?
  rw [if_neg hv, if_neg hv]
  rfl

theorem axisTimes_of_invTimes_none (h : invTimes a u b w v = none) :
    axisTimes a u b w v = none := by
  unfold invTimes at h
  unfold axisTimes
  split_ifs at h ⊢
  rfl

theorem axisTimes_of_invTimes {inv inv' : ExtRat} (h : invTimes a u b w v = some (inv, inv')) :
    ∃ en ex, axisTime? inv v = some en ∧ axisTime? inv' v = some ex ∧
      axisTimes a u b w v = some (en, ex) := by
  unfold invTimes at h
  split_ifs at h with hpos hneg hside
  · cases h
    exact ⟨_, _, axisTime?_ofRat hpos.ne' _, axisTime?_ofRat hpos.ne' _, axisTimes_pos hpos⟩
  · cases h
    exact ⟨_, _, axisTime?_ofRat hneg.ne _, axisTime?_ofRat hneg.ne _, axisTimes_neg hneg⟩
  · cases h
    have hv : v = 0 := le_antisymm (not_lt.mp hpos) (not_lt.mp hneg)
    exact ⟨⊥, ⊤, if_pos hv, if_pos hv, by simp [axisTimes, hpos, hneg, hside]⟩

theorem touch_iff_of_axisTimes (h : axisTimes a u b w v = some (en, ex)) :
    Touch (a + t * v) u b w ↔ en ≤ .ofRat t ∧ .ofRat t ≤ ex := by
  unfold axisTimes at h
  split_ifs at h with hpos hneg hside
  · cases h
    simpa [entryTime, exitTime, hpos] using touch_shift_iff hpos.ne'
  · cases h
    simpa [entryTime, exitTime, hneg.not_gt] using touch_shift_iff hneg.ne
  · cases h
    have hv : v = 0 := le_antisymm (not_lt.mp hpos) (not_lt.mp hneg)
    push Not at hside
    have hmeets : Meets a u b w := ⟨hside.2, hside.1⟩
    simp [hv, hmeets.touch]

end Axis

variable {box1 box2 : Box} {velX velY t : ℚ}

theorem sweptAABB?_eq (box1 box2 : Box) (velX velY : ℚ) :
    sweptAABB? box1 box2 velX velY = some (sweptAABB box1 box2 velX velY) := by
  unfold sweptAABB? sweptAABB
  by_cases hv : velX = 0 ∧ velY = 0
  · rw [if_pos hv, if_pos hv]
  rw [if_neg hv, if_neg hv]
  rcases hx : invTimes box1.x box1.w box2.x box2.w velX with _ | ⟨xInvEntry, xInvExit⟩
  · rw [axisTimes_of_invTimes_none hx]
  obtain ⟨xEntry, xExit, hxEntry, hxExit, hxTimes⟩ := axisTimes_of_invTimes hx
  rw [hxTimes]
  rcases hy : invTimes box1.y box1.h box2.y box2.h velY with _ | ⟨yInvEntry, yInvExit⟩
  · rw [axisTimes_of_invTimes_none hy]
  obtain ⟨yEntry, yExit, hyEntry, hyExit, hyTimes⟩ := axisTimes_of_invTimes hy
  rw [hyTimes]
  simp only [hxEntry, hxExit, hyEntry, hyExit, Option.bind_eq_bind, Option.bind_some]
  split_ifs <;> rfl

/-! ## The first contact -/

/-- The closed boxes touch from the larger entry to the smaller exit time. -/
theorem touches_iff_of_axisTimes {xEntry xExit yEntry yExit : ExtRat}
    (hx : axisTimes box1.x box1.w box2.x box2.w velX = some (xEntry, xExit))
    (hy : axisTimes box1.y box1.h box2.y box2.h velY = some (yEntry, yExit)) :
    (box1.rect.shift (t * velX) (t * velY)).Touches box2.rect ↔
      max xEntry yEntry ≤ .ofRat t ∧ .ofRat t ≤ min xExit yExit := by
  have h1 := touch_iff_of_axisTimes (t := t) hx
  have h2 := touch_iff_of_axisTimes (t := t) hy
  simp only [Rect.Touches, Rect.shift, Box.rect, h1, h2, max_le_iff, le_min_iff]
  tauto

/-- At the entry time of a hit the closed boxes touch, and not before. -/
theorem sweptAABB_touches (hhit : (sweptAABB box1 box2 velX velY).hit = true) :
    (box1.rect.shift ((sweptAABB box1 box2 velX velY).entryTime * velX)
        ((sweptAABB box1 box2 velX velY).entryTime * velY)).Touches box2.rect ∧
      ∀ t < (sweptAABB box1 box2 velX velY).entryTime,
        ¬ (box1.rect.shift (t * velX) (t * velY)).Touches box2.rect := by
  rcases sweptAABB_cases box1 box2 velX velY with
    hmiss | ⟨xEntry, xExit, yEntry, yExit, hx, hy, h0, h1, hle, -, htime⟩
  · simp [hmiss, SweptData.miss] at hhit
  have hentry : ExtRat.ofRat (sweptAABB box1 box2 velX velY).entryTime = max xEntry yEntry := by
    rw [htime, ExtRat.ofRat_toRat h0 h1]
  constructor
  · rw [touches_iff_of_axisTimes hx hy, hentry]
    exact ⟨le_rfl, hle⟩
  · intro t ht htouch
    rw [touches_iff_of_axisTimes hx hy, ← hentry, ExtRat.ofRat_le] at htouch
    exact absurd ht (not_lt.mpr htouch.1)

/-- The result of `SweptAABB` is the first contact of `box1`, moving at
    `(velX, velY)`, with `box2`. -/
structure FirstContact (box1 box2 : Box) (velX velY : ℚ) : Prop where
  defined : sweptAABB? box1 box2 velX velY = some (sweptAABB box1 box2 velX velY)
  range : 0 ≤ (sweptAABB box1 box2 velX velY).entryTime ∧
    (sweptAABB box1 box2 velX velY).entryTime ≤ 1
  clear : box1.rect.Clear box2.rect velX velY (sweptAABB box1 box2 velX velY).entryTime
  touches : (sweptAABB box1 box2 velX velY).hit = true →
    (box1.rect.shift ((sweptAABB box1 box2 velX velY).entryTime * velX)
      ((sweptAABB box1 box2 velX velY).entryTime * velY)).Touches box2.rect
  first : (sweptAABB box1 box2 velX velY).hit = true →
    ∀ t, 0 ≤ t → t < (sweptAABB box1 box2 velX velY).entryTime →
      ¬ (box1.rect.shift (t * velX) (t * velY)).Touches box2.rect

/-- For every two boxes whose interiors are disjoint and every velocity, `SweptAABB`
    finds the first contact. -/
theorem sweptAABB_firstContact (velX velY : ℚ) (hfree : ¬ box1.rect.Overlaps box2.rect) :
    FirstContact box1 box2 velX velY where
  defined := sweptAABB?_eq box1 box2 velX velY
  range := sweptAABB_entryTime box1 box2 velX velY
  clear := sweptAABB_clear hfree
  touches hhit := (sweptAABB_touches hhit).1
  first hhit t _ ht := (sweptAABB_touches hhit).2 t ht

/-- A box that moves towards the corner of another one. -/
theorem sweptAABB_firstContact_corner : FirstContact ⟨0, 0, 2, 2⟩ ⟨4, 5, 2, 2⟩ 4 4 :=
  sweptAABB_firstContact 4 4 (by decide +kernel)

end EndlessPeak
