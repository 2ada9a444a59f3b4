import Mathlib.Order.WithBot
import EndlessPeak.Game.Map

/-!
# `SweptAABB`: the first contact of a moving box with a fixed one

Model of `game/physics/swept_math.cpp`. The entry and exit times of an axis along
which the box does not move are infinite, so they are rationals extended by `⊥`
and `⊤`.

* `sweptAABB_clear`: from a position without overlap the box moves to the returned
  entry time without overlapping the other box.
* `sweptAABB_hit_y`: where a hit of a vertical sweep is.
-/

namespace EndlessPeak

open Lib

/-! ## The model -/

/-- `struct SweptData`. -/
structure SweptData where
  entryTime : ℚ
  normalX : UInt8
  normalY : UInt8
  hit : Bool
  deriving DecidableEq, Repr

/-- `{1.0, 0, 0, false}`. -/
def SweptData.miss : SweptData := { entryTime := 1, normalX := 0, normalY := 0, hit := false }

/-- A double that may be an infinity. -/
abbrev ExtRat := WithBot (WithTop ℚ)

/-- A finite double. -/
def ExtRat.ofRat (q : ℚ) : ExtRat := ((q : WithTop ℚ) : WithBot (WithTop ℚ))

/-- The value of a finite double. -/
def ExtRat.toRat (q : ExtRat) : ℚ := (q.unbotD 0).untopD 0

/-- The entry and exit times along one axis: the block "X axis" (or "Y axis")
    followed by the division by the velocity. `none` is the early return of a
    box that does not move along this axis and does not overlap the other. -/
def axisTimes (pos1 size1 pos2 size2 vel : ℚ) : Option (ExtRat × ExtRat) :=
  if 0 < vel then
    let invEntry := pos2 - (pos1 + size1)
    let invExit := (pos2 + size2) - pos1
    some (.ofRat (invEntry / vel), .ofRat (invExit / vel))
  else if vel < 0 then
    let invEntry := (pos2 + size2) - pos1
    let invExit := pos2 - (pos1 + size1)
    some (.ofRat (invEntry / vel), .ofRat (invExit / vel))
  else if pos1 + size1 ≤ pos2 ∨ pos2 + size2 ≤ pos1 then none
  else some (⊥, ⊤)

/-- `SweptAABB`. A normal of `-1` is stored in a `std::uint8_t`. -/
def sweptAABB (box1 box2 : Box) (velX velY : ℚ) : SweptData :=
  if velX = 0 ∧ velY = 0 then .miss
  else
    match axisTimes box1.x box1.w box2.x box2.w velX with
    | none => .miss
    | some (xEntry, xExit) =>
      match axisTimes box1.y box1.h box2.y box2.h velY with
      | none => .miss
      | some (yEntry, yExit) =>
        let entryTime := max xEntry yEntry
        let exitTime := min xExit yExit
        if exitTime < entryTime ∨ entryTime < .ofRat 0 ∨ .ofRat 1 < entryTime then .miss
        else if yEntry < xEntry then
          { entryTime := entryTime.toRat, normalX := if 0 < velX then 255 else 1, normalY := 0,
            hit := true }
        else
          { entryTime := entryTime.toRat, normalX := 0, normalY := if 0 < velY then 255 else 1,
            hit := true }

/-! ## Finite and infinite times -/

namespace ExtRat

variable {q r : ℚ} {e : ExtRat}

@[simp] theorem ofRat_lt : ofRat q < ofRat r ↔ q < r := by simp [ofRat]

@[simp] theorem ofRat_le : ofRat q ≤ ofRat r ↔ q ≤ r := by simp [ofRat]

@[simp] theorem toRat_ofRat : (ofRat q).toRat = q := rfl

@[simp] theorem bot_lt_ofRat : ⊥ < ofRat q := WithBot.bot_lt_coe _

@[simp] theorem ofRat_lt_top : ofRat q < ⊤ := by
  rw [← WithBot.coe_top]
  exact WithBot.coe_lt_coe.mpr (WithTop.coe_lt_top q)

theorem ofRat_toRat (hlo : ofRat q ≤ e) (hhi : e ≤ ofRat r) : ofRat e.toRat = e := by
  rcases e with _ | _ | e
  · exact absurd hlo (not_le.mpr bot_lt_ofRat)
  · exact absurd hhi (not_le.mpr ofRat_lt_top)
  · rfl

end ExtRat

/-! ## One axis -/

section Axis

variable {a u b w v t : ℚ} {en ex : ExtRat}

/-- The entry and exit times delimit when the two intervals meet. -/
theorem meets_iff_of_axisTimes (h : axisTimes a u b w v = some (en, ex)) :
    Meets (a + t * v) u b w ↔ en < .ofRat t ∧ .ofRat t < ex := by
  unfold axisTimes at h
  split_ifs at h with hpos hneg hside
  · cases h
    simpa [entryTime, exitTime, hpos] using meets_shift_iff hpos.ne'
  · cases h
    simpa [entryTime, exitTime, hneg.not_gt] using meets_shift_iff hneg.ne
  · cases h
    have hv : v = 0 := le_antisymm (not_lt.mp hpos) (not_lt.mp hneg)
    push Not at hside
    simp [hv, Meets, hside]

/-- After the early return the two intervals never meet. -/
theorem not_meets_of_axisTimes (h : axisTimes a u b w v = none) :
    v = 0 ∧ ¬ Meets (a + t * v) u b w := by
  unfold axisTimes at h
  split_ifs at h with hpos hneg hside
  have hv : v = 0 := le_antisymm (not_lt.mp hpos) (not_lt.mp hneg)
  refine ⟨hv, ?_⟩
  rintro ⟨h1, h2⟩
  simp only [hv, mul_zero, add_zero] at h1 h2
  rcases hside with hside | hside <;> linarith

theorem axisTimes_zero (h : Meets a u b w) : axisTimes a u b w 0 = some (⊥, ⊤) := by
  simp [axisTimes, h.1, h.2]

theorem axisTimes_zero_none (h : ¬ Meets a u b w) : axisTimes a u b w 0 = none := by
  rcases le_or_le_of_not_meets h with hle | hle <;> simp [axisTimes, hle]

theorem axisTimes_of_ne (hv : v ≠ 0) :
    axisTimes a u b w v = some (.ofRat (entryTime a u b w v), .ofRat (exitTime a u b w v)) := by
  unfold axisTimes entryTime exitTime
  rcases lt_or_gt_of_ne hv with hneg | hpos
  · simp [hneg, hneg.not_gt]
  · simp [hpos]

theorem axisTimes_pos (hv : 0 < v) :
    axisTimes a u b w v = some (.ofRat ((b - (a + u)) / v), .ofRat ((b + w - a) / v)) := by
  simp [axisTimes, hv]

theorem axisTimes_neg (hv : v < 0) :
    axisTimes a u b w v = some (.ofRat ((b + w - a) / v), .ofRat ((b - (a + u)) / v)) := by
  simp [axisTimes, hv, hv.not_gt]

end Axis

/-! ## Two axes -/

variable {box1 box2 : Box} {velX velY t : ℚ}

/-- The larger entry time and the smaller exit time delimit the overlap. -/
theorem overlaps_iff_of_axisTimes {xEntry xExit yEntry yExit : ExtRat}
    (hx : axisTimes box1.x box1.w box2.x box2.w velX = some (xEntry, xExit))
    (hy : axisTimes box1.y box1.h box2.y box2.h velY = some (yEntry, yExit)) :
    (box1.rect.shift (t * velX) (t * velY)).Overlaps box2.rect ↔
      max xEntry yEntry < .ofRat t ∧ .ofRat t < min xExit yExit := by
  have h1 := meets_iff_of_axisTimes (t := t) hx
  have h2 := meets_iff_of_axisTimes (t := t) hy
  simp only [Rect.Overlaps, Rect.shift, Box.rect, h1, h2, max_lt_iff, lt_min_iff]
  tauto

/-- The result of a sweep: either a miss, or the larger of the two entry times,
    which then lies between `0` and `1`. -/
theorem sweptAABB_cases (box1 box2 : Box) (velX velY : ℚ) :
    sweptAABB box1 box2 velX velY = .miss ∨
    ∃ xEntry xExit yEntry yExit,
      axisTimes box1.x box1.w box2.x box2.w velX = some (xEntry, xExit) ∧
      axisTimes box1.y box1.h box2.y box2.h velY = some (yEntry, yExit) ∧
      .ofRat 0 ≤ max xEntry yEntry ∧ max xEntry yEntry ≤ .ofRat 1 ∧
      max xEntry yEntry ≤ min xExit yExit ∧
      (sweptAABB box1 box2 velX velY).hit = true ∧
      (sweptAABB box1 box2 velX velY).entryTime = (max xEntry yEntry).toRat := by
  unfold sweptAABB
  by_cases hv : velX = 0 ∧ velY = 0
  · rw [if_pos hv]
    exact .inl rfl
  rw [if_neg hv]
  rcases hx : axisTimes box1.x box1.w box2.x box2.w velX with _ | ⟨xEntry, xExit⟩
  · exact .inl rfl
  rcases hy : axisTimes box1.y box1.h box2.y box2.h velY with _ | ⟨yEntry, yExit⟩
  · exact .inl rfl
  simp only
  by_cases hmiss : min xExit yExit < max xEntry yEntry ∨ max xEntry yEntry < .ofRat 0 ∨
      .ofRat 1 < max xEntry yEntry
  · rw [if_pos hmiss]
    exact .inl rfl
  · rw [if_neg hmiss]
    push Not at hmiss
    split_ifs
    all_goals exact .inr ⟨_, _, _, _, rfl, rfl, hmiss.2.1, hmiss.2.2, hmiss.1, rfl, rfl⟩

theorem sweptAABB_entryTime (box1 box2 : Box) (velX velY : ℚ) :
    0 ≤ (sweptAABB box1 box2 velX velY).entryTime ∧
      (sweptAABB box1 box2 velX velY).entryTime ≤ 1 := by
  rcases sweptAABB_cases box1 box2 velX velY with
    hmiss | ⟨_, _, _, _, -, -, h0, h1, -, -, htime⟩
  · simp [hmiss, SweptData.miss]
  · rw [htime, ← ExtRat.ofRat_le, ← ExtRat.ofRat_le, ExtRat.ofRat_toRat h0 h1]
    exact ⟨h0, h1⟩

theorem sweptAABB_hit_of_lt (h : (sweptAABB box1 box2 velX velY).entryTime < 1) :
    (sweptAABB box1 box2 velX velY).hit = true := by
  rcases sweptAABB_cases box1 box2 velX velY with
    hmiss | ⟨_, _, _, _, -, -, -, -, -, hhit, -⟩
  · simp [hmiss, SweptData.miss] at h
  · exact hhit

/-- From a position without overlap the box reaches the entry time without
    overlapping the other box. -/
theorem sweptAABB_clear (hfree : ¬ box1.rect.Overlaps box2.rect) :
    box1.rect.Clear box2.rect velX velY (sweptAABB box1 box2 velX velY).entryTime := by
  intro t h0 h1 hover
  have hstart : ¬ (box1.rect.shift (0 * velX) (0 * velY)).Overlaps box2.rect := by
    simpa [Rect.shift] using hfree
  rcases hx : axisTimes box1.x box1.w box2.x box2.w velX with _ | ⟨xEntry, xExit⟩
  · exact (not_meets_of_axisTimes hx).2 hover.1
  rcases hy : axisTimes box1.y box1.h box2.y box2.h velY with _ | ⟨yEntry, yExit⟩
  · exact (not_meets_of_axisTimes hy).2 hover.2
  rw [overlaps_iff_of_axisTimes hx hy] at hover hstart
  -- the overlap is still to come at time `0`
  have hlater : .ofRat 0 ≤ max xEntry yEntry := by
    by_contra hneg
    exact hstart ⟨not_le.mp hneg, (ExtRat.ofRat_le.mpr h0).trans_lt hover.2⟩
  rcases sweptAABB_cases box1 box2 velX velY with
    hmiss | ⟨xEntry', xExit', yEntry', yExit', hx', hy', _, hone, _, _, htime⟩
  · rw [hmiss] at h1
    have hone : max xEntry yEntry < .ofRat 1 := hover.1.trans_le (ExtRat.ofRat_le.mpr h1)
    have hle : max xEntry yEntry < min xExit yExit := hover.1.trans hover.2
    have hv : ¬ (velX = 0 ∧ velY = 0) := by
      rintro ⟨rfl, rfl⟩
      exact hfree (by simpa [Rect.shift] using (overlaps_iff_of_axisTimes hx hy).mpr hover)
    have hhit : (sweptAABB box1 box2 velX velY).hit = true := by
      simp only [sweptAABB, hv, if_false, hx, hy]
      rw [if_neg (by push Not; exact ⟨hle.le, hlater, hone.le⟩)]
      split_ifs <;> rfl
    simp [hmiss, SweptData.miss] at hhit
  · rw [hx] at hx'
    rw [hy] at hy'
    cases hx'
    cases hy'
    rw [htime, ← ExtRat.ofRat_le, ExtRat.ofRat_toRat hlater hone] at h1
    exact absurd hover.1 (not_lt.mpr h1)

/-! ## Sweeps along one axis -/

/-- The result for a box that is hit at time `e` by a sweep along one axis. -/
def SweptData.axisHit (velX velY e : ℚ) : SweptData where
  entryTime := e
  normalX := if velX = 0 then 0 else if 0 < velX then 255 else 1
  normalY := if velY = 0 then 0 else if 0 < velY then 255 else 1
  hit := true

theorem sweptAABB_x_miss (h : ¬ Meets box1.y box1.h box2.y box2.h) :
    sweptAABB box1 box2 velX 0 = .miss := by
  unfold sweptAABB
  rw [axisTimes_zero_none h]
  cases axisTimes box1.x box1.w box2.x box2.w velX <;> exact ite_self _

/-- A horizontal sweep against a box whose `y` range strictly overlaps. -/
theorem sweptAABB_x (hv : velX ≠ 0) (h : Meets box1.y box1.h box2.y box2.h) :
    sweptAABB box1 box2 velX 0 =
      if exitTime box1.x box1.w box2.x box2.w velX < entryTime box1.x box1.w box2.x box2.w velX ∨
        entryTime box1.x box1.w box2.x box2.w velX < 0 ∨
        1 < entryTime box1.x box1.w box2.x box2.w velX then .miss
      else .axisHit velX 0 (entryTime box1.x box1.w box2.x box2.w velX) := by
  unfold sweptAABB
  rw [if_neg (fun h0 => hv h0.1), axisTimes_of_ne hv, axisTimes_zero h]
  simp only [max_bot_right, min_top_right, ExtRat.ofRat_lt, ExtRat.bot_lt_ofRat, if_true,
    ExtRat.toRat_ofRat, SweptData.axisHit, hv, if_false]

theorem sweptAABB_y_miss (h : ¬ Meets box1.x box1.w box2.x box2.w) :
    sweptAABB box1 box2 0 velY = .miss := by
  unfold sweptAABB
  rw [axisTimes_zero_none h]
  exact ite_self _

/-- A vertical sweep against a box whose `x` range strictly overlaps. -/
theorem sweptAABB_y (hv : velY ≠ 0) (h : Meets box1.x box1.w box2.x box2.w) :
    sweptAABB box1 box2 0 velY =
      if exitTime box1.y box1.h box2.y box2.h velY < entryTime box1.y box1.h box2.y box2.h velY ∨
        entryTime box1.y box1.h box2.y box2.h velY < 0 ∨
        1 < entryTime box1.y box1.h box2.y box2.h velY then .miss
      else .axisHit 0 velY (entryTime box1.y box1.h box2.y box2.h velY) := by
  unfold sweptAABB
  rw [if_neg (fun h0 => hv h0.2), axisTimes_of_ne hv, axisTimes_zero h]
  simp only [max_bot_left, min_top_left, ExtRat.ofRat_lt, ExtRat.toRat_ofRat, not_lt_bot,
    if_false, SweptData.axisHit, hv, if_true]

theorem sweptAABB_x_of_hit (hv : velX ≠ 0) (h : (sweptAABB box1 box2 velX 0).hit = true) :
    Meets box1.y box1.h box2.y box2.h ∧ 0 ≤ entryTime box1.x box1.w box2.x box2.w velX ∧
      sweptAABB box1 box2 velX 0 =
        .axisHit velX 0 (entryTime box1.x box1.w box2.x box2.w velX) := by
  by_cases hmeets : Meets box1.y box1.h box2.y box2.h
  · rw [sweptAABB_x hv hmeets] at h ⊢
    split_ifs at h ⊢ with hmiss
    · simp [SweptData.miss] at h
    · push Not at hmiss
      exact ⟨hmeets, hmiss.2.1, rfl⟩
  · rw [sweptAABB_x_miss hmeets] at h
    simp [SweptData.miss] at h

theorem sweptAABB_y_of_hit (hv : velY ≠ 0) (h : (sweptAABB box1 box2 0 velY).hit = true) :
    Meets box1.x box1.w box2.x box2.w ∧ 0 ≤ entryTime box1.y box1.h box2.y box2.h velY ∧
      sweptAABB box1 box2 0 velY =
        .axisHit 0 velY (entryTime box1.y box1.h box2.y box2.h velY) := by
  by_cases hmeets : Meets box1.x box1.w box2.x box2.w
  · rw [sweptAABB_y hv hmeets] at h ⊢
    split_ifs at h ⊢ with hmiss
    · simp [SweptData.miss] at h
    · push Not at hmiss
      exact ⟨hmeets, hmiss.2.1, rfl⟩
  · rw [sweptAABB_y_miss hmeets] at h
    simp [SweptData.miss] at h

theorem sweptAABB_lt_x (hv : velX ≠ 0) (h : (sweptAABB box1 box2 velX 0).entryTime < 1) :
    Meets box1.y box1.h box2.y box2.h ∧ 0 ≤ entryTime box1.x box1.w box2.x box2.w velX ∧
      sweptAABB box1 box2 velX 0 =
        .axisHit velX 0 (entryTime box1.x box1.w box2.x box2.w velX) :=
  sweptAABB_x_of_hit hv (sweptAABB_hit_of_lt h)

theorem sweptAABB_lt_y (hv : velY ≠ 0) (h : (sweptAABB box1 box2 0 velY).entryTime < 1) :
    Meets box1.x box1.w box2.x box2.w ∧ 0 ≤ entryTime box1.y box1.h box2.y box2.h velY ∧
      sweptAABB box1 box2 0 velY =
        .axisHit 0 velY (entryTime box1.y box1.h box2.y box2.h velY) :=
  sweptAABB_y_of_hit hv (sweptAABB_hit_of_lt h)

/-- A hit of a vertical sweep is with a box whose `x` range strictly overlaps, and
    at the returned time the edges that face each other touch. -/
theorem sweptAABB_hit_y (h : (sweptAABB box1 box2 0 velY).hit = true) :
    Meets box1.x box1.w box2.x box2.w ∧
      (0 < velY →
        box1.y + (sweptAABB box1 box2 0 velY).entryTime * velY + box1.h = box2.y) ∧
      (velY < 0 →
        box2.y + box2.h = box1.y + (sweptAABB box1 box2 0 velY).entryTime * velY) := by
  have hv : velY ≠ 0 := by
    intro h0
    rw [h0] at h
    simp [sweptAABB, SweptData.miss] at h
  obtain ⟨hmeets, -, hdata⟩ := sweptAABB_y_of_hit hv h
  rw [hdata]
  show _ ∧ (_ → box1.y + entryTime box1.y box1.h box2.y box2.h velY * velY + box1.h = box2.y) ∧
    (_ → box2.y + box2.h = box1.y + entryTime box1.y box1.h box2.y box2.h velY * velY)
  refine ⟨hmeets, ?_, ?_⟩
  · intro hpos
    unfold entryTime
    rw [if_pos hpos, div_mul_cancel₀ _ hv]
    ring
  · intro hneg
    unfold entryTime
    rw [if_neg hneg.not_gt, div_mul_cancel₀ _ hv]
    ring

end EndlessPeak
