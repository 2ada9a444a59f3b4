import EndlessPeak.Game.World

/-!
# The velocity that `MovePlayer` leaves

A hit stops a player on the axis of the sweep. The Y axis phase writes both components,
and for the horizontal one the local `vel_x`, which the X axis phase has scaled by its
entry time: a player that was stopped by a wall on its way and then hits the ground gets a
part of its horizontal velocity back.

* `movePlayer_velX`, `movePlayer_velY`: the two components after `MovePlayer`.
* `consistentVelocity_iff`: when each of them is what its own sweep makes it.
-/

namespace EndlessPeak

variable {platform : Platform} {config : GameConfig} {player : Player}

/-- The sweep of the X axis phase. -/
def sweepX (platform : Platform) (config : GameConfig) (player : Player) : SweptData :=
  config.sweep platform player.toBox player.velX 0

/-- The sweep of the Y axis phase, from where the X axis phase has moved the player. -/
def sweepY (platform : Platform) (config : GameConfig) (player : Player) : SweptData :=
  config.sweep platform
    (player.toBox.move (player.velX * (sweepX platform config player).entryTime) 0) 0 player.velY

/-- Each component is `0` if its sweep hit and else what it was, and no phase changes the
    component of the other. -/
structure ConsistentVelocity (platform : Platform) (config : GameConfig) (player : Player) :
    Prop where
  velX : (movePlayer platform config player).velX =
    if (sweepX platform config player).hit then 0 else player.velX
  velY : (movePlayer platform config player).velY =
    if (sweepY platform config player).hit then 0 else player.velY
  phaseX : (moveX platform config player player.velX player.velY).2.velY = player.velY
  phaseY : (movePlayer platform config player).velX =
    (moveX platform config player player.velX player.velY).2.velX

theorem entryTime_of_not_hit {box : Box} {velX velY : ℚ}
    (h : (config.sweep platform box velX velY).hit = false) :
    (config.sweep platform box velX velY).entryTime = 1 := by
  apply le_antisymm (sweptAxis_entryTime _ _ _ _ _ _ _ _).2
  by_contra hlt
  have hhit := sweptAxis_hit_of_lt (not_le.mp hlt)
  unfold GameConfig.sweep at h
  rw [h] at hhit
  exact absurd hhit (by decide)

/-- The horizontal component is set twice if both sweeps hit. -/
theorem movePlayer_velX (platform : Platform) (config : GameConfig) (player : Player) :
    (movePlayer platform config player).velX =
      if (sweepY platform config player).hit then
        player.velX * (sweepX platform config player).entryTime
      else if (sweepX platform config player).hit then 0 else player.velX := by
  unfold movePlayer sweepY sweepX
  simp only [moveY_velX, moveX_toBox, moveX_fst, moveX_velX]

theorem movePlayer_velY (platform : Platform) (config : GameConfig) (player : Player) :
    (movePlayer platform config player).velY =
      if (sweepY platform config player).hit then 0 else player.velY := by
  unfold movePlayer sweepY sweepX
  simp only [moveY_velY, moveX_toBox, moveX_velY, ite_self]

/-- For every map, player and velocity: `MovePlayer` leaves a consistent velocity exactly
    unless the X axis sweep hits after a part of the way and the Y axis sweep hits too. -/
theorem consistentVelocity_iff (platform : Platform) (config : GameConfig) (player : Player) :
    ConsistentVelocity platform config player ↔
      ¬ ((sweepX platform config player).hit = true ∧
        (sweepX platform config player).entryTime ≠ 0 ∧
        (sweepY platform config player).hit = true) := by
  constructor
  · rintro h ⟨hhitX, htime, hhitY⟩
    have hvel : player.velX ≠ 0 := by
      intro hzero
      rw [sweepX, hzero, sweep_zero] at hhitX
      exact absurd hhitX (by decide)
    have hx := h.velX
    rw [movePlayer_velX, if_pos hhitY, if_pos hhitX] at hx
    exact absurd hx (mul_ne_zero hvel htime)
  · intro hcond
    have hvelX : (movePlayer platform config player).velX =
        if (sweepX platform config player).hit then 0 else player.velX := by
      rw [movePlayer_velX]
      by_cases hhitY : (sweepY platform config player).hit = true
      · rw [if_pos hhitY]
        by_cases hhitX : (sweepX platform config player).hit = true
        · have hzero : (sweepX platform config player).entryTime = 0 := by
            by_contra htime
            exact hcond ⟨hhitX, htime, hhitY⟩
          rw [if_pos hhitX, hzero, mul_zero]
        · have hone : (sweepX platform config player).entryTime = 1 :=
            entryTime_of_not_hit (Bool.eq_false_iff.mpr hhitX)
          rw [if_neg hhitX, hone, mul_one]
      · rw [if_neg hhitY]
    refine ⟨hvelX, movePlayer_velY platform config player, ?_, ?_⟩
    · rw [moveX_velY, ite_self]
    · rw [hvelX, moveX_velX]
      rfl

/-- A player in the room that moves into the lower right corner: it is stopped by the wall
    after 11 units and keeps a velocity of 11 towards it. -/
theorem corner_velocity :
    ¬ ∀ (platform : Platform) (config : GameConfig) (player : Player),
      SweepDefined config player.toBox player.velX 0 →
      SweepDefined config (player.toBox.move
        (player.velX * (sweepX platform config player).entryTime) 0) 0 player.velY →
      ConsistentVelocity platform config player := by
  intro hclaim
  have hx := (hclaim .x86 .room ⟨⟨11, 11, 8, 8⟩, 7, 20, 20, false⟩ (by decide +kernel)
    (by decide +kernel)).velX
  have hcode : (movePlayer .x86 .room ⟨⟨11, 11, 8, 8⟩, 7, 20, 20, false⟩).velX = 11 := by
    decide +kernel
  have hhit : (sweepX .x86 .room ⟨⟨11, 11, 8, 8⟩, 7, 20, 20, false⟩).hit = true := by
    decide +kernel
  rw [hcode, if_pos hhit] at hx
  exact absurd hx (by norm_num)

end EndlessPeak
