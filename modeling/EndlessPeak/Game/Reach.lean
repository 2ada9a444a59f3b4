import Mathlib.Order.Bounds.Basic
import EndlessPeak.Game.BroadPhase
import EndlessPeak.Game.World

/-!
# How far `MovePlayer` moves a player

Along an axis a box can move by the part `f` of its velocity if it overlaps no solid tile
at any part up to `f`. The largest such `f` is the entry time of testing all solid tiles,
so `MovePlayer` moves a player as far as it can and no further, where its sweeps keep the
tile that is hit first.

* `isGreatest_bruteForce`: the largest part of a velocity along one axis.
* `movePlayer_movesAsFar_iff`: when `MovePlayer` uses it, on the x axis and then on the y
  axis.
-/

namespace EndlessPeak

open Lib

/-! ## The largest displacement -/

namespace GameConfig

/-- Moving at `(velX, velY)`, the box overlaps no solid tile up to time `f`. -/
def ClearPath (config : GameConfig) (box : Box) (velX velY f : ℚ) : Prop :=
  ∀ x y, config.Solid x y → box.rect.Clear (config.tileRect x y) velX velY f

/-- The parts of a velocity by which the box can move. -/
def Reach (config : GameConfig) (box : Box) (velX velY : ℚ) : Set ℚ :=
  {f | 0 ≤ f ∧ f ≤ 1 ∧ config.ClearPath box velX velY f}

end GameConfig

variable {platform : Platform} {config : GameConfig} {box : Box} {velX velY f : ℚ} {x y : ℕ}

theorem free_of_mem_reach (h : f ∈ config.Reach box velX velY) :
    config.Free (box.move (f * velX) (f * velY)) :=
  fun x y hsolid => (h.2.2 x y hsolid).not_overlaps_end h.1

theorem bruteForce_nonneg : 0 ≤ (config.bruteForce box velX velY).entryTime := by
  rcases bruteForce_cases config box velX velY with hmiss | ⟨x, y, -, heq, -⟩
  · simp [hmiss, SweptData.miss]
  · rw [heq]
    exact (sweptAABB_entryTime _ _ _ _).1

theorem bruteForce_mem_reach (hfree : config.Free box) :
    (config.bruteForce box velX velY).entryTime ∈ config.Reach box velX velY := by
  refine ⟨bruteForce_nonneg, bruteForce_le_one, ?_⟩
  intro x y hsolid t h0 h1
  rw [← config.rect_tileAt hsolid]
  refine sweptAABB_clear ?_ t h0 (h1.trans (bruteForce_le hsolid))
  rw [config.rect_tileAt hsolid]
  exact hfree x y hsolid

/-- A path that is clear along one axis, while the other axis overlaps, ends before the
    entry time. -/
theorem le_entryTime_of_clear {a u b w v : ℚ} (hu : 0 < u) (hw : 0 < w) (hv : v ≠ 0)
    (h0 : 0 ≤ entryTime a u b w v) (hf : 0 ≤ f)
    (hclear : ∀ t, 0 ≤ t → t ≤ f → ¬ Meets (a + t * v) u b w) :
    f ≤ entryTime a u b w v := by
  rcases le_entryTime_or_exitTime_le hu hw hv hf hclear with hentry | hexit
  · exact hentry
  · exact absurd (entryTime_lt_exitTime hu hw hv) (not_lt.mpr (hexit.trans h0))

/-- A contact along one axis stops every path. -/
theorem le_contact_of_clear (htile : config.tile ≠ 0) (hwidth : box.width ≠ 0)
    (hheight : box.height ≠ 0) (hsolid : config.Solid x y) (haxis : velX = 0 ∨ velY = 0)
    (hlt : (config.contact box velX velY x y).entryTime < 1) (hf : 0 ≤ f)
    (hclear : box.rect.Clear (config.tileRect x y) velX velY f) :
    f ≤ (config.contact box velX velY x y).entryTime := by
  have hT := cast_toNat_pos htile
  have hzero : ¬ (velX = 0 ∧ velY = 0) := by
    rintro ⟨rfl, rfl⟩
    simp [GameConfig.contact, sweptAABB, SweptData.miss] at hlt
  unfold GameConfig.contact at hlt ⊢
  rw [toBox_tileAt hsolid] at hlt ⊢
  rcases haxis with rfl | rfl
  · have hv : velY ≠ 0 := fun h => hzero ⟨rfl, h⟩
    obtain ⟨hmeets, h0, hdata⟩ := sweptAABB_lt_y hv hlt
    rw [hdata]
    refine le_entryTime_of_clear (cast_toNat_pos hheight) hT hv h0 hf fun t ht0 ht1 hy => ?_
    refine hclear t ht0 ht1 ⟨?_, hy⟩
    rw [mul_zero, Rect.shift, add_zero]
    exact hmeets
  · have hv : velX ≠ 0 := fun h => hzero ⟨h, rfl⟩
    obtain ⟨hmeets, h0, hdata⟩ := sweptAABB_lt_x hv hlt
    rw [hdata]
    refine le_entryTime_of_clear (cast_toNat_pos hwidth) hT hv h0 hf fun t ht0 ht1 hx => ?_
    refine hclear t ht0 ht1 ⟨hx, ?_⟩
    rw [mul_zero, Rect.shift, add_zero]
    exact hmeets

/-- The entry time of all solid tiles is the largest part of a velocity along one axis by
    which the box can move. -/
theorem isGreatest_bruteForce (htile : config.tile ≠ 0) (hwidth : box.width ≠ 0)
    (hheight : box.height ≠ 0) (hfree : config.Free box) (haxis : velX = 0 ∨ velY = 0) :
    IsGreatest (config.Reach box velX velY) (config.bruteForce box velX velY).entryTime := by
  refine ⟨bruteForce_mem_reach hfree, fun f hf => ?_⟩
  rcases bruteForce_cases config box velX velY with hmiss | ⟨x, y, hsolid, heq, hlt⟩
  · rw [hmiss]
    exact hf.2.1
  · rw [heq]
    exact le_contact_of_clear htile hwidth hheight hsolid haxis hlt hf.1 (hf.2.2 x y hsolid)

/-! ## The displacement of a sweep -/

/-- A map with a tile size, a grid of at most 255 rows, and a box with a size. -/
structure WellSized (config : GameConfig) (box : Box) : Prop where
  tile : config.tile ≠ 0
  gridX : config.gridX ≠ 0
  gridY : config.gridY ≠ 0
  small : config.gridY.toNat ≤ 255
  width : box.width ≠ 0
  height : box.height ≠ 0

theorem keepsFirstHit_zero : config.KeepsFirstHit platform box 0 0 := by
  intro x y hfirst
  have hlt := hfirst.hit
  simp [GameConfig.contact, sweptAABB, SweptData.miss] at hlt

/-- A horizontal sweep gives the displacement of all solid tiles exactly if it keeps the
    tile that is hit first. -/
theorem displacement_x_iff (hsize : WellSized config box) (hx : 0 ≤ box.x) (hy : 0 ≤ box.y)
    (hend : 0 ≤ box.x + velX) :
    velX * (config.sweep platform box velX 0).entryTime =
        (config.bruteForce box velX 0).entryTime * velX ↔
      config.KeepsFirstHit platform box velX 0 := by
  by_cases hv : velX = 0
  · subst hv
    simp [keepsFirstHit_zero]
  have hmove : AxisMove box velX 0 := ⟨.inl ⟨hv, rfl⟩, hx, hy, hend, by simpa using hy⟩
  rw [mul_comm, mul_left_inj' hv, entryTime_eq_iff hsize.tile hsize.gridX hsize.gridY hsize.small
    hsize.width hsize.height hmove]

theorem displacement_y_iff (hsize : WellSized config box) (hx : 0 ≤ box.x) (hy : 0 ≤ box.y)
    (hend : 0 ≤ box.y + velY) :
    velY * (config.sweep platform box 0 velY).entryTime =
        (config.bruteForce box 0 velY).entryTime * velY ↔
      config.KeepsFirstHit platform box 0 velY := by
  by_cases hv : velY = 0
  · subst hv
    simp [keepsFirstHit_zero]
  have hmove : AxisMove box 0 velY := ⟨.inr ⟨rfl, hv⟩, hx, hy, by simpa using hx, hend⟩
  rw [mul_comm, mul_left_inj' hv, entryTime_eq_iff hsize.tile hsize.gridX hsize.gridY hsize.small
    hsize.width hsize.height hmove]

/-! ## `MovePlayer` -/

/-- The player has moved by the largest part of its velocity, on the x axis and from there
    on the y axis, and is free there. -/
def MovesAsFar (platform : Platform) (config : GameConfig) (player : Player) : Prop :=
  ∃ fx fy, IsGreatest (config.Reach player.toBox player.velX 0) fx ∧
    IsGreatest (config.Reach (player.toBox.move (fx * player.velX) 0) 0 player.velY) fy ∧
    (movePlayer platform config player).toBox =
      (player.toBox.move (fx * player.velX) 0).move 0 (fy * player.velY) ∧
    config.Free (movePlayer platform config player).toBox

/-- The box at the end of the longest clear path along the x axis. -/
def GameConfig.stopX (config : GameConfig) (box : Box) (velX : ℚ) : Box :=
  box.move ((config.bruteForce box velX 0).entryTime * velX) 0

theorem movePlayer_toBox (platform : Platform) (config : GameConfig) (player : Player) :
    (movePlayer platform config player).toBox =
      (moveX platform config player player.velX player.velY).2.toBox.move 0
        (player.velY * (config.sweep platform
          (moveX platform config player player.velX player.velY).2.toBox 0
          player.velY).entryTime) := moveY_toBox _ _ _ _ _

theorem stop_nonneg (hx : 0 ≤ box.x) (hend : 0 ≤ box.x + velX) (h0 : 0 ≤ f) (h1 : f ≤ 1) :
    0 ≤ box.x + f * velX := by
  have hmin := min_le_shift (a := box.x) (v := velX) h0 h1
  exact (le_min hx hend).trans hmin

/-- For every map with at most 255 rows and every player outside of all solid tiles whose
    sweeps stay at nonnegative coordinates: `MovePlayer` moves the player as far as it can
    and no further exactly if both sweeps keep the tile that is hit first. -/
theorem movePlayer_movesAsFar_iff {player : Player} (hsize : WellSized config player.toBox)
    (hfree : config.Free player.toBox) (hx : 0 ≤ player.x) (hy : 0 ≤ player.y)
    (hendX : 0 ≤ player.x + player.velX) (hendY : 0 ≤ player.y + player.velY) :
    MovesAsFar platform config player ↔
      config.KeepsFirstHit platform player.toBox player.velX 0 ∧
        config.KeepsFirstHit platform (config.stopX player.toBox player.velX) 0 player.velY := by
  have hgreatX : IsGreatest (config.Reach player.toBox player.velX 0) _ :=
    isGreatest_bruteForce hsize.tile hsize.width hsize.height hfree (.inr rfl)
  have hfreeX : config.Free (config.stopX player.toBox player.velX) := by
    simpa [GameConfig.stopX] using free_of_mem_reach hgreatX.1
  have hsizeX : WellSized config (config.stopX player.toBox player.velX) :=
    ⟨hsize.tile, hsize.gridX, hsize.gridY, hsize.small, hsize.width, hsize.height⟩
  have hgreatY : IsGreatest (config.Reach (config.stopX player.toBox player.velX) 0
      player.velY) _ :=
    isGreatest_bruteForce hsize.tile hsizeX.width hsizeX.height hfreeX (.inl rfl)
  have hstopX : 0 ≤ (config.stopX player.toBox player.velX).x :=
    stop_nonneg hx hendX hgreatX.1.1 hgreatX.1.2.1
  have hstopY : (config.stopX player.toBox player.velX).y = player.y := add_zero _
  rw [← displacement_x_iff hsize hx hy hendX, ← displacement_y_iff hsizeX hstopX
    (hstopY ▸ hy) (hstopY ▸ hendY)]
  constructor
  · rintro ⟨fx, fy, hfx, hfy, hbox, -⟩
    obtain rfl := hfx.unique hgreatX
    obtain rfl := hfy.unique hgreatY
    rw [movePlayer_toBox, moveX_toBox] at hbox
    simp only [Box.move, Box.mk.injEq, add_zero, and_true, add_right_inj] at hbox
    obtain ⟨hdx, hdy⟩ := hbox
    refine ⟨hdx, ?_⟩
    rw [hdx] at hdy
    simpa [GameConfig.stopX, Box.move] using hdy
  · rintro ⟨hdx, hdy⟩
    have hbox : (movePlayer platform config player).toBox =
        (config.stopX player.toBox player.velX).move 0
          ((config.bruteForce (config.stopX player.toBox player.velX) 0 player.velY).entryTime *
            player.velY) := by
      rw [movePlayer_toBox, moveX_toBox, hdx]
      exact congrArg _ hdy
    refine ⟨_, _, hgreatX, hgreatY, hbox, ?_⟩
    rw [hbox]
    simpa using free_of_mem_reach hgreatY.1

/-- A player in the room that moves into its lower right corner. -/
theorem movePlayer_movesAsFar_iff_room :
    MovesAsFar .x86 .room ⟨⟨11, 11, 8, 8⟩, 7, 20, 20, false⟩ ↔
      GameConfig.room.KeepsFirstHit .x86 ⟨11, 11, 8, 8⟩ 20 0 ∧
        GameConfig.room.KeepsFirstHit .x86 (GameConfig.room.stopX ⟨11, 11, 8, 8⟩ 20) 0 20 := by
  apply movePlayer_movesAsFar_iff
  · constructor <;> decide
  · decide +kernel
  all_goals norm_num

/-- A player that is moved by `2^64` tiles to the right leaves the room through its wall. -/
theorem far_move_not_movesAsFar :
    ¬ ∀ (platform : Platform) (config : GameConfig) (player : Player),
      WellSized config player.toBox → config.Free player.toBox → 0 ≤ player.x → 0 ≤ player.y →
      0 ≤ player.x + player.velX → 0 ≤ player.y + player.velY →
      MovesAsFar platform config player := by
  intro hclaim
  have hsize : WellSized GameConfig.room ⟨11, 11, 8, 8⟩ := by
    constructor <;> decide
  obtain ⟨fx, fy, hfx, -, hbox, -⟩ := hclaim .gccX86 .room
    ⟨⟨11, 11, 8, 8⟩, 7, 10 * 2 ^ 64, 0, false⟩ hsize (by decide +kernel) (by norm_num)
    (by norm_num) (by norm_num) (by norm_num)
  have hmoved : (movePlayer .gccX86 .room ⟨⟨11, 11, 8, 8⟩, 7, 10 * 2 ^ 64, 0, false⟩).toBox =
      ⟨11 + 10 * 2 ^ 64, 11, 8, 8⟩ := by decide +kernel
  rw [hmoved] at hbox
  have hfull : fx = 1 := by
    have hend := congrArg Box.x hbox
    simp only [Box.move] at hend
    linarith
  -- on the way, the box overlaps the wall
  have hwall : GameConfig.room.Solid 3 1 := by decide
  refine hfx.1.2.2 3 1 hwall (15 / (10 * 2 ^ 64)) (by norm_num) ?_ (by decide +kernel)
  rw [hfull]
  norm_num

end EndlessPeak
