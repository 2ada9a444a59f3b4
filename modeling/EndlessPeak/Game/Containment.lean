import EndlessPeak.Game.Tick

/-!
# Players stay in the grid and out of solid tiles

`World::MovePlayer` moves along one axis at a time, each time by the part of the
velocity that `SweptAxis` returns. On a walled map a player that is inside the
grid and free of solid tiles stays so, as long as the sweeps of the tick are
defined: their tile coordinates fit `std::size_t`, and passing `grid_y` as eight
bits does not change the last row that is swept.

* `contained_movePlayer`: the step.
* `game_contained`: every run of ticks whose sweeps are defined.
* `tall_map_escape`: without that condition a player can fall out of the map.
-/

namespace EndlessPeak

open Lib

/-! ## Walls -/

/-- The border tiles are solid, all sizes are positive and the spawn box lies in
    the grid, free of solid tiles. -/
structure GameConfig.Walled (config : GameConfig) : Prop where
  tile : config.tile ≠ 0
  gridX : config.gridX ≠ 0
  gridY : config.gridY ≠ 0
  width : config.player.width ≠ 0
  height : config.player.height ≠ 0
  border : ∀ x y, x < config.gridX.toNat → y < config.gridY.toNat →
    x = 0 ∨ y = 0 ∨ x + 1 = config.gridX.toNat ∨ y + 1 = config.gridY.toNat → config.Solid x y
  spawn_within : config.spawnBox.rect.Within config.gridRect
  spawn_free : config.Free config.spawnBox

/-- The box of a player inside the grid, free of solid tiles. -/
structure Contained (config : GameConfig) (box : Box) : Prop where
  width : box.width = config.player.width
  height : box.height = config.player.height
  within : box.rect.Within config.gridRect
  free : config.Free box

variable {platform : Platform} {config : GameConfig} {box : Box} {dt velX velY e : ℚ}

theorem exists_cell_meets {a u T : ℚ} {n : ℕ} (hT : 0 < T) (hu : 0 < u) (ha : 0 ≤ a)
    (hn : a + u ≤ (n : ℚ) * T) : ∃ k < n, Meets a u ((k : ℚ) * T) T := by
  have hfloor : (0 : ℤ) ≤ ⌊a / T⌋ := Int.floor_nonneg.mpr (div_nonneg ha hT.le)
  obtain ⟨k, hk⟩ := Int.eq_ofNat_of_zero_le hfloor
  have hle : ((k : ℤ) : ℚ) ≤ a / T := hk ▸ Int.floor_le (a / T)
  have hlt : a / T < ((k : ℤ) : ℚ) + 1 := hk ▸ Int.lt_floor_add_one (a / T)
  rw [le_div_iff₀ hT] at hle
  rw [div_lt_iff₀ hT] at hlt
  push_cast at hle hlt
  refine ⟨k, ?_, by linarith, by linarith⟩
  by_contra hcon
  have hge : (n : ℚ) ≤ (k : ℚ) := by exact_mod_cast not_lt.mp hcon
  have hmul : (n : ℚ) * T ≤ (k : ℚ) * T := mul_le_mul_of_nonneg_right hge hT.le
  linarith

/-- An interval that moves clear of the first and of the last of `n` cells stays
    within the `n` cells. -/
theorem within_cells {a u v T : ℚ} {n : ℕ} (hT : 0 < T) (hu : 0 < u) (hn : n ≠ 0) (he : 0 ≤ e)
    (h0 : 0 ≤ a) (h1 : a + u ≤ (n : ℚ) * T)
    (hfirst : ∀ t, 0 ≤ t → t ≤ e → ¬ Meets (a + t * v) u (((0 : ℕ) : ℚ) * T) T)
    (hlast : ∀ t, 0 ≤ t → t ≤ e → ¬ Meets (a + t * v) u (((n - 1 : ℕ) : ℚ) * T) T) :
    0 ≤ a + e * v ∧ a + e * v + u ≤ (n : ℚ) * T := by
  have hcast : ((n - 1 : ℕ) : ℚ) = (n : ℚ) - 1 := by
    rw [Nat.cast_sub (by omega), Nat.cast_one]
  rw [Nat.cast_zero, zero_mul] at hfirst
  rw [hcast] at hlast
  -- the interval starts between the two cells
  have hL : 0 + T ≤ a := by
    rcases le_or_le_of_not_meets (hfirst 0 le_rfl he) with h | h <;> linarith
  have hR : a + u ≤ ((n : ℚ) - 1) * T := by
    rcases le_or_le_of_not_meets (hlast 0 le_rfl he) with h | h <;> linarith
  have hL' := le_shift_of_clear hu hT he hfirst hL
  have hR' := shift_le_of_clear hu hT he hlast hR
  constructor <;> linarith

/-- Moving along `x` clear of the solid tiles, a box stays between the side walls. -/
theorem within_shift_x (hwalled : config.Walled) {r : Rect ℚ} (hw : 0 < r.w) (hh : 0 < r.h)
    (he : 0 ≤ e) (hin : r.Within config.gridRect)
    (hclear : ∀ x y, config.Solid x y → r.Clear (config.tileRect x y) velX 0 e) :
    (r.shift (e * velX) 0).Within config.gridRect := by
  have hT : (0 : ℚ) < (config.tile.toNat : ℚ) := cast_toNat_pos hwalled.tile
  have hgx : config.gridX.toNat ≠ 0 := by simpa [UInt16.ext_iff] using hwalled.gridX
  obtain ⟨hx0, hx1, hy0, hy1⟩ := hin
  simp only [GameConfig.gridRect, zero_add] at hx0 hx1 hy0 hy1
  obtain ⟨k, hk, hmeets⟩ := exists_cell_meets hT hh hy0 hy1
  -- the box is level with the border tiles of row `k`
  have hrow : ∀ x, config.Solid x k → ∀ t, 0 ≤ t → t ≤ e →
      ¬ Meets (r.x + t * velX) r.w ((x : ℚ) * (config.tile.toNat : ℚ)) config.tile.toNat := by
    intro x hsolid t h0 h1 hm
    exact hclear x k hsolid t h0 h1 ⟨hm, by simpa [Rect.shift, GameConfig.tileRect] using hmeets⟩
  obtain ⟨hlo, hhi⟩ := within_cells hT hw hgx he hx0 hx1
    (hrow 0 (hwalled.border 0 k (Nat.pos_of_ne_zero hgx) hk (.inl rfl)))
    (hrow _ (hwalled.border _ k (by omega) hk (.inr (.inr (.inl (by omega))))))
  simp only [Rect.Within, GameConfig.gridRect, Rect.shift, zero_add, add_zero]
  exact ⟨hlo, hhi, hy0, hy1⟩

/-- Moving along `y` clear of the solid tiles, a box stays between top and bottom. -/
theorem within_shift_y (hwalled : config.Walled) {r : Rect ℚ} (hw : 0 < r.w) (hh : 0 < r.h)
    (he : 0 ≤ e) (hin : r.Within config.gridRect)
    (hclear : ∀ x y, config.Solid x y → r.Clear (config.tileRect x y) 0 velY e) :
    (r.shift 0 (e * velY)).Within config.gridRect := by
  have hT : (0 : ℚ) < (config.tile.toNat : ℚ) := cast_toNat_pos hwalled.tile
  have hgy : config.gridY.toNat ≠ 0 := by simpa [UInt16.ext_iff] using hwalled.gridY
  obtain ⟨hx0, hx1, hy0, hy1⟩ := hin
  simp only [GameConfig.gridRect, zero_add] at hx0 hx1 hy0 hy1
  obtain ⟨k, hk, hmeets⟩ := exists_cell_meets hT hw hx0 hx1
  have hcolumn : ∀ y, config.Solid k y → ∀ t, 0 ≤ t → t ≤ e →
      ¬ Meets (r.y + t * velY) r.h ((y : ℚ) * (config.tile.toNat : ℚ)) config.tile.toNat := by
    intro y hsolid t h0 h1 hm
    exact hclear k y hsolid t h0 h1 ⟨by simpa [Rect.shift, GameConfig.tileRect] using hmeets, hm⟩
  obtain ⟨hlo, hhi⟩ := within_cells hT hh hgy he hy0 hy1
    (hcolumn 0 (hwalled.border k 0 hk (Nat.pos_of_ne_zero hgy) (.inr (.inl rfl))))
    (hcolumn _ (hwalled.border k _ hk (by omega) (.inr (.inr (.inr (by omega))))))
  simp only [Rect.Within, GameConfig.gridRect, Rect.shift, zero_add, add_zero]
  exact ⟨hx0, hx1, hlo, hhi⟩

/-! ## One tick -/

/-- The sweeps of `World::Update` for this player, if there are any, are defined. -/
def UpdateDefined (config : GameConfig) (dt : ℚ) (player : Player) : Prop :=
  player.velX = 0 ∧ player.velY + gravity * dt = 0 ∨
    SweepDefined config player.toBox player.velX (player.velY + gravity * dt)

instance (config : GameConfig) (dt : ℚ) (player : Player) :
    Decidable (UpdateDefined config dt player) := inferInstanceAs (Decidable (_ ∨ _))

theorem floor_lt_of_within {a u T : ℚ} {g : UInt16} (hT : 0 < T) (hu : 0 < u) (h0 : 0 ≤ a)
    (h1 : a + u ≤ (g.toNat : ℚ) * T) :
    (0 ≤ ⌊a / T⌋ ∧ ⌊a / T⌋ < 2 ^ 64) ∧ 0 ≤ ⌊(a + u) / T⌋ ∧ ⌊(a + u) / T⌋ < 2 ^ 64 := by
  have hg : ((g.toNat : ℕ) : ℚ) < 2 ^ 64 := by
    have := g.toNat_lt
    exact_mod_cast lt_of_lt_of_le this (by norm_num)
  have hright : (a + u) / T < ((2 ^ 64 : ℤ) : ℚ) := by
    rw [div_lt_iff₀ hT]
    push_cast
    nlinarith
  have hleft : a / T < ((2 ^ 64 : ℤ) : ℚ) := by
    refine lt_trans ?_ hright
    rw [div_lt_div_iff_of_pos_right hT]
    linarith
  exact ⟨⟨Int.floor_nonneg.mpr (div_nonneg h0 hT.le), Int.floor_lt.mpr hleft⟩,
    Int.floor_nonneg.mpr (div_nonneg (by linarith) hT.le), Int.floor_lt.mpr hright⟩

theorem clamp_of_le {bound grid b b' : ℕ} (h : min bound b = min grid b) (hle : b' ≤ b) :
    min bound b' = min grid b' := by
  omega

variable {player : Player}

theorem sweepDefined_x (hwalled : config.Walled) (hin : Contained config box)
    (hdef : SweepDefined config box velX velY) : SweepDefined config box velX 0 := by
  have hT : (0 : ℚ) < (config.tile.toNat : ℚ) := cast_toNat_pos hwalled.tile
  have hh : 0 < box.h := by
    rw [Box.h, hin.height]
    exact cast_toNat_pos hwalled.height
  obtain ⟨-, -, hy0, hy1⟩ := hin.within
  simp only [GameConfig.gridRect, zero_add, Box.rect] at hy0 hy1
  obtain ⟨htop, hbottom⟩ := floor_lt_of_within hT hh hy0 hy1
  refine ⟨hdef.left, ?_, hdef.right, ?_, ?_⟩
  · simpa [boundingBox] using htop
  · simpa [boundingBox] using hbottom
  · refine clamp_of_le hdef.rows (Int.toNat_le_toNat (Int.floor_le_floor ?_))
    rw [div_le_div_iff_of_pos_right hT, add_zero, max_self]
    exact le_max_left _ _

theorem sweepDefined_y (hwalled : config.Walled) {d : ℚ}
    (hin : Contained config (box.move d 0)) (hdef : SweepDefined config box velX velY) :
    SweepDefined config (box.move d 0) 0 velY := by
  have hT : (0 : ℚ) < (config.tile.toNat : ℚ) := cast_toNat_pos hwalled.tile
  have hw : 0 < box.w := by
    rw [Box.w, show box.width = config.player.width from hin.width]
    exact cast_toNat_pos hwalled.width
  obtain ⟨hx0, hx1, -, -⟩ := hin.within
  simp only [GameConfig.gridRect, zero_add, Box.rect] at hx0 hx1
  obtain ⟨hleft, hright⟩ := floor_lt_of_within hT hw hx0 hx1
  have htop : (boundingBox (box.move d 0) config.tile 0 velY).top =
      (boundingBox box config.tile velX velY).top := by
    simp [boundingBox, Box.move]
  have hbottom : (boundingBox (box.move d 0) config.tile 0 velY).bottom =
      (boundingBox box config.tile velX velY).bottom := by
    simp [boundingBox, Box.move, Box.h]
  refine ⟨?_, ?_, ?_, ?_, ?_⟩
  · simpa [boundingBox, Box.move] using hleft
  · rw [htop]
    exact hdef.top
  · simpa [boundingBox, Box.move, Box.w] using hright
  · rw [hbottom]
    exact hdef.bottom
  · rw [hbottom]
    exact hdef.rows

/-- At the end of a move clear of the solid tiles a box is free of them. -/
theorem contained_shift (hin : Contained config box) (he : 0 ≤ e)
    (hclear : ∀ x y, config.Solid x y → box.rect.Clear (config.tileRect x y) velX velY e)
    (hwithin : (box.rect.shift (e * velX) (e * velY)).Within config.gridRect) :
    Contained config (box.move (e * velX) (e * velY)) := by
  rw [← Box.rect_move] at hwithin
  refine ⟨hin.width, hin.height, hwithin, ?_⟩
  intro x y hsolid hover
  rw [Box.rect_move] at hover
  exact (hclear x y hsolid).not_overlaps_end he hover

theorem contained_sweep_x (platform : Platform) (hwalled : config.Walled)
    (hin : Contained config box) (hdef : SweepDefined config box velX 0) :
    Contained config (box.move (velX * (config.sweep platform box velX 0).entryTime) 0) := by
  have hw : 0 < box.w := by rw [Box.w, hin.width]; exact cast_toNat_pos hwalled.width
  have hh : 0 < box.h := by rw [Box.h, hin.height]; exact cast_toNat_pos hwalled.height
  have he := (sweptAxis_entryTime platform box config.tile config.gridX config.gridY.toUInt8
    config.worldMap velX 0).1
  have hclear : ∀ x y, config.Solid x y → box.rect.Clear (config.tileRect x y) velX 0
      (config.sweep platform box velX 0).entryTime := fun x y hsolid =>
    sweep_clear hwalled.tile hdef hin.free hsolid
  have hwithin := within_shift_x hwalled hw hh he hin.within hclear
  have hmoved := contained_shift hin he hclear (by rw [mul_zero]; exact hwithin)
  rw [mul_zero] at hmoved
  rw [mul_comm]
  exact hmoved

theorem contained_sweep_y (platform : Platform) (hwalled : config.Walled)
    (hin : Contained config box) (hdef : SweepDefined config box 0 velY) :
    Contained config (box.move 0 (velY * (config.sweep platform box 0 velY).entryTime)) := by
  have hw : 0 < box.w := by rw [Box.w, hin.width]; exact cast_toNat_pos hwalled.width
  have hh : 0 < box.h := by rw [Box.h, hin.height]; exact cast_toNat_pos hwalled.height
  have he := (sweptAxis_entryTime platform box config.tile config.gridX config.gridY.toUInt8
    config.worldMap 0 velY).1
  have hclear : ∀ x y, config.Solid x y → box.rect.Clear (config.tileRect x y) 0 velY
      (config.sweep platform box 0 velY).entryTime := fun x y hsolid =>
    sweep_clear hwalled.tile hdef hin.free hsolid
  have hwithin := within_shift_y hwalled hw hh he hin.within hclear
  have hmoved := contained_shift hin he hclear (by rw [mul_zero]; exact hwithin)
  rw [mul_zero] at hmoved
  rw [mul_comm]
  exact hmoved

/-- `MovePlayer` keeps a player inside the grid and out of solid tiles. -/
theorem contained_movePlayer (hwalled : config.Walled) (hin : Contained config player.toBox)
    (hdef : player.velX = 0 ∧ player.velY = 0 ∨
      SweepDefined config player.toBox player.velX player.velY) :
    Contained config (movePlayer platform config player).toBox := by
  simp only [movePlayer, moveY_toBox, moveX_toBox]
  rcases hdef with ⟨hx, hy⟩ | hdef
  · simpa [hx, hy, Box.move] using hin
  · have hmid := contained_sweep_x platform hwalled hin
      (sweepDefined_x hwalled hin hdef)
    exact contained_sweep_y platform hwalled hmid (sweepDefined_y hwalled hmid hdef)

theorem contained_update (hwalled : config.Walled) (hin : Contained config player.toBox)
    (hdef : UpdateDefined config dt player) :
    Contained config (update platform config dt player).1.toBox :=
  contained_movePlayer hwalled hin hdef

/-! ## Runs -/

/-- A turn in which every sweep is defined: the condition is on the players as the
    input phase leaves them. -/
def DefinedTurn (platform : Platform) (config : GameConfig) :
    World × Subsystem → Turn → World × Subsystem → Prop :=
  GuardedTurn platform config (UpdateDefined config)

/-- In every run whose sweeps are defined, every player is inside the grid and out
    of every solid tile after every tick. -/
theorem game_contained (hwalled : config.Walled) {turns : List Turn} {s : World × Subsystem}
    (h : Run (DefinedTurn platform config) ({}, {}) turns s) {id : UInt64} {p : Player}
    (hp : s.1.player? id = some p) :
    p.rect.Within config.gridRect ∧
      ∀ x y, config.Solid x y → ¬ p.rect.Overlaps (config.tileRect x y) := by
  have hall : s.1.All fun _ p => Contained config p.toBox := by
    refine h.invariant (I := fun s => s.1.All fun _ p => Contained config p.toBox) ?_ ?_
    · intro id p hp
      simp [World.player?] at hp
    · rintro ⟨w, net⟩ turn ⟨w', net'⟩ hw ⟨hstep, hdef⟩
      obtain ⟨w1, w2, hin, hloop, rfl, -⟩ := World.tick_eq_some.mp hstep
      have h1 : w1.All fun _ p => Contained config p.toBox := by
        refine World.all_inputPhase (fun _ p hp => hp) ?_ ?_ hw hin
        · intro id
          exact ⟨rfl, rfl, hwalled.spawn_within, hwalled.spawn_free⟩
        · intro _ o p hp
          rw [World.command_toBox]
          exact hp
      have h2 : w2.All fun _ p => Contained config p.toBox :=
        World.all_forEach (fun id p hp hc => contained_update hwalled hc (hdef w1 hin id p hp))
          h1 hloop
      exact h2
  exact ⟨(hall id p hp).within, (hall id p hp).free⟩

theorem room_walled : GameConfig.room.Walled where
  tile := by decide
  gridX := by decide
  gridY := by decide
  width := by decide
  height := by decide
  border := by
    have h : ∀ x < 4, ∀ y < 4, x = 0 ∨ y = 0 ∨ x + 1 = 4 ∨ y + 1 = 4 →
        GameConfig.room.Solid x y := by decide
    exact fun x y hx hy => h x hx y hy
  spawn_within := by decide +kernel
  spawn_free := by decide +kernel

/-- A player falls in the room for a second. -/
theorem game_contained_room : ∃ s p, Run (DefinedTurn .x86 .room) ({}, {})
      [⟨1, [.ofOpcode .createPlayer 0]⟩] s ∧ s.1.player? 0 = some p ∧
    p.rect.Within GameConfig.room.gridRect ∧
      ∀ x y, GameConfig.room.Solid x y → ¬ p.rect.Overlaps (GameConfig.room.tileRect x y) := by
  have heval : ((guardedStep .x86 .room (UpdateDefined .room) ({}, {})
      ⟨1, [.ofOpcode .createPlayer 0]⟩).bind fun s => (s.1.player? 0).map fun p => p.onGround) =
        some false := by decide +kernel
  obtain ⟨s, hs, hbind⟩ := Option.bind_eq_some_iff.mp heval
  obtain ⟨p, hp, -⟩ := Option.map_eq_some_iff.mp hbind
  have hrun : Run (DefinedTurn .x86 .room) ({}, {}) [⟨1, [.ofOpcode .createPlayer 0]⟩] s :=
    Run.single (guardedTurn_of_step hs)
  exact ⟨s, p, hrun, hp, game_contained room_walled hrun hp⟩

/-! ## A map of 257 rows -/

/-- A map of 3 by 257 solid tiles of size 1 with one hole, in which the player
    spawns. -/
def tallMap : GameConfig where
  tile := 1
  gridX := 3
  gridY := 257
  map := List.replicate 4 1 ++ 0 :: List.replicate 766 1
  player := { width := 1, height := 1, playerStartX := 1, playerStartY := 1, playerOffset := 0 }
  length_map := by
    rw [List.length_append, List.length_cons, List.length_replicate, List.length_replicate]
    rfl

theorem tallMap_cell {i : ℕ} (hi : i < 771) : tallMap.cell i ≠ 0 ↔ i ≠ 4 := by
  unfold GameConfig.cell tallMap
  rw [List.getD_eq_getElem?_getD, List.getElem?_append, List.length_replicate]
  split_ifs with h
  · rw [List.getElem?_replicate_of_lt h]
    simp
    omega
  · obtain ⟨k, rfl⟩ := Nat.exists_eq_add_of_le (not_lt.mp h)
    rw [Nat.add_sub_cancel_left]
    cases k with
    | zero =>
      rw [List.getElem?_cons_zero]
      simp
    | succ k =>
      rw [List.getElem?_cons_succ, List.getElem?_replicate_of_lt (by omega)]
      simp

theorem tallMap_solid_iff {x y : ℕ} : tallMap.Solid x y ↔ x < 3 ∧ y < 257 ∧ y * 3 + x ≠ 4 := by
  have hsolid : tallMap.Solid x y ↔ x < 3 ∧ y < 257 ∧ tallMap.cell (y * 3 + x) ≠ 0 := Iff.rfl
  rw [hsolid]
  constructor
  · rintro ⟨hx, hy, hc⟩
    exact ⟨hx, hy, (tallMap_cell (by omega)).mp hc⟩
  · rintro ⟨hx, hy, hc⟩
    exact ⟨hx, hy, (tallMap_cell (by omega)).mpr hc⟩

theorem tallMap_walled : tallMap.Walled where
  tile := by decide
  gridX := by decide
  gridY := by decide
  width := by decide
  height := by decide
  border := by
    intro x y hx hy hborder
    change x < 3 at hx
    change y < 257 at hy
    change x = 0 ∨ y = 0 ∨ x + 1 = 3 ∨ y + 1 = 257 at hborder
    exact tallMap_solid_iff.mpr ⟨hx, hy, by omega⟩
  spawn_within := by decide +kernel
  spawn_free := by
    intro x y hsolid hover
    obtain ⟨-, -, hc⟩ := tallMap_solid_iff.mp hsolid
    have hspawn : tallMap.spawnBox = ⟨1, 1, 1, 1⟩ := by decide +kernel
    obtain ⟨⟨h1, h2⟩, h3, h4⟩ := hover
    simp only [hspawn, Box.rect, Box.w, Box.h, GameConfig.tileRect,
      show tallMap.tile.toNat = 1 from rfl, Nat.cast_one, mul_one,
      show (1 : UInt8).toNat = 1 from rfl] at h1 h2 h3 h4
    have hx0 : (0 : ℚ) < x := by linarith only [h1]
    have hy0 : (0 : ℚ) < y := by linarith only [h3]
    have hx : (x : ℚ) < (2 : ℕ) := by push_cast; linarith only [h2]
    have hy : (y : ℚ) < (2 : ℕ) := by push_cast; linarith only [h4]
    rw [Nat.cast_pos] at hx0 hy0
    rw [Nat.cast_lt] at hx hy
    omega

/-- With `grid_y` = 257 the sweeps are clamped to the first row: a new player falls
    through the solid tiles below it and out of the grid. -/
theorem tall_map_escape : tallMap.Walled ∧
    ¬ ∀ turns s, (∀ turn ∈ turns, 0 ≤ turn.dt) → GameRun .x86 tallMap turns s →
      ∀ id p, s.1.player? id = some p → p.rect.Within tallMap.gridRect ∧
        ∀ x y, tallMap.Solid x y → ¬ p.rect.Overlaps (tallMap.tileRect x y) := by
  refine ⟨tallMap_walled, ?_⟩
  intro hclaim
  have heval : (gameStep .x86 tallMap ({}, {}) ⟨100, [.ofOpcode .createPlayer 0]⟩).bind
      (fun s => (s.1.player? 0).map fun p => decide (p.y = 981)) = some true := by
    decide +kernel
  obtain ⟨s, hs, hbind⟩ := Option.bind_eq_some_iff.mp heval
  obtain ⟨p, hp, hy⟩ := Option.map_eq_some_iff.mp hbind
  have hin := (hclaim _ s (by simp) (Run.single hs) 0 p hp).1.2.2.2
  have hh : (0 : ℚ) ≤ p.h := by simp [Box.h]
  simp only [Box.rect, GameConfig.gridRect, show tallMap.gridY.toNat = 257 from rfl,
    show tallMap.tile.toNat = 1 from rfl, of_decide_eq_true hy] at hin
  norm_num at hin
  linarith

end EndlessPeak
