import EndlessPeak.Game.Collision

/-!
# Which tiles a sweep tests

`SweptAxis` has to test every solid tile near the path and to read nothing past the end
of the map. `MovePlayer` passes the number of rows as eight bits: of a grid with 256
rows or more only the first `grid_y % 256` are tested, and none is left out, but nothing
clamps the rows either, if that remainder is zero.

* `covers_of_fullyCovered`: a sweep on a map that fits reads only the map, and tests
  every solid tile that meets the bounding box.
* `covers_iff`: the maps that fit are the only ones on which all sweeps do so.
* `fullyCovered_of_small`: up to 255 rows the map fits.
* `tall_map_uncovered`: a map with more rows.
-/

namespace EndlessPeak

open Lib

/-! ## What is asked of a sweep -/

/-- The indices that `SweptAxis` reads, called as in `World::MovePlayer`. -/
def GameConfig.sweepIndices (config : GameConfig) (platform : Platform) (box : Box)
    (velX velY : ℚ) : List ℕ :=
  findCollisionIndices platform box config.tile config.gridX config.gridY.toUInt8 velX velY

/-- The cell `(x, y)`, with its left and upper edge, meets the bounding box of the start
    and the end position. -/
structure GameConfig.MeetsBoundingBox (config : GameConfig) (box : Box) (velX velY : ℚ)
    (x y : ℕ) : Prop where
  left : min box.x (box.x + velX) < ((x : ℚ) + 1) * (config.tile.toNat : ℚ)
  right : (x : ℚ) * (config.tile.toNat : ℚ) ≤ max (box.x + box.w) (box.x + box.w + velX)
  top : min box.y (box.y + velY) < ((y : ℚ) + 1) * (config.tile.toNat : ℚ)
  bottom : (y : ℚ) * (config.tile.toNat : ℚ) ≤ max (box.y + box.h) (box.y + box.h + velY)

/-- A velocity along one axis, from and to nonnegative coordinates. -/
structure AxisMove (box : Box) (velX velY : ℚ) : Prop where
  axis : velX ≠ 0 ∧ velY = 0 ∨ velX = 0 ∧ velY ≠ 0
  startX : 0 ≤ box.x
  startY : 0 ≤ box.y
  endX : 0 ≤ box.x + velX
  endY : 0 ≤ box.y + velY

/-- The sweep reads only the map, and tests every solid tile of the configured grid that
    meets the bounding box. -/
structure Covers (platform : Platform) (config : GameConfig) (box : Box) (velX velY : ℚ) :
    Prop where
  inBounds : ∀ i ∈ config.sweepIndices platform box velX velY, i < config.worldMap.length
  complete : ∀ x y, config.Solid x y → config.MeetsBoundingBox box velX velY x y →
    y * config.gridX.toNat + x ∈ config.sweepIndices platform box velX velY

/-- `grid_y` as eight bits is not zero and leaves no solid tile out, and a coordinate that
    `std::size_t` does not hold is converted to one beyond every solid tile. -/
structure FullyCovered (platform : Platform) (config : GameConfig) : Prop where
  rows : config.gridY.toNat % 256 ≠ 0
  solid : ∀ x y, config.Solid x y → y < config.gridY.toNat % 256
  cast : ∀ x y, config.Solid x y → ∀ n : ℤ, 2 ^ 64 ≤ n →
    x ≤ (platform.wildCast n).toNat ∧ y ≤ (platform.wildCast n).toNat

/-! ## Maps that fit -/

variable {platform : Platform} {config : GameConfig} {box : Box} {velX velY : ℚ} {x y : ℕ}

theorem AxisMove.ne_zero (h : AxisMove box velX velY) : ¬ (velX = 0 ∧ velY = 0) := by
  rcases h.axis with ⟨hx, -⟩ | ⟨-, hy⟩
  · exact fun h0 => hx h0.1
  · exact fun h0 => hy h0.2

/-- The cells that a sweep reads, with the rows clamped to `grid_y % 256`. -/
theorem mem_sweepIndices (hvel : ¬ (velX = 0 ∧ velY = 0)) (hgridX : config.gridX ≠ 0)
    (hrows : config.gridY.toNat % 256 ≠ 0) {i : ℕ} :
    i ∈ config.sweepIndices platform box velX velY ↔
      ∃ y x, toSizeT platform (boundingBox box config.tile velX velY).top ≤ y ∧
        y < config.gridY.toNat % 256 ∧
        y ≤ toSizeT platform (boundingBox box config.tile velX velY).bottom ∧
        toSizeT platform (boundingBox box config.tile velX velY).left ≤ x ∧
        x < config.gridX.toNat ∧
        x ≤ toSizeT platform (boundingBox box config.tile velX velY).right ∧
        i = y * config.gridX.toNat + x := by
  have hgx : config.gridX.toNat ≠ 0 := by simpa [UInt16.ext_iff] using hgridX
  have hlt := config.gridX.toNat_lt
  have hmod : config.gridY.toNat % 256 ≤ config.gridY.toNat := Nat.mod_le _ _
  rw [GameConfig.sweepIndices, mem_findCollisionIndices hvel, UInt16.toNat_toUInt8,
    gridBound_eq (by omega) (by omega), gridBound_eq (by omega) (by omega)]
  constructor
  · rintro ⟨y, x, htop, hy, hleft, hx, rfl⟩
    rw [le_min_iff] at hx hy
    refine ⟨y, x, htop, by omega, hy.2, hleft, by omega, hx.2, ?_⟩
    exact Nat.mod_eq_of_lt (index_lt (by omega) (by omega))
  · rintro ⟨y, x, htop, hy, hbottom, hleft, hx, hright, rfl⟩
    refine ⟨y, x, htop, le_min (by omega) hbottom, hleft, le_min (by omega) hright, ?_⟩
    exact (Nat.mod_eq_of_lt (index_lt hx (by omega))).symm

/-- With the rows clamped, nothing past the end of the map is read. -/
theorem lt_of_mem_sweepIndices (hgridX : config.gridX ≠ 0) (hrows : config.gridY.toNat % 256 ≠ 0)
    {i : ℕ} (hi : i ∈ config.sweepIndices platform box velX velY) :
    i < config.worldMap.length := by
  by_cases hvel : velX = 0 ∧ velY = 0
  · simp [GameConfig.sweepIndices, findCollisionIndices, hvel] at hi
  · obtain ⟨y, x, -, hy, -, -, hx, -, rfl⟩ := (mem_sweepIndices hvel hgridX hrows).mp hi
    rw [config.length_worldMap]
    exact config.index_lt_area hx (lt_of_lt_of_le hy (Nat.mod_le _ _))

theorem index_inj {n x' y' : ℕ} (hx : x < n) (hx' : x' < n) (h : y * n + x = y' * n + x') :
    x = x' ∧ y = y' := by
  have hcol : (y * n + x) % n = (y' * n + x') % n := by rw [h]
  rw [Nat.mul_add_mod', Nat.mul_add_mod', Nat.mod_eq_of_lt hx, Nat.mod_eq_of_lt hx'] at hcol
  subst hcol
  exact ⟨rfl, Nat.eq_of_mul_eq_mul_right (by omega) (Nat.add_right_cancel h)⟩

theorem toSizeT_le {n : ℤ} {k : ℕ} (h0 : 0 ≤ n) (hle : n ≤ (k : ℤ)) (hk : k < 2 ^ 64) :
    toSizeT platform n ≤ k := by
  rw [toSizeT_of_representable ⟨h0, by omega⟩]
  omega

theorem le_toSizeT {n : ℤ} {k : ℕ} (hle : (k : ℤ) ≤ n)
    (hcast : 2 ^ 64 ≤ n → k ≤ (platform.wildCast n).toNat) : k ≤ toSizeT platform n := by
  by_cases hn : n < 2 ^ 64
  · rw [toSizeT_of_representable ⟨by omega, hn⟩]
    omega
  · rw [toSizeT, if_neg (by omega)]
    exact hcast (by omega)

/-- The cell `(x, y)` is in the range of the floors of a bounding box. -/
structure TileBox.Has (bb : TileBox) (x y : ℕ) : Prop where
  left : bb.left ≤ (x : ℤ)
  right : (x : ℤ) ≤ bb.right
  top : bb.top ≤ (y : ℤ)
  bottom : (y : ℤ) ≤ bb.bottom

theorem GameConfig.MeetsBoundingBox.floor (htile : config.tile ≠ 0)
    (h : config.MeetsBoundingBox box velX velY x y) :
    (boundingBox box config.tile velX velY).Has x y := by
  have hT := cast_toNat_pos htile
  constructor
  · rw [← Int.lt_add_one_iff, boundingBox, Int.floor_lt, div_lt_iff₀ hT]
    exact_mod_cast h.left
  · rw [boundingBox, Int.le_floor, le_div_iff₀ hT]
    exact_mod_cast h.right
  · rw [← Int.lt_add_one_iff, boundingBox, Int.floor_lt, div_lt_iff₀ hT]
    exact_mod_cast h.top
  · rw [boundingBox, Int.le_floor, le_div_iff₀ hT]
    exact_mod_cast h.bottom

theorem AxisMove.floor_nonneg (h : AxisMove box velX velY) (tile : UInt8) :
    0 ≤ (boundingBox box tile velX velY).left ∧ 0 ≤ (boundingBox box tile velX velY).top := by
  have hT : (0 : ℚ) ≤ (tile.toNat : ℚ) := Nat.cast_nonneg _
  constructor
  · exact Int.floor_nonneg.mpr (div_nonneg (le_min h.startX h.endX) hT)
  · exact Int.floor_nonneg.mpr (div_nonneg (le_min h.startY h.endY) hT)

/-- What a sweep has tested, if it tests a solid tile. -/
theorem cell_of_mem_sweepIndices (hvel : ¬ (velX = 0 ∧ velY = 0)) (hgridX : config.gridX ≠ 0)
    (hrows : config.gridY.toNat % 256 ≠ 0) (hx : x < config.gridX.toNat)
    (h : y * config.gridX.toNat + x ∈ config.sweepIndices platform box velX velY) :
    y < config.gridY.toNat % 256 ∧
      y ≤ toSizeT platform (boundingBox box config.tile velX velY).bottom ∧
      x ≤ toSizeT platform (boundingBox box config.tile velX velY).right := by
  obtain ⟨y', x', -, hy', hbottom, -, hx', hright, heq⟩ :=
    (mem_sweepIndices hvel hgridX hrows).mp h
  obtain ⟨rfl, rfl⟩ := index_inj hx hx' heq
  exact ⟨hy', hbottom, hright⟩

/-- A solid tile that meets the bounding box is tested if no clamp leaves it out. -/
theorem mem_sweepIndices_of_meets (htile : config.tile ≠ 0) (hgridX : config.gridX ≠ 0)
    (hrows : config.gridY.toNat % 256 ≠ 0) (hmove : AxisMove box velX velY)
    (hsolid : config.Solid x y) (hmeets : config.MeetsBoundingBox box velX velY x y) :
    y * config.gridX.toNat + x ∈ config.sweepIndices platform box velX velY ↔
      y < config.gridY.toNat % 256 ∧
        y ≤ toSizeT platform (boundingBox box config.tile velX velY).bottom ∧
        x ≤ toSizeT platform (boundingBox box config.tile velX velY).right := by
  constructor
  · exact cell_of_mem_sweepIndices hmove.ne_zero hgridX hrows hsolid.1
  · rintro ⟨hy, hbottom, hright⟩
    obtain ⟨hleft0, htop0⟩ := hmove.floor_nonneg config.tile
    have htiles := hmeets.floor htile
    have hgx := config.gridX.toNat_lt
    have hmod : config.gridY.toNat % 256 < 256 := Nat.mod_lt _ (by omega)
    rw [mem_sweepIndices hmove.ne_zero hgridX hrows]
    exact ⟨y, x, toSizeT_le htop0 htiles.top (by omega), hy, hbottom,
      toSizeT_le hleft0 htiles.left (by have := hsolid.1; omega), hsolid.1, hright, rfl⟩

/-- On a map that fits, a sweep reads only the map and tests all it has to test. -/
theorem covers_of_fullyCovered (htile : config.tile ≠ 0) (hgridX : config.gridX ≠ 0)
    (hfit : FullyCovered platform config) (hmove : AxisMove box velX velY) :
    Covers platform config box velX velY := by
  constructor
  · exact fun i hi => lt_of_mem_sweepIndices hgridX hfit.rows hi
  · intro x y hsolid hmeets
    have htiles := hmeets.floor htile
    rw [mem_sweepIndices_of_meets htile hgridX hfit.rows hmove hsolid hmeets]
    exact ⟨hfit.solid x y hsolid,
      le_toSizeT htiles.bottom fun hn => (hfit.cast x y hsolid _ hn).2,
      le_toSizeT htiles.right fun hn => (hfit.cast x y hsolid _ hn).1⟩

/-! ## Only those -/

/-- A box of size `1` at the corner of the cell `(x, y)`. -/
def GameConfig.cornerBox (config : GameConfig) (x y : ℕ) : Box where
  x := (x : ℚ) * (config.tile.toNat : ℚ)
  y := (y : ℚ) * (config.tile.toNat : ℚ)
  width := 1
  height := 1

@[simp] theorem cornerBox_w (config : GameConfig) (x y : ℕ) : (config.cornerBox x y).w = 1 := by
  simp [GameConfig.cornerBox, Box.w]

@[simp] theorem cornerBox_h (config : GameConfig) (x y : ℕ) : (config.cornerBox x y).h = 1 := by
  simp [GameConfig.cornerBox, Box.h]

theorem meets_cornerBox (htile : config.tile ≠ 0) (x y : ℕ) (velX velY : ℚ) :
    config.MeetsBoundingBox (config.cornerBox x y) velX velY x y := by
  have hT := cast_toNat_pos htile
  constructor
  · exact (min_le_left _ _).trans_lt (by simp only [GameConfig.cornerBox]; linarith)
  · refine le_trans ?_ (le_max_left _ _)
    rw [cornerBox_w, GameConfig.cornerBox]
    linarith
  · exact (min_le_left _ _).trans_lt (by simp only [GameConfig.cornerBox]; linarith)
  · refine le_trans ?_ (le_max_left _ _)
    rw [cornerBox_h, GameConfig.cornerBox]
    linarith

theorem axisMove_right (config : GameConfig) (x y : ℕ) {v : ℚ} (hv : 0 < v) :
    AxisMove (config.cornerBox x y) v 0 where
  axis := .inl ⟨hv.ne', rfl⟩
  startX := by simp only [GameConfig.cornerBox]; positivity
  startY := by simp only [GameConfig.cornerBox]; positivity
  endX := by simp only [GameConfig.cornerBox]; positivity
  endY := by simp only [GameConfig.cornerBox]; positivity

theorem axisMove_down (config : GameConfig) (x y : ℕ) {v : ℚ} (hv : 0 < v) :
    AxisMove (config.cornerBox x y) 0 v where
  axis := .inr ⟨rfl, hv.ne'⟩
  startX := by simp only [GameConfig.cornerBox]; positivity
  startY := by simp only [GameConfig.cornerBox]; positivity
  endX := by simp only [GameConfig.cornerBox]; positivity
  endY := by simp only [GameConfig.cornerBox]; positivity

/-- The velocity from the corner of cell `x` to the coordinate `n` tiles, for a box of
    size `1`. -/
def farVel (config : GameConfig) (x : ℕ) (n : ℤ) : ℚ :=
  (n : ℚ) * (config.tile.toNat : ℚ) - 1 - (x : ℚ) * (config.tile.toNat : ℚ)

theorem farVel_pos (htile : config.tile ≠ 0) {n : ℤ} (hx : x < 2 ^ 16) (hn : 2 ^ 64 ≤ n) :
    0 < farVel config x n := by
  have hT : (1 : ℚ) ≤ (config.tile.toNat : ℚ) := by exact_mod_cast cast_toNat_pos htile
  have hgap : (2 : ℚ) ≤ (n : ℚ) - (x : ℚ) := by
    have hint : (2 : ℤ) ≤ n - (x : ℤ) := by omega
    exact_mod_cast hint
  have hmul : (2 : ℚ) * 1 ≤ ((n : ℚ) - (x : ℚ)) * (config.tile.toNat : ℚ) :=
    mul_le_mul hgap hT (by norm_num) (by linarith)
  unfold farVel
  linarith

theorem floor_farVel (htile : config.tile ≠ 0) {n : ℤ} (hx : x < 2 ^ 16) (hn : 2 ^ 64 ≤ n) :
    ⌊max ((x : ℚ) * (config.tile.toNat : ℚ) + 1)
      ((x : ℚ) * (config.tile.toNat : ℚ) + 1 + farVel config x n) /
        (config.tile.toNat : ℚ)⌋ = n := by
  have hpos := farVel_pos htile hx hn
  rw [max_eq_right (by linarith)]
  have hend : (x : ℚ) * (config.tile.toNat : ℚ) + 1 + farVel config x n =
      (n : ℚ) * (config.tile.toNat : ℚ) := by
    unfold farVel
    ring
  rw [hend, mul_div_cancel_right₀ _ (cast_toNat_pos htile).ne', Int.floor_intCast]

theorem boundingBox_right (htile : config.tile ≠ 0) {n : ℤ} (hx : x < 2 ^ 16) (hn : 2 ^ 64 ≤ n) :
    (boundingBox (config.cornerBox x y) config.tile (farVel config x n) 0).right = n := by
  simp only [boundingBox, cornerBox_w]
  exact floor_farVel htile hx hn

theorem boundingBox_bottom (htile : config.tile ≠ 0) {n : ℤ} (hy : y < 2 ^ 16) (hn : 2 ^ 64 ≤ n) :
    (boundingBox (config.cornerBox x y) config.tile 0 (farVel config y n)).bottom = n := by
  simp only [boundingBox, cornerBox_h]
  exact floor_farVel htile hy hn

/-- If eight bits leave nothing of `grid_y`, a sweep along the lower edge of the grid
    reads past the end of the map. -/
theorem rows_of_covers (htile : config.tile ≠ 0) (hgridX : config.gridX ≠ 0)
    (h : ∀ box velX velY, AxisMove box velX velY → Covers platform config box velX velY) :
    config.gridY.toNat % 256 ≠ 0 := by
  intro hzero
  have hT := cast_toNat_pos htile
  have hgx : config.gridX.toNat ≠ 0 := by simpa [UInt16.ext_iff] using hgridX
  have hgxlt := config.gridX.toNat_lt
  have hgylt := config.gridY.toNat_lt
  have hlt : config.gridX.toNat * config.gridY.toNat < 2 ^ 64 := by
    have hmul : config.gridX.toNat * config.gridY.toNat ≤ 2 ^ 16 * 2 ^ 16 :=
      Nat.mul_le_mul (by omega) (by omega)
    omega
  have hmove := axisMove_right config 0 config.gridY.toNat (v := 1) (by norm_num)
  have hmeets := meets_cornerBox htile 0 config.gridY.toNat 1 0
  have hleft : toSizeT platform
      (boundingBox (config.cornerBox 0 config.gridY.toNat) config.tile 1 0).left ≤ 0 := by
    apply toSizeT_le _ _ (by omega)
    · exact Int.floor_nonneg.mpr (div_nonneg (le_min hmove.startX hmove.endX) hT.le)
    · simp [boundingBox, GameConfig.cornerBox]
  have htop : toSizeT platform
      (boundingBox (config.cornerBox 0 config.gridY.toNat) config.tile 1 0).top ≤
        config.gridY.toNat := by
    apply toSizeT_le _ _ (by omega)
    · exact Int.floor_nonneg.mpr (div_nonneg (le_min hmove.startY hmove.endY) hT.le)
    · simp [boundingBox, GameConfig.cornerBox, hT.ne']
  have hbottom : config.gridY.toNat ≤ toSizeT platform
      (boundingBox (config.cornerBox 0 config.gridY.toNat) config.tile 1 0).bottom := by
    have hbox : (boundingBox (config.cornerBox 0 config.gridY.toNat) config.tile 1 0).bottom =
        ⌊((config.gridY.toNat : ℚ) * (config.tile.toNat : ℚ) + 1) / (config.tile.toNat : ℚ)⌋ := by
      simp [boundingBox, GameConfig.cornerBox, Box.h]
    have hge : (config.gridY.toNat : ℤ) ≤
        ⌊((config.gridY.toNat : ℚ) * (config.tile.toNat : ℚ) + 1) / (config.tile.toNat : ℚ)⌋ := by
      rw [Int.le_floor, le_div_iff₀ hT]
      push_cast
      linarith
    have hle : ⌊((config.gridY.toNat : ℚ) * (config.tile.toNat : ℚ) + 1) /
        (config.tile.toNat : ℚ)⌋ < (config.gridY.toNat : ℤ) + 2 := by
      have hone : (1 : ℚ) ≤ (config.tile.toNat : ℚ) := by exact_mod_cast hT
      rw [Int.floor_lt, div_lt_iff₀ hT]
      push_cast
      linarith
    rw [hbox]
    exact le_toSizeT hge fun hn => absurd hn (by omega)
  have hi : config.gridY.toNat * config.gridX.toNat ∈
      config.sweepIndices platform (config.cornerBox 0 config.gridY.toNat) 1 0 := by
    rw [GameConfig.sweepIndices, mem_findCollisionIndices hmove.ne_zero, UInt16.toNat_toUInt8,
      hzero]
    refine ⟨config.gridY.toNat, 0, htop, le_min ?_ hbottom, hleft, Nat.zero_le _, ?_⟩
    · unfold gridBound
      omega
    · rw [Nat.add_zero, Nat.mul_comm, Nat.mod_eq_of_lt hlt]
  have hin := (h _ _ _ hmove).inBounds _ hi
  rw [config.length_worldMap, Nat.mul_comm] at hin
  exact lt_irrefl _ hin

/-- For every map with a tile size and a grid: all sweeps from and to nonnegative
    coordinates read only the map and test every solid tile that meets the bounding box
    exactly if the map fits. -/
theorem covers_iff (htile : config.tile ≠ 0) (hgridX : config.gridX ≠ 0) :
    (∀ box velX velY, AxisMove box velX velY → Covers platform config box velX velY) ↔
      FullyCovered platform config := by
  constructor
  · intro h
    have hrows := rows_of_covers htile hgridX h
    have hcell : ∀ x y, config.Solid x y → ∀ velX velY,
        AxisMove (config.cornerBox x y) velX velY → y < config.gridY.toNat % 256 ∧
          y ≤ toSizeT platform (boundingBox (config.cornerBox x y) config.tile velX velY).bottom ∧
          x ≤ toSizeT platform
            (boundingBox (config.cornerBox x y) config.tile velX velY).right := by
      intro x y hsolid velX velY hmove
      exact cell_of_mem_sweepIndices hmove.ne_zero hgridX hrows hsolid.1
        ((h _ _ _ hmove).complete x y hsolid (meets_cornerBox htile x y velX velY))
    refine ⟨hrows, ?_, ?_⟩
    · intro x y hsolid
      exact (hcell x y hsolid 1 0 (axisMove_right config x y (by norm_num))).1
    · intro x y hsolid n hn
      have hgx := config.gridX.toNat_lt
      have hgy := config.gridY.toNat_lt
      have hx : x < 2 ^ 16 := lt_trans hsolid.1 hgx
      have hy : y < 2 ^ 16 := lt_trans hsolid.2.1 hgy
      have hwild : ∀ k, k ≤ toSizeT platform n → k ≤ (platform.wildCast n).toNat := by
        intro k hk
        rwa [toSizeT, if_neg (by omega)] at hk
      have hright := (hcell x y hsolid _ 0 (axisMove_right config x y
        (farVel_pos htile hx hn))).2.2
      have hbottom := (hcell x y hsolid 0 _ (axisMove_down config x y
        (farVel_pos htile hy hn))).2.1
      constructor
      · apply hwild
        rwa [boundingBox_right htile hx hn] at hright
      · apply hwild
        rwa [boundingBox_bottom htile hy hn] at hbottom
  · intro hfit box velX velY hmove
    exact covers_of_fullyCovered htile hgridX hfit hmove

theorem covers_iff_room :
    (∀ box velX velY, AxisMove box velX velY → Covers .x86 .room box velX velY) ↔
      FullyCovered .x86 .room :=
  covers_iff (by decide) (by decide)

/-- Up to 255 rows the map fits, if coordinates out of range are converted to large ones. -/
theorem fullyCovered_of_small (hgridY : config.gridY ≠ 0) (hsmall : config.gridY.toNat ≤ 255)
    (hcast : ∀ n : ℤ, 2 ^ 64 ≤ n → 2 ^ 16 ≤ (platform.wildCast n).toNat) :
    FullyCovered platform config := by
  have hgy : config.gridY.toNat ≠ 0 := by simpa [UInt16.ext_iff] using hgridY
  have hmod : config.gridY.toNat % 256 = config.gridY.toNat := Nat.mod_eq_of_lt (by omega)
  refine ⟨by omega, ?_, ?_⟩
  · intro x y hsolid
    rw [hmod]
    exact hsolid.2.1
  · intro x y hsolid n hn
    have hx := lt_trans hsolid.1 config.gridX.toNat_lt
    have hy := lt_trans hsolid.2.1 config.gridY.toNat_lt
    have hwild := hcast n hn
    constructor <;> omega

/-- A shaft of 300 solid rows. -/
def GameConfig.shaft : GameConfig where
  tile := 10
  gridX := 1
  gridY := 300
  map := List.replicate 300 1
  player := { width := 8, height := 8, playerStartX := 0, playerStartY := 0, playerOffset := 1 }
  length_map := List.length_replicate

/-- A player that falls in row `100` of the shaft: no tile is tested. -/
theorem tall_map_uncovered :
    ¬ ∀ config : GameConfig, config.tile ≠ 0 → config.gridX ≠ 0 → config.gridY ≠ 0 →
      ∀ box velX velY, AxisMove box velX velY → Covers .x86 config box velX velY := by
  intro hclaim
  have hmove : AxisMove ⟨1, 1001, 8, 8⟩ 0 1 := by
    constructor <;> norm_num
  have hcovers := hclaim .shaft (by decide) (by decide) (by decide) _ _ _ hmove
  have hsolid : GameConfig.shaft.Solid 0 100 := by decide +kernel
  have hmeets : GameConfig.shaft.MeetsBoundingBox ⟨1, 1001, 8, 8⟩ 0 1 0 100 := by
    constructor <;> decide +kernel
  have hempty : GameConfig.shaft.sweepIndices .x86 ⟨1, 1001, 8, 8⟩ 0 1 = [] := by decide +kernel
  have hmem := hcovers.complete 0 100 hsolid hmeets
  rw [hempty] at hmem
  exact List.not_mem_nil hmem

end EndlessPeak
