import EndlessPeak.Game.Coverage

/-!
# The broad phase against all solid tiles

`SweptAxis` tests the tiles of the bounding box only. A tile outside of it is not hit
before time `1`, so the result is that of testing every solid tile of the map, except
where a coordinate of the bounding box is too large for `std::size_t`: it is converted
before it is clamped to the grid, and what the conversion gives may lie in front of the
tile that is hit first.

* `meetsBoundingBox_of_contact`: a tile that is hit before time `1` meets the bounding box.
* `sweep_eq_bruteForce_iff`: the sweep and the test of all solid tiles agree exactly if
  the clamped bounding box keeps the tile that is hit first.
* `keepsFirstHit_of_lt`: it does below `2^64` tiles.
-/

namespace EndlessPeak

open Lib

/-! ## All solid tiles -/

namespace GameConfig

/-- `SweptAABB` against the cell `(x, y)` of the map. -/
def contact (config : GameConfig) (box : Box) (velX velY : ℚ) (x y : ℕ) : SweptData :=
  sweptAABB box (config.tileAt x y).toBox velX velY

/-- The loop of `SweptAxis` over all tiles of the map, in the order of their indices. -/
def bruteForce (config : GameConfig) (box : Box) (velX velY : ℚ) : SweptData :=
  firstMin SweptData.entryTime .miss (contacts box velX velY config.worldMap)

/-- The solid cell `(x, y)` is hit before time `1`, and none is hit earlier. -/
structure FirstHit (config : GameConfig) (box : Box) (velX velY : ℚ) (x y : ℕ) : Prop where
  solid : config.Solid x y
  hit : (config.contact box velX velY x y).entryTime < 1
  first : ∀ x' y', config.Solid x' y' →
    (config.contact box velX velY x y).entryTime ≤ (config.contact box velX velY x' y').entryTime

/-- What the right and the lower edge of the bounding box are converted to does not lie in
    front of the cell that is hit first. -/
def KeepsFirstHit (platform : Platform) (config : GameConfig) (box : Box) (velX velY : ℚ) :
    Prop :=
  ∀ x y, config.FirstHit box velX velY x y →
    x ≤ toSizeT platform (boundingBox box config.tile velX velY).right ∧
      y ≤ toSizeT platform (boundingBox box config.tile velX velY).bottom

end GameConfig

variable {platform : Platform} {config : GameConfig} {box : Box} {velX velY : ℚ} {x y x' y' : ℕ}

theorem mem_worldMap {tile : Tile} : tile ∈ config.worldMap ↔
    ∃ y < config.gridY.toNat, ∃ x < config.gridX.toNat, config.tileAt x y = tile := by
  simp [GameConfig.worldMap]

theorem bruteForce_cases (config : GameConfig) (box : Box) (velX velY : ℚ) :
    config.bruteForce box velX velY = .miss ∨ ∃ x y, config.Solid x y ∧
      config.bruteForce box velX velY = config.contact box velX velY x y ∧
      (config.contact box velX velY x y).entryTime < 1 := by
  refine (firstMin_eq _ _ _).imp id ?_
  rintro ⟨hmem, hlt⟩
  obtain ⟨tile, htile, hsolid, heq⟩ := mem_contacts.mp hmem
  obtain ⟨y, hy, x, hx, rfl⟩ := mem_worldMap.mp htile
  exact ⟨x, y, (config.tileAt_type hx hy).mp hsolid, heq, (congrArg _ heq.symm).trans_lt hlt⟩

theorem bruteForce_le (hsolid : config.Solid x y) :
    (config.bruteForce box velX velY).entryTime ≤ (config.contact box velX velY x y).entryTime := by
  apply key_firstMin_le_of_mem
  rw [mem_contacts]
  exact ⟨_, mem_worldMap.mpr ⟨y, hsolid.2.1, x, hsolid.1, rfl⟩,
    (config.tileAt_type hsolid.1 hsolid.2.1).mpr hsolid, rfl⟩

theorem bruteForce_le_one : (config.bruteForce box velX velY).entryTime ≤ 1 := key_firstMin_le

/-- On a grid with at most 255 rows, a sweep gives a miss, or the contact with a solid cell
    that it tests. -/
theorem sweep_cases (platform : Platform) (hgridX : config.gridX ≠ 0) (hgridY : config.gridY ≠ 0)
    (hsmall : config.gridY.toNat ≤ 255) (box : Box) (velX velY : ℚ) :
    config.sweep platform box velX velY = .miss ∨ ∃ x y, config.Solid x y ∧
      y * config.gridX.toNat + x ∈ config.sweepIndices platform box velX velY ∧
      config.sweep platform box velX velY = config.contact box velX velY x y ∧
      (config.contact box velX velY x y).entryTime < 1 := by
  rw [GameConfig.sweep, sweptAxis_eq_firstMin]
  refine (firstMin_eq _ _ _).imp id ?_
  rintro ⟨hmem, hlt⟩
  obtain ⟨tile, htile, hsolid, heq⟩ := mem_contacts.mp hmem
  obtain ⟨i, hi, rfl⟩ := List.mem_map.mp htile
  obtain ⟨x, y, hx, hy, rfl⟩ := cell_of_mem_findCollisionIndices hgridX hgridY hsmall hi
  rw [readTile_worldMap platform hx hy] at hsolid heq
  rw [Nat.mod_eq_of_lt (index_lt hx hy)] at hi
  exact ⟨x, y, (config.tileAt_type hx hy).mp hsolid, hi, heq, (congrArg _ heq.symm).trans_lt hlt⟩

theorem sweep_le_contact (hsolid : config.Solid x y)
    (hmem : y * config.gridX.toNat + x ∈ config.sweepIndices platform box velX velY) :
    (config.sweep platform box velX velY).entryTime ≤
      (config.contact box velX velY x y).entryTime := by
  have hread := readTile_worldMap platform hsolid.1 hsolid.2.1
  rw [Nat.mod_eq_of_lt (index_lt hsolid.1 hsolid.2.1)] at hread
  rw [GameConfig.contact, ← hread]
  apply sweptAxis_le hmem
  rw [hread]
  exact (config.tileAt_type hsolid.1 hsolid.2.1).mpr hsolid

/-! ## What is hit lies in the bounding box -/

theorem toBox_tileAt (h : config.Solid x y) : (config.tileAt x y).toBox =
    { x := (x : ℚ) * (config.tile.toNat : ℚ), y := (y : ℚ) * (config.tile.toNat : ℚ),
      width := config.tile, height := config.tile } := by
  simp [GameConfig.tileAt, h.2.2]

/-- A cell that is hit before time `1` meets the bounding box. -/
theorem meetsBoundingBox_of_contact (htile : config.tile ≠ 0) (hwidth : box.width ≠ 0)
    (hheight : box.height ≠ 0) (hmove : AxisMove box velX velY) (hsolid : config.Solid x y)
    (hlt : (config.contact box velX velY x y).entryTime < 1) :
    config.MeetsBoundingBox box velX velY x y := by
  have hT := cast_toNat_pos htile
  unfold GameConfig.contact at hlt
  rw [toBox_tileAt hsolid] at hlt
  rcases hmove.axis with ⟨hv, rfl⟩ | ⟨rfl, hv⟩
  · obtain ⟨hmeets, h0, hdata⟩ := sweptAABB_lt_x hv hlt
    rw [hdata] at hlt
    obtain ⟨hleft, hright⟩ := between_of_entryTime (cast_toNat_pos hwidth) hT hv h0 hlt
    constructor
    · exact lt_of_lt_of_eq hleft (by ring)
    · exact hright
    · rw [add_zero, min_self]
      exact lt_of_lt_of_eq hmeets.1 (by simp only [Box.h]; ring)
    · rw [add_zero, max_self]
      exact hmeets.2.le
  · obtain ⟨hmeets, h0, hdata⟩ := sweptAABB_lt_y hv hlt
    rw [hdata] at hlt
    obtain ⟨htop, hbottom⟩ := between_of_entryTime (cast_toNat_pos hheight) hT hv h0 hlt
    constructor
    · rw [add_zero, min_self]
      exact lt_of_lt_of_eq hmeets.1 (by simp only [Box.w]; ring)
    · rw [add_zero, max_self]
      exact hmeets.2.le
    · exact lt_of_lt_of_eq htop (by ring)
    · exact hbottom

theorem contact_eq_axisHit (hmove : AxisMove box velX velY)
    (hlt : (config.contact box velX velY x y).entryTime < 1) :
    config.contact box velX velY x y =
      .axisHit velX velY (config.contact box velX velY x y).entryTime := by
  unfold GameConfig.contact at hlt ⊢
  rcases hmove.axis with ⟨hv, rfl⟩ | ⟨rfl, hv⟩
  · obtain ⟨-, -, hdata⟩ := sweptAABB_lt_x hv hlt
    rw [hdata]
    rfl
  · obtain ⟨-, -, hdata⟩ := sweptAABB_lt_y hv hlt
    rw [hdata]
    rfl

/-! ## Agreement -/

section Agreement

variable (hgridX : config.gridX ≠ 0) (hgridY : config.gridY ≠ 0)
  (hsmall : config.gridY.toNat ≤ 255)

include hgridX hgridY hsmall

/-- A sweep is never earlier than the test of all solid tiles. -/
theorem bruteForce_le_sweep : (config.bruteForce box velX velY).entryTime ≤
    (config.sweep platform box velX velY).entryTime := by
  rcases sweep_cases platform hgridX hgridY hsmall box velX velY with
    hmiss | ⟨x, y, hsolid, -, heq, -⟩
  · rw [hmiss]
    exact bruteForce_le_one
  · rw [heq]
    exact bruteForce_le hsolid

theorem sweep_eq_iff (hmove : AxisMove box velX velY) :
    config.sweep platform box velX velY = config.bruteForce box velX velY ↔
      (config.sweep platform box velX velY).entryTime =
        (config.bruteForce box velX velY).entryTime := by
  refine ⟨congrArg _, fun h => ?_⟩
  rcases sweep_cases platform hgridX hgridY hsmall box velX velY with
    hmiss | ⟨x, y, -, -, heq, hlt⟩
  · rcases bruteForce_cases config box velX velY with hmiss' | ⟨x', y', -, heq', hlt'⟩
    · rw [hmiss, hmiss']
    · rw [hmiss, heq'] at h
      exact absurd hlt' (not_lt.mpr (le_of_eq h))
  · rcases bruteForce_cases config box velX velY with hmiss' | ⟨x', y', -, heq', hlt'⟩
    · rw [hmiss', heq] at h
      exact absurd hlt (not_lt.mpr (ge_of_eq h))
    · rw [heq, heq'] at h ⊢
      rw [contact_eq_axisHit hmove hlt, contact_eq_axisHit hmove hlt', h]

end Agreement

theorem floor_lt_of_meets (htile : config.tile ≠ 0) {a : ℚ} {u : UInt8} {n : ℕ} (hn : n < 2 ^ 16)
    (h : Meets a (u.toNat : ℚ) ((n : ℚ) * (config.tile.toNat : ℚ)) (config.tile.toNat : ℚ)) :
    ⌊max (a + (u.toNat : ℚ)) (a + (u.toNat : ℚ) + 0) / (config.tile.toNat : ℚ)⌋ < 2 ^ 64 := by
  have hT : (1 : ℚ) ≤ (config.tile.toNat : ℚ) := by exact_mod_cast cast_toNat_pos htile
  have hu : (u.toNat : ℚ) ≤ 256 := by exact_mod_cast u.toNat_lt.le
  have hn' : (n : ℚ) ≤ 2 ^ 16 := by exact_mod_cast hn.le
  rw [add_zero, max_self, Int.floor_lt, div_lt_iff₀ (by linarith)]
  push_cast
  nlinarith [h.1]

/-- Cells that are hit at the same time by a sweep along one axis, one of them tested: the
    conversion of the far edges keeps the other one as well. -/
theorem kept_of_tested (htile : config.tile ≠ 0) (hgridX : config.gridX ≠ 0)
    (hrows : config.gridY.toNat % 256 ≠ 0) (hwidth : box.width ≠ 0) (hheight : box.height ≠ 0)
    (hmove : AxisMove box velX velY) (hsolid : config.Solid x y)
    (hlt : (config.contact box velX velY x y).entryTime < 1) (hsolid' : config.Solid x' y')
    (htime : (config.contact box velX velY x' y').entryTime =
      (config.contact box velX velY x y).entryTime)
    (hmem : y' * config.gridX.toNat + x' ∈ config.sweepIndices platform box velX velY) :
    x ≤ toSizeT platform (boundingBox box config.tile velX velY).right ∧
      y ≤ toSizeT platform (boundingBox box config.tile velX velY).bottom := by
  have hfloor := (meetsBoundingBox_of_contact htile hwidth hheight hmove hsolid hlt).floor htile
  have hx := hsolid.1.trans config.gridX.toNat_lt
  have hy := hsolid.2.1.trans config.gridY.toNat_lt
  have hT := cast_toNat_pos htile
  have hlt' := htime.trans_lt hlt
  obtain ⟨-, hbottom, hright⟩ := cell_of_mem_sweepIndices hmove.ne_zero hgridX hrows hsolid'.1 hmem
  unfold GameConfig.contact at hlt hlt' htime
  rw [toBox_tileAt hsolid] at hlt htime
  rw [toBox_tileAt hsolid'] at hlt' htime
  rcases hmove.axis with ⟨hv, rfl⟩ | ⟨rfl, hv⟩
  · obtain ⟨hmeets, -, hdata⟩ := sweptAABB_lt_x hv hlt
    obtain ⟨-, -, hdata'⟩ := sweptAABB_lt_x hv hlt'
    rw [hdata, hdata'] at htime
    have hcol := mul_right_cancel₀ hT.ne' (entryTime_inj hv htime)
    rw [← Nat.cast_inj.mp hcol]
    refine ⟨hright, le_toSizeT hfloor.bottom fun hn => absurd hn (not_le.mpr ?_)⟩
    exact floor_lt_of_meets htile hy hmeets
  · obtain ⟨hmeets, -, hdata⟩ := sweptAABB_lt_y hv hlt
    obtain ⟨-, -, hdata'⟩ := sweptAABB_lt_y hv hlt'
    rw [hdata, hdata'] at htime
    have hrow := mul_right_cancel₀ hT.ne' (entryTime_inj hv htime)
    rw [← Nat.cast_inj.mp hrow]
    refine ⟨le_toSizeT hfloor.right fun hn => absurd hn (not_le.mpr ?_), hbottom⟩
    exact floor_lt_of_meets htile hx hmeets

/-- The entry times agree exactly if the clamped bounding box keeps the first hit. -/
theorem entryTime_eq_iff (htile : config.tile ≠ 0) (hgridX : config.gridX ≠ 0)
    (hgridY : config.gridY ≠ 0) (hsmall : config.gridY.toNat ≤ 255) (hwidth : box.width ≠ 0)
    (hheight : box.height ≠ 0) (hmove : AxisMove box velX velY) :
    (config.sweep platform box velX velY).entryTime =
        (config.bruteForce box velX velY).entryTime ↔
      config.KeepsFirstHit platform box velX velY := by
  have hgy : config.gridY.toNat ≠ 0 := by simpa [UInt16.ext_iff] using hgridY
  have hmod : config.gridY.toNat % 256 = config.gridY.toNat := Nat.mod_eq_of_lt (by omega)
  have hrows : config.gridY.toNat % 256 ≠ 0 := by omega
  constructor
  · intro heq x y hfirst
    have hlt : (config.sweep platform box velX velY).entryTime < 1 := by
      rw [heq]
      exact (bruteForce_le hfirst.solid).trans_lt hfirst.hit
    rcases sweep_cases platform hgridX hgridY hsmall box velX velY with
      hmiss | ⟨x', y', hsolid', hmem, hcontact, -⟩
    · rw [hmiss] at hlt
      exact absurd hlt (lt_irrefl _)
    · rw [hcontact] at heq
      refine kept_of_tested htile hgridX hrows hwidth hheight hmove hfirst.solid hfirst.hit hsolid'
        (le_antisymm ?_ (hfirst.first x' y' hsolid')) hmem
      rw [heq]
      exact bruteForce_le hfirst.solid
  · intro hkeep
    refine le_antisymm ?_ (bruteForce_le_sweep hgridX hgridY hsmall)
    rcases bruteForce_cases config box velX velY with hmiss | ⟨x, y, hsolid, heq, hlt⟩
    · rw [hmiss]
      exact (sweptAxis_entryTime _ _ _ _ _ _ _ _).2
    · have hfirst : config.FirstHit box velX velY x y :=
        ⟨hsolid, hlt, fun x' y' hsolid' => heq ▸ bruteForce_le hsolid'⟩
      obtain ⟨hright, hbottom⟩ := hkeep x y hfirst
      rw [heq]
      apply sweep_le_contact hsolid
      rw [mem_sweepIndices_of_meets htile hgridX hrows hmove hsolid
        (meetsBoundingBox_of_contact htile hwidth hheight hmove hsolid hlt), hmod]
      exact ⟨hsolid.2.1, hbottom, hright⟩

/-- For every map with at most 255 rows, every box and every velocity along one axis: the
    sweep gives the result of testing all solid tiles exactly if the clamped bounding box
    keeps the tile that is hit first. -/
theorem sweep_eq_bruteForce_iff (htile : config.tile ≠ 0) (hgridX : config.gridX ≠ 0)
    (hgridY : config.gridY ≠ 0) (hsmall : config.gridY.toNat ≤ 255) (hwidth : box.width ≠ 0)
    (hheight : box.height ≠ 0) (hmove : AxisMove box velX velY) :
    config.sweep platform box velX velY = config.bruteForce box velX velY ↔
      config.KeepsFirstHit platform box velX velY := by
  rw [sweep_eq_iff hgridX hgridY hsmall hmove]
  exact entryTime_eq_iff htile hgridX hgridY hsmall hwidth hheight hmove

/-- A player in the room that falls onto its floor. -/
theorem sweep_eq_bruteForce_iff_room :
    GameConfig.room.sweep .x86 ⟨11, 11, 8, 8⟩ 0 20 =
        GameConfig.room.bruteForce ⟨11, 11, 8, 8⟩ 0 20 ↔
      GameConfig.room.KeepsFirstHit .x86 ⟨11, 11, 8, 8⟩ 0 20 := by
  apply sweep_eq_bruteForce_iff (by decide) (by decide) (by decide) (by decide) (by decide)
    (by decide)
  constructor <;> norm_num

theorem keepsFirstHit_of_lt (htile : config.tile ≠ 0) (hwidth : box.width ≠ 0)
    (hheight : box.height ≠ 0) (hmove : AxisMove box velX velY)
    (hright : (boundingBox box config.tile velX velY).right < 2 ^ 64)
    (hbottom : (boundingBox box config.tile velX velY).bottom < 2 ^ 64) :
    config.KeepsFirstHit platform box velX velY := by
  intro x y hfirst
  have hfloor := (meetsBoundingBox_of_contact htile hwidth hheight hmove hfirst.solid
    hfirst.hit).floor htile
  constructor
  · exact le_toSizeT hfloor.right fun hn => absurd hright (not_lt.mpr hn)
  · exact le_toSizeT hfloor.bottom fun hn => absurd hbottom (not_lt.mpr hn)

/-- A platform that converts like the code that GCC generates for an x86-64 processor: the
    processor's signed conversion, below `2^63` of the number and from there on of the number
    minus `2^63`, with the highest bit flipped. -/
def Platform.gccX86 : Platform :=
  { Platform.x86 with
    wildCast := fun n => if n < 0 then Platform.x86.wildCast n else 0 }

/-- A player in the room that moves to the right, by `2^64` tiles: no tile is tested, but
    the wall is hit. -/
theorem far_sweep_misses :
    ¬ ∀ (platform : Platform) (config : GameConfig) (box : Box) (velX velY : ℚ),
      config.tile ≠ 0 → config.gridX ≠ 0 → config.gridY ≠ 0 → config.gridY.toNat ≤ 255 →
      box.width ≠ 0 → box.height ≠ 0 → AxisMove box velX velY →
      config.sweep platform box velX velY = config.bruteForce box velX velY := by
  intro hclaim
  have hmove : AxisMove ⟨11, 11, 8, 8⟩ (10 * 2 ^ 64) 0 := by
    constructor <;> norm_num
  have heq := hclaim .gccX86 .room ⟨11, 11, 8, 8⟩ (10 * 2 ^ 64) 0 (by decide) (by decide)
    (by decide) (by decide) (by decide) (by decide) hmove
  have hmiss : (GameConfig.room.sweep .gccX86 ⟨11, 11, 8, 8⟩ (10 * 2 ^ 64) 0).hit = false := by
    decide +kernel
  have hhit : (GameConfig.room.bruteForce ⟨11, 11, 8, 8⟩ (10 * 2 ^ 64) 0).hit = true := by
    decide +kernel
  rw [heq, hhit] at hmiss
  exact absurd hmiss (by decide)

end EndlessPeak
