import Mathlib.Algebra.Order.Floor.Ring
import Mathlib.Data.Rat.Floor
import EndlessPeak.Game.SweptMath
import EndlessPeak.Lib.FirstMin

/-!
# `Collision`: the sweep of a box against the map

Model of `game/physics/collision.cpp`. `FindCollisionIndices` takes the tiles of
the bounding box of the start and the end position, clamped to the grid;
`SweptAxis` keeps the first of the earliest hits among the solid ones.

The bounding box is computed in doubles and converted to `std::size_t` before it
is clamped. A coordinate that `std::size_t` cannot represent, as a negative one,
has no defined conversion; `Platform.wildCast` stands for its result.

* `mem_findCollisionIndices`: the indices are those of the clamped range of tiles.
* `sweptAxis_cases`, `sweptAxis_le`: the result is a miss or the result for one of
  the solid tiles, and no solid tile of the range is hit earlier.
* `sweep_clear`: if the conversions are defined and the rows are clamped to the
  grid, then up to the returned time the box overlaps no solid tile of the map.
* `sweep_hit`: a hit is a hit with a solid tile of the map.
-/

namespace EndlessPeak

open Lib

/-! ## The model -/

/-- `static_cast<std::size_t>(value)` of a double with the integral value `n`. -/
def toSizeT (platform : Platform) (n : ℤ) : ℕ :=
  if 0 ≤ n ∧ n < 2 ^ 64 then n.toNat else (platform.wildCast n).toNat

/-- `grid - 1`: an `int`, converted to `std::size_t` for `std::min`. -/
def gridBound (grid : ℕ) : ℕ := (grid + 2 ^ 64 - 1) % 2 ^ 64

/-- The integral doubles `bb_left`, `bb_top`, `bb_right` and `bb_bottom`. -/
structure TileBox where
  left : ℤ
  top : ℤ
  right : ℤ
  bottom : ℤ

/-- "Calculate bounding box": of the start and the end position, in tiles. -/
def boundingBox (box : Box) (tile : UInt8) (velX velY : ℚ) : TileBox where
  left := ⌊min box.x (box.x + velX) / (tile.toNat : ℚ)⌋
  top := ⌊min box.y (box.y + velY) / (tile.toNat : ℚ)⌋
  right := ⌊max (box.x + box.w) (box.x + box.w + velX) / (tile.toNat : ℚ)⌋
  bottom := ⌊max (box.y + box.h) (box.y + box.h + velY) / (tile.toNat : ℚ)⌋

/-- `std::set::insert`. -/
def setInsert (i : ℕ) : List ℕ → List ℕ
  | [] => [i]
  | j :: js => if i < j then i :: j :: js else if i = j then j :: js else j :: setInsert i js

/-- The values of a loop counter from `first` to `last`. -/
def countUp (first last : ℕ) : List ℕ := List.range' first (last + 1 - first)

/-- `Collision::FindCollisionIndices`. A loop whose bound is the largest `std::size_t` does not
    end in the code: no counter is greater. Here it makes its rounds once and ends. Only a bound
    that is not clamped, for `grid_x` or the eight bits of `grid_y` zero, can be so large. -/
def findCollisionIndices (platform : Platform) (box : Box) (tile : UInt8) (gridX : UInt16)
    (gridY : UInt8) (velX velY : ℚ) : List ℕ :=
  if velX = 0 ∧ velY = 0 then []
  else
    let bb := boundingBox box tile velX velY
    let tileLeft := max 0 (toSizeT platform bb.left)
    let tileTop := max 0 (toSizeT platform bb.top)
    let tileRight := min (gridBound gridX.toNat) (toSizeT platform bb.right)
    let tileBottom := min (gridBound gridY.toNat) (toSizeT platform bb.bottom)
    (countUp tileTop tileBottom).foldl (fun res y =>
      (countUp tileLeft tileRight).foldl (fun res x =>
        setInsert ((y * gridX.toNat + x) % 2 ^ 64) res) res) []

/-- `map[i]`. Past the end of the map it is what happens to be in the memory there; one
    function of the index stands for it. -/
def readTile (platform : Platform) (map : List Tile) (i : ℕ) : Tile :=
  (map[i]?).getD (platform.wildTile i)

/-- The loop body of `SweptAxis`. -/
def sweptStep (platform : Platform) (box : Box) (map : List Tile) (velX velY : ℚ)
    (res : SweptData) (i : ℕ) : SweptData :=
  if (readTile platform map i).type ≠ .empty then
    let tmp := sweptAABB box (readTile platform map i).toBox velX velY
    if tmp.entryTime < res.entryTime then tmp else res
  else res

/-- `Collision::SweptAxis`. -/
def sweptAxis (platform : Platform) (box : Box) (tile : UInt8) (gridX : UInt16) (gridY : UInt8)
    (map : List Tile) (velX velY : ℚ) : SweptData :=
  (findCollisionIndices platform box tile gridX gridY velX velY).foldl
    (sweptStep platform box map velX velY) .miss

/-! ## The set of indices -/

@[simp] theorem mem_setInsert {i j : ℕ} {l : List ℕ} : j ∈ setInsert i l ↔ j = i ∨ j ∈ l := by
  induction l with
  | nil => simp [setInsert]
  | cons k l ih =>
    unfold setInsert
    split_ifs with hlt heq
    · simp
    · subst heq
      simp
    · simp only [List.mem_cons, ih]
      tauto

theorem mem_foldl_setInsert {α : Type} (f : α → ℕ) {j : ℕ} {l : List α} {res : List ℕ} :
    j ∈ l.foldl (fun res a => setInsert (f a) res) res ↔ (∃ a ∈ l, j = f a) ∨ j ∈ res := by
  induction l generalizing res with
  | nil => simp
  | cons a l ih =>
    rw [List.foldl_cons, ih]
    simp only [mem_setInsert, List.mem_cons, exists_eq_or_imp]
    rw [or_left_comm, or_assoc]

@[simp] theorem mem_countUp {first last i : ℕ} : i ∈ countUp first last ↔ first ≤ i ∧ i ≤ last := by
  simp only [countUp, List.mem_range'_1]
  omega

theorem mem_foldl_foldl_setInsert (f : ℕ → ℕ → ℕ) {j : ℕ} {rows columns : List ℕ}
    {res : List ℕ} :
    j ∈ rows.foldl (fun res y => columns.foldl (fun res x => setInsert (f y x) res) res) res ↔
      (∃ y ∈ rows, ∃ x ∈ columns, j = f y x) ∨ j ∈ res := by
  induction rows generalizing res with
  | nil => simp
  | cons y rows ih =>
    rw [List.foldl_cons, ih, mem_foldl_setInsert]
    simp only [List.mem_cons, exists_eq_or_imp]
    rw [or_left_comm, or_assoc]

variable {platform : Platform} {box : Box} {tile : UInt8} {gridX : UInt16} {gridY : UInt8}
  {map : List Tile} {velX velY : ℚ}

theorem mem_findCollisionIndices (hvel : ¬ (velX = 0 ∧ velY = 0)) {i : ℕ} :
    i ∈ findCollisionIndices platform box tile gridX gridY velX velY ↔
      ∃ y x, toSizeT platform (boundingBox box tile velX velY).top ≤ y ∧
        y ≤ min (gridBound gridY.toNat)
          (toSizeT platform (boundingBox box tile velX velY).bottom) ∧
        toSizeT platform (boundingBox box tile velX velY).left ≤ x ∧
        x ≤ min (gridBound gridX.toNat)
          (toSizeT platform (boundingBox box tile velX velY).right) ∧
        i = (y * gridX.toNat + x) % 2 ^ 64 := by
  simp only [findCollisionIndices, if_neg hvel, mem_foldl_foldl_setInsert (fun y x =>
    (y * gridX.toNat + x) % 2 ^ 64), mem_countUp, List.not_mem_nil, or_false, Nat.zero_max]
  constructor
  · rintro ⟨y, ⟨h1, h2⟩, x, ⟨h3, h4⟩, rfl⟩
    exact ⟨y, x, h1, h2, h3, h4, rfl⟩
  · rintro ⟨y, x, h1, h2, h3, h4, rfl⟩
    exact ⟨y, ⟨h1, h2⟩, x, ⟨h3, h4⟩, rfl⟩

theorem gridBound_eq {grid : ℕ} (h0 : 0 < grid) (h1 : grid < 2 ^ 64) :
    gridBound grid = grid - 1 := by
  unfold gridBound
  omega

theorem toSizeT_of_representable {n : ℤ} (h : 0 ≤ n ∧ n < 2 ^ 64) :
    toSizeT platform n = n.toNat := if_pos h

/-! ## The earliest hit -/

/-- The results of `SweptAABB` for the solid ones among some tiles. -/
def contacts (box : Box) (velX velY : ℚ) (tiles : List Tile) : List SweptData :=
  (tiles.filter fun tile => tile.type ≠ .empty).map fun tile =>
    sweptAABB box tile.toBox velX velY

theorem mem_contacts {tiles : List Tile} {res : SweptData} :
    res ∈ contacts box velX velY tiles ↔
      ∃ tile ∈ tiles, tile.type ≠ .empty ∧ res = sweptAABB box tile.toBox velX velY := by
  simp only [contacts, List.mem_map, List.mem_filter, decide_eq_true_eq]
  constructor
  · rintro ⟨tile, ⟨hmem, hsolid⟩, rfl⟩
    exact ⟨tile, hmem, hsolid, rfl⟩
  · rintro ⟨tile, hmem, hsolid, rfl⟩
    exact ⟨tile, ⟨hmem, hsolid⟩, rfl⟩

/-- `SweptAxis` keeps the first of the earliest contacts with the tiles it reads. -/
theorem sweptAxis_eq_firstMin : sweptAxis platform box tile gridX gridY map velX velY =
    firstMin SweptData.entryTime .miss (contacts box velX velY
      ((findCollisionIndices platform box tile gridX gridY velX velY).map
        (readTile platform map))) := by
  unfold sweptAxis firstMin contacts
  rw [List.foldl_map, List.foldl_filter, List.foldl_map]
  congr 1
  funext res i
  simp [sweptStep, keepMin]

theorem sweptAxis_cases (platform : Platform) (box : Box) (tile : UInt8) (gridX : UInt16)
    (gridY : UInt8) (map : List Tile) (velX velY : ℚ) :
    sweptAxis platform box tile gridX gridY map velX velY = .miss ∨
      ∃ i ∈ findCollisionIndices platform box tile gridX gridY velX velY,
        (readTile platform map i).type ≠ .empty ∧
        sweptAxis platform box tile gridX gridY map velX velY =
          sweptAABB box (readTile platform map i).toBox velX velY := by
  rw [sweptAxis_eq_firstMin]
  refine (firstMin_eq _ _ _).imp id ?_
  rintro ⟨hmem, -⟩
  obtain ⟨t, ht, hsolid, heq⟩ := mem_contacts.mp hmem
  obtain ⟨i, hi, rfl⟩ := List.mem_map.mp ht
  exact ⟨i, hi, hsolid, heq⟩

/-- No solid tile among the candidates is hit earlier. -/
theorem sweptAxis_le {i : ℕ}
    (hi : i ∈ findCollisionIndices platform box tile gridX gridY velX velY)
    (hsolid : (readTile platform map i).type ≠ .empty) :
    (sweptAxis platform box tile gridX gridY map velX velY).entryTime ≤
      (sweptAABB box (readTile platform map i).toBox velX velY).entryTime := by
  rw [sweptAxis_eq_firstMin]
  exact key_firstMin_le_of_mem (mem_contacts.mpr ⟨_, List.mem_map_of_mem hi, hsolid, rfl⟩)

theorem sweptAxis_entryTime (platform : Platform) (box : Box) (tile : UInt8) (gridX : UInt16)
    (gridY : UInt8) (map : List Tile) (velX velY : ℚ) :
    0 ≤ (sweptAxis platform box tile gridX gridY map velX velY).entryTime ∧
      (sweptAxis platform box tile gridX gridY map velX velY).entryTime ≤ 1 := by
  rcases sweptAxis_cases platform box tile gridX gridY map velX velY with hmiss | ⟨i, _, _, heq⟩
  · simp [hmiss, SweptData.miss]
  · rw [heq]
    exact sweptAABB_entryTime _ _ _ _

theorem sweptAxis_hit_of_lt
    (h : (sweptAxis platform box tile gridX gridY map velX velY).entryTime < 1) :
    (sweptAxis platform box tile gridX gridY map velX velY).hit = true := by
  rcases sweptAxis_cases platform box tile gridX gridY map velX velY with hmiss | ⟨i, _, _, heq⟩
  · simp [hmiss, SweptData.miss] at h
  · rw [heq] at h ⊢
    exact sweptAABB_hit_of_lt h

/-! ## Against the configured map -/

/-- The call of `SweptAxis` in `World::MovePlayer`: `grid_y` is passed as a
    `std::uint8_t`. -/
def GameConfig.sweep (config : GameConfig) (platform : Platform) (box : Box) (velX velY : ℚ) :
    SweptData :=
  sweptAxis platform box config.tile config.gridX config.gridY.toUInt8 config.worldMap velX velY

/-- The conversions of a sweep are defined, and `grid_y`, truncated to eight bits,
    still clamps the rows to those of the grid. -/
structure SweepDefined (config : GameConfig) (box : Box) (velX velY : ℚ) : Prop where
  left : 0 ≤ (boundingBox box config.tile velX velY).left ∧
    (boundingBox box config.tile velX velY).left < 2 ^ 64
  top : 0 ≤ (boundingBox box config.tile velX velY).top ∧
    (boundingBox box config.tile velX velY).top < 2 ^ 64
  right : 0 ≤ (boundingBox box config.tile velX velY).right ∧
    (boundingBox box config.tile velX velY).right < 2 ^ 64
  bottom : 0 ≤ (boundingBox box config.tile velX velY).bottom ∧
    (boundingBox box config.tile velX velY).bottom < 2 ^ 64
  rows : min (gridBound config.gridY.toUInt8.toNat)
      (boundingBox box config.tile velX velY).bottom.toNat =
    min (config.gridY.toNat - 1) (boundingBox box config.tile velX velY).bottom.toNat

instance (config : GameConfig) (box : Box) (velX velY : ℚ) :
    Decidable (SweepDefined config box velX velY) :=
  decidable_of_iff (((0 : ℤ) ≤ _ ∧ _ < (2 : ℤ) ^ 64) ∧ ((0 : ℤ) ≤ _ ∧ _ < (2 : ℤ) ^ 64) ∧
      ((0 : ℤ) ≤ _ ∧ _ < (2 : ℤ) ^ 64) ∧ ((0 : ℤ) ≤ _ ∧ _ < (2 : ℤ) ^ 64) ∧
      min (gridBound config.gridY.toUInt8.toNat) _ = _)
    ⟨fun ⟨h1, h2, h3, h4, h5⟩ => ⟨h1, h2, h3, h4, h5⟩,
      fun ⟨h1, h2, h3, h4, h5⟩ => ⟨h1, h2, h3, h4, h5⟩⟩

variable {config : GameConfig} {x y : ℕ} {a u v t T : ℚ}

theorem readTile_worldMap (platform : Platform) (hx : x < config.gridX.toNat)
    (hy : y < config.gridY.toNat) :
    readTile platform config.worldMap ((y * config.gridX.toNat + x) % 2 ^ 64) =
      config.tileAt x y := by
  rw [Nat.mod_eq_of_lt (index_lt hx hy), readTile, config.getElem?_worldMap hx hy,
    Option.getD_some]

theorem min_le_shift (h0 : 0 ≤ t) (h1 : t ≤ 1) : min a (a + v) ≤ a + t * v := by
  rcases le_total 0 v with hv | hv
  · exact (min_le_left _ _).trans (by nlinarith)
  · exact (min_le_right _ _).trans (by nlinarith)

theorem shift_le_max (h0 : 0 ≤ t) (h1 : t ≤ 1) : a + t * v ≤ max a (a + v) := by
  rcases le_total 0 v with hv | hv
  · exact le_trans (by nlinarith) (le_max_right _ _)
  · exact le_trans (by nlinarith) (le_max_left _ _)

/-- A tile that is met on the way lies between the floors of the bounding box. -/
theorem floor_le_of_meets (hT : 0 < T) (h0 : 0 ≤ t) (h1 : t ≤ 1)
    (h : Meets (a + t * v) u ((x : ℚ) * T) T) :
    ⌊min a (a + v) / T⌋ ≤ (x : ℤ) ∧ (x : ℤ) ≤ ⌊max (a + u) (a + u + v) / T⌋ := by
  constructor
  · rw [← Int.lt_add_one_iff, Int.floor_lt, div_lt_iff₀ hT]
    have hmin := min_le_shift (a := a) (v := v) h0 h1
    push_cast
    linarith [h.1]
  · rw [Int.le_floor, le_div_iff₀ hT]
    have hmax := shift_le_max (a := a + u) (v := v) h0 h1
    push_cast
    linarith [h.2]

/-- Every solid tile that the moving box overlaps at some time is a candidate. -/
theorem mem_findCollisionIndices_of_overlaps (platform : Platform) (htile : config.tile ≠ 0)
    (hdef : SweepDefined config box velX velY) (hvel : ¬ (velX = 0 ∧ velY = 0))
    (hx : x < config.gridX.toNat) (hy : y < config.gridY.toNat) (h0 : 0 ≤ t) (h1 : t ≤ 1)
    (hover : (box.rect.shift (t * velX) (t * velY)).Overlaps (config.tileRect x y)) :
    (y * config.gridX.toNat + x) % 2 ^ 64 ∈ findCollisionIndices platform box config.tile
      config.gridX config.gridY.toUInt8 velX velY := by
  have hT : (0 : ℚ) < (config.tile.toNat : ℚ) := cast_toNat_pos htile
  obtain ⟨hl, hr⟩ := floor_le_of_meets hT h0 h1 hover.1
  obtain ⟨ht, hb⟩ := floor_le_of_meets hT h0 h1 hover.2
  have hgx := config.gridX.toNat_lt
  rw [mem_findCollisionIndices hvel, toSizeT_of_representable hdef.left,
    toSizeT_of_representable hdef.top, toSizeT_of_representable hdef.right,
    toSizeT_of_representable hdef.bottom, hdef.rows, gridBound_eq (by omega) (by omega)]
  refine ⟨y, x, ?_, ?_, ?_, ?_, rfl⟩
  · exact Int.toNat_le.mpr ht
  · exact le_min (by omega) ((Int.le_toNat hdef.bottom.1).mpr hb)
  · exact Int.toNat_le.mpr hl
  · exact le_min (by omega) ((Int.le_toNat hdef.right.1).mpr hr)

/-- No solid tile that the box overlaps on its way is hit earlier. -/
theorem sweep_le (platform : Platform) (htile : config.tile ≠ 0)
    (hdef : SweepDefined config box velX velY) (hvel : ¬ (velX = 0 ∧ velY = 0))
    (hsolid : config.Solid x y) (h0 : 0 ≤ t) (h1 : t ≤ 1)
    (hover : (box.rect.shift (t * velX) (t * velY)).Overlaps (config.tileRect x y)) :
    (config.sweep platform box velX velY).entryTime ≤
      (sweptAABB box (config.tileAt x y).toBox velX velY).entryTime := by
  have hi := mem_findCollisionIndices_of_overlaps platform htile hdef hvel
    hsolid.1 hsolid.2.1 h0 h1 hover
  have hread := readTile_worldMap platform hsolid.1 hsolid.2.1
  rw [← hread]
  apply sweptAxis_le hi
  rw [hread]
  exact (config.tileAt_type hsolid.1 hsolid.2.1).mpr hsolid

/-- Up to the returned time, the box overlaps no solid tile. -/
theorem sweep_clear (htile : config.tile ≠ 0) (hdef : SweepDefined config box velX velY)
    (hfree : config.Free box) (hsolid : config.Solid x y) :
    box.rect.Clear (config.tileRect x y) velX velY
      (config.sweep platform box velX velY).entryTime := by
  intro t h0 h1 hover
  by_cases hvel : velX = 0 ∧ velY = 0
  · apply hfree x y hsolid
    simpa [hvel.1, hvel.2, Rect.shift] using hover
  have hle := sweep_le platform htile hdef hvel hsolid h0
    (h1.trans (sweptAxis_entryTime _ _ _ _ _ _ _ _).2) hover
  rw [← config.rect_tileAt hsolid] at hover
  refine sweptAABB_clear ?_ t h0 (h1.trans hle) hover
  rw [config.rect_tileAt hsolid]
  exact hfree x y hsolid

/-- With a `grid_y` that eight bits hold, every index that `SweptAxis` reads is
    that of a cell of the grid. -/
theorem cell_of_mem_findCollisionIndices (hgridX : config.gridX ≠ 0) (hgridY : config.gridY ≠ 0)
    (hsmall : config.gridY.toNat ≤ 255) {i : ℕ}
    (hi : i ∈ findCollisionIndices platform box config.tile config.gridX config.gridY.toUInt8
      velX velY) :
    ∃ x y, x < config.gridX.toNat ∧ y < config.gridY.toNat ∧
      i = (y * config.gridX.toNat + x) % 2 ^ 64 := by
  by_cases hvel : velX = 0 ∧ velY = 0
  · simp [findCollisionIndices, hvel] at hi
  have hgx : config.gridX.toNat ≠ 0 := by simpa [UInt16.ext_iff] using hgridX
  have hgy : config.gridY.toNat ≠ 0 := by simpa [UInt16.ext_iff] using hgridY
  have hlt := config.gridX.toNat_lt
  have htrunc : config.gridY.toUInt8.toNat = config.gridY.toNat := by
    rw [UInt16.toNat_toUInt8]
    omega
  rw [mem_findCollisionIndices hvel, htrunc, gridBound_eq (by omega) (by omega),
    gridBound_eq (by omega) (by omega)] at hi
  obtain ⟨y, x, -, hy, -, hx, rfl⟩ := hi
  rw [le_min_iff] at hx hy
  exact ⟨x, y, by omega, by omega, rfl⟩

theorem sweep_hit (hgridX : config.gridX ≠ 0) (hgridY : config.gridY ≠ 0)
    (hsmall : config.gridY.toNat ≤ 255) (h : (config.sweep platform box velX velY).hit = true) :
    ∃ x y, config.Solid x y ∧
      config.sweep platform box velX velY = sweptAABB box (config.tileAt x y).toBox velX velY := by
  rcases sweptAxis_cases platform box config.tile config.gridX config.gridY.toUInt8
    config.worldMap velX velY with hmiss | ⟨i, hi, hsolid, heq⟩
  · simp [GameConfig.sweep, hmiss, SweptData.miss] at h
  obtain ⟨x, y, hx, hy, rfl⟩ := cell_of_mem_findCollisionIndices hgridX hgridY hsmall hi
  rw [readTile_worldMap platform hx hy] at hsolid heq
  exact ⟨x, y, (config.tileAt_type hx hy).mp hsolid, heq⟩

end EndlessPeak
