import EndlessPeak.Game.Coverage

/-!
# `FindCollisionIndices`, with its conversions and loops

`findCollisionIndices?` is `FindCollisionIndices` on 64-bit counters: it fails where a double
is converted that `std::size_t` cannot represent, and where the given number of rounds does
not end a loop.

* `forSize_eq_foldl`: a loop whose bound is not the largest counter ends.
* `sweepsEnd_of_grid`: where the grid clamps the rows and the columns, the loops of every sweep
  end, whatever the conversions give, with the indices of `findCollisionIndices`.
* `findCollisionIndices?_eq`: without a failure the result is that of `findCollisionIndices`.
* `findsClampedBox_iff`: the indices are those of the clamped bounding box, without a failure,
  exactly if no coordinate is negative and none reaches `2^64` tiles.
-/

namespace EndlessPeak

open Lib

/-! ## The model -/

/-- `static_cast<std::size_t>` of a double with the integral value `n`; `none` where the
    language does not define it. -/
def toSizeT? (n : ℤ) : Option UInt64 :=
  if 0 ≤ n ∧ n < 2 ^ 64 then some (UInt64.ofNat n.toNat) else none

/-- `for (std::size_t i = first; i <= last; i++)`, up to `fuel` tests of the condition. -/
def forSize {S : Type} (last : UInt64) (body : S → UInt64 → Option S) :
    ℕ → UInt64 → S → Option S
  | 0, _, _ => none
  | fuel + 1, i, s =>
    if i ≤ last then (body s i).bind (forSize last body fuel (i + 1)) else some s

/-- The two loops of `FindCollisionIndices`, over the clamped bounding box. -/
def collectIndices (fuel : ℕ) (gridX : UInt16) (tileLeft tileTop tileRight tileBottom : UInt64) :
    Option (List ℕ) :=
  forSize tileBottom (fun res y =>
    forSize tileRight (fun res x =>
      some (setInsert (y * gridX.toUInt64 + x).toNat res)) fuel tileLeft res) fuel tileTop []

/-- `Collision::FindCollisionIndices`. `grid_x - 1` is an `int`; converted to `std::size_t`
    it is the 64-bit difference. -/
def findCollisionIndices? (fuel : ℕ) (box : Box) (tile : UInt8) (gridX : UInt16) (gridY : UInt8)
    (velX velY : ℚ) : Option (List ℕ) :=
  if velX = 0 ∧ velY = 0 then some []
  else do
    let bb := boundingBox box tile velX velY
    let left ← toSizeT? bb.left
    let tileLeft := max 0 left
    let top ← toSizeT? bb.top
    let tileTop := max 0 top
    let right ← toSizeT? bb.right
    let tileRight := min (gridX.toUInt64 - 1) right
    let bottom ← toSizeT? bb.bottom
    let tileBottom := min (gridY.toUInt64 - 1) bottom
    collectIndices fuel gridX tileLeft tileTop tileRight tileBottom

/-- In a sweep against the configured map the loops of `FindCollisionIndices` end, with the
    results that this platform gives to the conversions. -/
def GameConfig.SweepEnds (config : GameConfig) (platform : Platform) (box : Box)
    (velX velY : ℚ) : Prop :=
  let bb := boundingBox box config.tile velX velY
  let size := fun n => UInt64.ofNat (toSizeT platform n)
  velX = 0 ∧ velY = 0 ∨ ∃ fuel, collectIndices fuel config.gridX (max 0 (size bb.left))
    (max 0 (size bb.top)) (min (config.gridX.toUInt64 - 1) (size bb.right))
    (min (config.gridY.toUInt8.toUInt64 - 1) (size bb.bottom)) =
      some (config.sweepIndices platform box velX velY)

/-- Every sweep against the configured map ends, and reads nothing past the end of `map_`. -/
def GameConfig.SweepsEnd (config : GameConfig) (platform : Platform) : Prop :=
  ∀ box velX velY, config.SweepEnds platform box velX velY ∧
    ∀ i ∈ config.sweepIndices platform box velX velY, i < config.worldMap.length

/-! ## Loops -/

theorem countUp_cons {first last : ℕ} (h : first ≤ last) :
    countUp first last = first :: countUp (first + 1) last := by
  unfold countUp
  rw [show last + 1 - first = last + 1 - (first + 1) + 1 by omega, List.range'_succ]

theorem countUp_nil {first last : ℕ} (h : last < first) : countUp first last = [] := by
  unfold countUp
  rw [Nat.sub_eq_zero_of_le h, List.range'_zero]

/-- A loop whose bound is not the largest counter ends, after at most one test more than it
    has rounds. -/
theorem forSize_eq_foldl {S : Type} {last : UInt64} {body : S → UInt64 → Option S}
    {f : S → ℕ → S} (hlast : last.toNat + 1 < 2 ^ 64)
    (hbody : ∀ s i, body s i = some (f s i.toNat)) {fuel : ℕ} {i : UInt64} (s : S)
    (hfuel : last.toNat + 1 - i.toNat < fuel) :
    forSize last body fuel i s = some ((countUp i.toNat last.toNat).foldl f s) := by
  induction fuel generalizing i s with
  | zero => omega
  | succ fuel ih =>
    unfold forSize
    by_cases hle : i ≤ last
    · have hle' : i.toNat ≤ last.toNat := UInt64.le_iff_toNat_le.mp hle
      have hnext : (i + 1).toNat = i.toNat + 1 := by
        rw [UInt64.toNat_add]
        exact Nat.mod_eq_of_lt (by simp; omega)
      rw [if_pos hle, hbody, Option.bind_some, ih _ (by omega), hnext, countUp_cons hle',
        List.foldl_cons]
    · have hlt : last.toNat < i.toNat := by
        rw [UInt64.le_iff_toNat_le] at hle
        omega
      rw [if_neg hle, countUp_nil hlt, List.foldl_nil]

theorem collectIndices_eq {fuel : ℕ} {gridX : UInt16} {left top right bottom : UInt64}
    (hfuel : fuel < 2 ^ 64) (hright : right.toNat + 1 < fuel) (hbottom : bottom.toNat + 1 < fuel) :
    collectIndices fuel gridX left top right bottom =
      some ((countUp top.toNat bottom.toNat).foldl (fun res y =>
        (countUp left.toNat right.toNat).foldl (fun res x =>
          setInsert ((y * gridX.toNat + x) % 2 ^ 64) res) res) []) := by
  have hbody : ∀ (y : UInt64) (res : List ℕ), forSize right
      (fun res x => some (setInsert (y * gridX.toUInt64 + x).toNat res)) fuel left res =
      some ((countUp left.toNat right.toNat).foldl
        (fun res x => setInsert ((y.toNat * gridX.toNat + x) % 2 ^ 64) res) res) := by
    intro y res
    refine forSize_eq_foldl (f := fun res x =>
      setInsert ((y.toNat * gridX.toNat + x) % 2 ^ 64) res) (by omega) ?_ res (by omega)
    intro res x
    simp
  unfold collectIndices
  simp only [hbody]
  refine forSize_eq_foldl (f := fun res y => (countUp left.toNat right.toNat).foldl
    (fun res x => setInsert ((y * gridX.toNat + x) % 2 ^ 64) res) res) (by omega) ?_ [] (by omega)
  exact fun _ _ => rfl

/-! ## Conversions -/

theorem toSizeT?_eq_some {n : ℤ} {v : UInt64} :
    toSizeT? n = some v ↔ (0 ≤ n ∧ n < 2 ^ 64) ∧ v = UInt64.ofNat n.toNat := by
  unfold toSizeT?
  split_ifs with h
  · rw [Option.some_inj, eq_comm]
    exact (and_iff_right h).symm
  · exact iff_of_false (by simp) fun hn => h hn.1

/-- The coordinates whose conversions are defined: none is negative, and none reaches `2^64`
    tiles. -/
structure Representable (box : Box) (tile : UInt8) (velX velY : ℚ) : Prop where
  left : 0 ≤ min box.x (box.x + velX)
  top : 0 ≤ min box.y (box.y + velY)
  right : max (box.x + box.w) (box.x + box.w + velX) < 2 ^ 64 * (tile.toNat : ℚ)
  bottom : max (box.y + box.h) (box.y + box.h + velY) < 2 ^ 64 * (tile.toNat : ℚ)

variable {platform : Platform} {box : Box} {tile : UInt8} {gridX : UInt16} {gridY : UInt8}
  {velX velY : ℚ} {fuel : ℕ}

/-- An interval on a line of tiles: its floors can be converted exactly if it starts at a
    nonnegative coordinate and ends below `2^64` tiles. -/
theorem floor_representable_iff (htile : tile ≠ 0) {lo hi : ℚ} (hle : lo ≤ hi) :
    ((0 ≤ ⌊lo / (tile.toNat : ℚ)⌋ ∧ ⌊lo / (tile.toNat : ℚ)⌋ < 2 ^ 64) ∧
        0 ≤ ⌊hi / (tile.toNat : ℚ)⌋ ∧ ⌊hi / (tile.toNat : ℚ)⌋ < 2 ^ 64) ↔
      0 ≤ lo ∧ hi < 2 ^ 64 * (tile.toNat : ℚ) := by
  have hT := cast_toNat_pos htile
  have hfloor : ⌊lo / (tile.toNat : ℚ)⌋ ≤ ⌊hi / (tile.toNat : ℚ)⌋ :=
    Int.floor_le_floor (div_le_div_of_nonneg_right hle hT.le)
  have hlo : 0 ≤ ⌊lo / (tile.toNat : ℚ)⌋ ↔ 0 ≤ lo := by
    rw [Int.floor_nonneg, le_div_iff₀ hT, zero_mul]
  have hhi : ⌊hi / (tile.toNat : ℚ)⌋ < 2 ^ 64 ↔ hi < 2 ^ 64 * (tile.toNat : ℚ) := by
    rw [Int.floor_lt, div_lt_iff₀ hT]
    push_cast
    rfl
  rw [← hlo, ← hhi]
  omega

theorem representable_iff (htile : tile ≠ 0) : Representable box tile velX velY ↔
    ((0 ≤ (boundingBox box tile velX velY).left ∧
        (boundingBox box tile velX velY).left < 2 ^ 64) ∧
      0 ≤ (boundingBox box tile velX velY).right ∧
        (boundingBox box tile velX velY).right < 2 ^ 64) ∧
    (0 ≤ (boundingBox box tile velX velY).top ∧ (boundingBox box tile velX velY).top < 2 ^ 64) ∧
      0 ≤ (boundingBox box tile velX velY).bottom ∧
        (boundingBox box tile velX velY).bottom < 2 ^ 64 := by
  have hx : min box.x (box.x + velX) ≤ max (box.x + box.w) (box.x + box.w + velX) := by
    have hw : 0 ≤ box.w := Nat.cast_nonneg _
    exact (min_le_left _ _).trans (le_trans (by linarith) (le_max_left _ _))
  have hy : min box.y (box.y + velY) ≤ max (box.y + box.h) (box.y + box.h + velY) := by
    have hh : 0 ≤ box.h := Nat.cast_nonneg _
    exact (min_le_left _ _).trans (le_trans (by linarith) (le_max_left _ _))
  unfold boundingBox
  rw [floor_representable_iff htile hx, floor_representable_iff htile hy]
  constructor
  · exact fun h => ⟨⟨h.left, h.right⟩, h.top, h.bottom⟩
  · exact fun h => ⟨h.1.1, h.2.1, h.1.2, h.2.2⟩

/-! ## The indices -/

theorem toNat_sub_one {g : UInt64} (h : 0 < g.toNat) : (g - 1).toNat = g.toNat - 1 :=
  UInt64.toNat_sub_of_le _ _ (UInt64.le_iff_toNat_le.mpr h)

theorem toNat_min (a b : UInt64) : (min a b).toNat = min a.toNat b.toNat := by
  show (if a ≤ b then a else b).toNat = _
  split_ifs with h
  · exact (min_eq_left (UInt64.le_iff_toNat_le.mp h)).symm
  · rw [UInt64.le_iff_toNat_le] at h
    exact (min_eq_right (by omega)).symm

theorem toNat_max_zero (a : UInt64) : (max 0 a).toNat = a.toNat := by
  show (if 0 ≤ a then a else 0).toNat = _
  rw [if_pos (UInt64.le_iff_toNat_le.mpr (Nat.zero_le _))]

theorem toNat_toSizeT (platform : Platform) (n : ℤ) :
    (UInt64.ofNat (toSizeT platform n)).toNat = toSizeT platform n := by
  have hlt : toSizeT platform n < 2 ^ 64 := by
    unfold toSizeT
    split_ifs with h
    · omega
    · exact (platform.wildCast n).toNat_lt
  rw [UInt64.toNat_ofNat']
  exact Nat.mod_eq_of_lt hlt

theorem toNat_clamp (platform : Platform) {g : UInt64} (n : ℤ) (hg : 0 < g.toNat) :
    (min (g - 1) (UInt64.ofNat (toSizeT platform n))).toNat =
      min (gridBound g.toNat) (toSizeT platform n) := by
  rw [toNat_min, toNat_sub_one hg, toNat_toSizeT, gridBound_eq hg g.toNat_lt]

/-- Clamped to a grid that has rows and columns, the loops end, whatever the conversions
    give. -/
theorem collectIndices_clamped (platform : Platform) (hgridX : gridX ≠ 0) (hgridY : gridY ≠ 0)
    (hvel : ¬ (velX = 0 ∧ velY = 0)) :
    collectIndices (2 ^ 16) gridX
        (max 0 (UInt64.ofNat (toSizeT platform (boundingBox box tile velX velY).left)))
        (max 0 (UInt64.ofNat (toSizeT platform (boundingBox box tile velX velY).top)))
        (min (gridX.toUInt64 - 1)
          (UInt64.ofNat (toSizeT platform (boundingBox box tile velX velY).right)))
        (min (gridY.toUInt64 - 1)
          (UInt64.ofNat (toSizeT platform (boundingBox box tile velX velY).bottom))) =
      some (findCollisionIndices platform box tile gridX gridY velX velY) := by
  have hgx : gridX.toNat ≠ 0 := by simpa [UInt16.ext_iff] using hgridX
  have hgy : gridY.toNat ≠ 0 := by simpa [UInt8.ext_iff] using hgridY
  have hgxlt := gridX.toNat_lt
  have hgylt := gridY.toNat_lt
  have hcolumns := toNat_clamp platform (g := gridX.toUInt64)
    (boundingBox box tile velX velY).right (by simpa using by omega)
  have hrows := toNat_clamp platform (g := gridY.toUInt64)
    (boundingBox box tile velX velY).bottom (by simpa using by omega)
  rw [UInt16.toNat_toUInt64] at hcolumns
  rw [UInt8.toNat_toUInt64] at hrows
  have hboundX : gridBound gridX.toNat = gridX.toNat - 1 := gridBound_eq (by omega) (by omega)
  have hboundY : gridBound gridY.toNat = gridY.toNat - 1 := gridBound_eq (by omega) (by omega)
  rw [collectIndices_eq (by norm_num) (by rw [hcolumns, hboundX]; omega)
    (by rw [hrows, hboundY]; omega), hcolumns, hrows, toNat_max_zero, toNat_max_zero,
    toNat_toSizeT, toNat_toSizeT, findCollisionIndices, if_neg hvel]
  simp only [Nat.zero_max]

/-- Where the grid has a column, and a number of rows that is no multiple of 256, every sweep
    ends. -/
theorem sweepsEnd_of_grid {config : GameConfig} (platform : Platform) (hgridX : config.gridX ≠ 0)
    (hrows : config.gridY.toNat % 256 ≠ 0) : config.SweepsEnd platform := by
  have hgridY : config.gridY.toUInt8 ≠ 0 := by
    rw [Ne, UInt8.ext_iff, UInt16.toNat_toUInt8]
    exact hrows
  refine fun box velX velY => ⟨?_, fun i hi => lt_of_mem_sweepIndices hgridX hrows hi⟩
  by_cases hvel : velX = 0 ∧ velY = 0
  · exact .inl hvel
  · exact .inr ⟨_, collectIndices_clamped platform hgridX hgridY hvel⟩

/-- With defined conversions, `2 ^ 16` tests end every loop, and the indices are those of
    `findCollisionIndices`. -/
theorem findCollisionIndices?_eq (platform : Platform) (htile : tile ≠ 0) (hgridX : gridX ≠ 0)
    (hgridY : gridY ≠ 0) (hrep : Representable box tile velX velY) :
    findCollisionIndices? (2 ^ 16) box tile gridX gridY velX velY =
      some (findCollisionIndices platform box tile gridX gridY velX velY) := by
  obtain ⟨⟨hleft, hright⟩, htop, hbottom⟩ := (representable_iff htile).mp hrep
  unfold findCollisionIndices?
  split_ifs with hvel
  · rw [findCollisionIndices, if_pos hvel]
  · simp only [toSizeT?_eq_some.mpr ⟨hleft, rfl⟩, toSizeT?_eq_some.mpr ⟨htop, rfl⟩,
      toSizeT?_eq_some.mpr ⟨hright, rfl⟩, toSizeT?_eq_some.mpr ⟨hbottom, rfl⟩,
      Option.bind_eq_bind, Option.bind_some]
    rw [← @toSizeT_of_representable platform _ hleft,
      ← @toSizeT_of_representable platform _ htop,
      ← @toSizeT_of_representable platform _ hright,
      ← @toSizeT_of_representable platform _ hbottom]
    exact collectIndices_clamped platform hgridX hgridY hvel

theorem representable_of_eq_some (htile : tile ≠ 0) (hvel : ¬ (velX = 0 ∧ velY = 0))
    {l : List ℕ} (h : findCollisionIndices? fuel box tile gridX gridY velX velY = some l) :
    Representable box tile velX velY := by
  unfold findCollisionIndices? at h
  rw [if_neg hvel] at h
  simp only [Option.bind_eq_bind, Option.bind_eq_some_iff, toSizeT?_eq_some] at h
  obtain ⟨_, ⟨hleft, -⟩, _, ⟨htop, -⟩, _, ⟨hright, -⟩, _, ⟨hbottom, -⟩, -⟩ := h
  exact (representable_iff htile).mpr ⟨⟨hleft, hright⟩, htop, hbottom⟩

/-- `FindCollisionIndices` ends, makes only conversions that are defined, and returns the
    indices of the bounding box, clamped to the grid. -/
def FindsClampedBox (box : Box) (tile : UInt8) (gridX : UInt16) (gridY : UInt8)
    (velX velY : ℚ) : Prop :=
  ∃ fuel l, findCollisionIndices? fuel box tile gridX gridY velX velY = some l ∧
    ∀ i, i ∈ l ↔ ∃ x y, x < gridX.toNat ∧ y < gridY.toNat ∧
      (boundingBox box tile velX velY).Has x y ∧ i = y * gridX.toNat + x

theorem mem_findCollisionIndices_of_representable (platform : Platform) (htile : tile ≠ 0)
    (hgridX : gridX ≠ 0) (hgridY : gridY ≠ 0) (hvel : ¬ (velX = 0 ∧ velY = 0))
    (hrep : Representable box tile velX velY) {i : ℕ} :
    i ∈ findCollisionIndices platform box tile gridX gridY velX velY ↔
      ∃ x y, x < gridX.toNat ∧ y < gridY.toNat ∧
        (boundingBox box tile velX velY).Has x y ∧ i = y * gridX.toNat + x := by
  have hgx : gridX.toNat ≠ 0 := by simpa [UInt16.ext_iff] using hgridX
  have hgy : gridY.toNat ≠ 0 := by simpa [UInt8.ext_iff] using hgridY
  have hgxlt := gridX.toNat_lt
  have hgylt := gridY.toNat_lt
  have hindex : ∀ {x y : ℕ}, x < gridX.toNat → y < gridY.toNat →
      y * gridX.toNat + x < 2 ^ 64 := by
    intro x y hx hy
    have hmul : y * gridX.toNat ≤ 2 ^ 8 * 2 ^ 16 := Nat.mul_le_mul (by omega) (by omega)
    omega
  obtain ⟨⟨hleft, hright⟩, htop, hbottom⟩ := (representable_iff htile).mp hrep
  rw [mem_findCollisionIndices hvel, toSizeT_of_representable hleft,
    toSizeT_of_representable hright, toSizeT_of_representable htop,
    toSizeT_of_representable hbottom, gridBound_eq (by omega) (by omega),
    gridBound_eq (by omega) (by omega)]
  simp only [le_min_iff]
  constructor
  · rintro ⟨y, x, hty, ⟨hy, hyb⟩, hlx, ⟨hx, hxr⟩, rfl⟩
    refine ⟨x, y, by omega, by omega, ⟨?_, ?_, ?_, ?_⟩, Nat.mod_eq_of_lt (hindex ?_ ?_)⟩
    all_goals omega
  · rintro ⟨x, y, hx, hy, hhas, rfl⟩
    obtain ⟨h1, h2, h3, h4⟩ := hhas
    refine ⟨y, x, ?_, ⟨?_, ?_⟩, ?_, ⟨?_, ?_⟩, (Nat.mod_eq_of_lt (hindex hx hy)).symm⟩
    all_goals omega

/-- For every tile size and grid, every box and every velocity that is not zero: the
    candidates are found as the clamped bounding box exactly if no coordinate is negative
    and none reaches `2^64` tiles. -/
theorem findsClampedBox_iff (htile : tile ≠ 0) (hgridX : gridX ≠ 0) (hgridY : gridY ≠ 0)
    (hvel : ¬ (velX = 0 ∧ velY = 0)) :
    FindsClampedBox box tile gridX gridY velX velY ↔ Representable box tile velX velY := by
  constructor
  · rintro ⟨fuel, l, hl, -⟩
    exact representable_of_eq_some htile hvel hl
  · intro hrep
    refine ⟨2 ^ 16, _, findCollisionIndices?_eq .x86 htile hgridX hgridY hrep, fun i => ?_⟩
    exact mem_findCollisionIndices_of_representable .x86 htile hgridX hgridY hvel hrep

theorem findsClampedBox_iff_room :
    FindsClampedBox ⟨11, 11, 8, 8⟩ 10 4 4 20 (-5) ↔ Representable ⟨11, 11, 8, 8⟩ 10 20 (-5) :=
  findsClampedBox_iff (by decide) (by decide) (by decide) (by norm_num)

/-- A box that sticks out of the grid to the left: the conversion of its left edge is not
    defined; an x86-64 processor makes a large number of it, and no index is found. -/
theorem left_of_grid_not_found :
    (¬ ∀ (box : Box) (tile : UInt8) (gridX : UInt16) (gridY : UInt8) (velX velY : ℚ),
      tile ≠ 0 → gridX ≠ 0 → gridY ≠ 0 → ¬ (velX = 0 ∧ velY = 0) →
      FindsClampedBox box tile gridX gridY velX velY) ∧
    (boundingBox ⟨-5, 11, 8, 8⟩ 10 1 0).Has 0 1 ∧
    findCollisionIndices .x86 ⟨-5, 11, 8, 8⟩ 10 4 4 1 0 = [] := by
  refine ⟨?_, ?_, by decide +kernel⟩
  · intro hclaim
    obtain ⟨fuel, l, hl, -⟩ := hclaim ⟨-5, 11, 8, 8⟩ 10 4 4 1 0 (by decide) (by decide)
      (by decide) (by norm_num)
    have hrep := representable_of_eq_some (by decide) (by norm_num) hl
    have hleft := hrep.left
    norm_num at hleft
  · constructor <;> decide +kernel

end EndlessPeak
