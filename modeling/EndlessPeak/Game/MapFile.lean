import EndlessPeak.Game.Map
import EndlessPeak.Lib.Loop

/-!
# From the map file to the map of the world

Model of `Config::InitGameConfig` (`shared/config/config.cpp`, lines 36–88) as far as it
concerns the map, and of the map that the `World` constructor builds, with checked array
accesses and checked `int` products.

* `buildMap_eq`: the constructor builds `worldMap`, if the area of the grid is an `int`.
* `playsFile_iff`: which files are played as they are written.
-/

namespace EndlessPeak

open Lib

/-! ## The model -/

/-- How loading a map ends early: with an exception, a signed overflow, or an access past
    the end of an array. -/
inductive Failure where
  | rejected
  | overflow
  | outOfBounds
  deriving DecidableEq, Repr

/-- An integer of `nlohmann::json`: it is kept as `std::int64_t` or `std::uint64_t`. -/
structure JsonInteger where
  value : ℤ
  lo : -2 ^ 63 ≤ value
  hi : value < 2 ^ 64

/-- The conversion to `int` of `get<std::vector<int>>`. -/
def JsonInteger.toInt (v : JsonInteger) : Int32 := Int32.ofInt v.value

/-- The conversion to `std::uint8_t` when `tile_` is assigned. -/
def JsonInteger.toByte (v : JsonInteger) : UInt8 := UInt8.ofInt v.value

/-- The conversion of an `int` to a cell of the map, a `std::uint8_t`. -/
def narrowCell (v : Int32) : UInt8 := UInt8.ofInt v.toInt

/-- A map file with the integers `grid_x`, `grid_y` and `tile`. The `map` is an array of
    integers, or `none` where `get<std::vector<int>>` throws. -/
structure MapFile where
  gridX : UInt16
  gridY : UInt16
  tile : JsonInteger
  map : Option (List JsonInteger)

/-- `grid_x * grid_y`, a product of type `int`. -/
def intArea (gridX gridY : UInt16) : Except Failure ℕ :=
  if gridX.toNat * gridY.toNat < 2 ^ 31 then .ok (gridX.toNat * gridY.toNat)
  else .error .overflow

/-- The body of the loop "Copy map". -/
def copyCell (tmp : List Int32) (map : List UInt8) (i : ℕ) : Except Failure (List UInt8) := do
  let v ← readAt .outOfBounds tmp i
  writeCell .outOfBounds map i (narrowCell v)

/-- "Copy map": the array of the file, cell by cell, into a map of `area` cells. -/
def copyMap (area : ℕ) (tmp : List Int32) : Except Failure (List UInt8) :=
  (List.range area).foldlM (copyCell tmp) (List.replicate area 0)

/-- The inner body of the loops "Debug map". -/
def printCell (map : List UInt8) (y : ℕ) (out : List ℕ) (x : ℕ) : Except Failure (List ℕ) := do
  let v ← readAt .outOfBounds map (y * 25 + x)
  .ok (out ++ [v.toNat])

/-- "Debug map": the numbers that are printed. -/
def printMap (map : List UInt8) : Except Failure (List ℕ) :=
  (List.range 25).foldlM (fun out y => (List.range 25).foldlM (printCell map y) out) []

theorem length_copyMap {area : ℕ} {tmp : List Int32} {map : List UInt8}
    (h : copyMap area tmp = .ok map) : map.length = area := by
  refine foldlM_range_inv (P := fun map => map.length = area) h List.length_replicate ?_
  intro i s s' hlen hbody
  obtain ⟨v, -, hwrite⟩ := bind_eq_ok.mp hbody
  rw [length_of_writeCell hwrite, hlen]

/-- `Config::InitGameConfig`; the player's part has been read from its own file. -/
def initGameConfig (file : MapFile) (player : PlayerConfig) : Except Failure GameConfig := do
  let _ ← intArea file.gridX file.gridY
  match file.map with
  | none => .error .rejected
  | some entries =>
    match h : copyMap (file.gridX.toNat * file.gridY.toNat) (entries.map JsonInteger.toInt) with
    | .error failure => .error failure
    | .ok map => do
      let _ ← printMap map
      .ok { tile := file.tile.toByte, gridX := file.gridX, gridY := file.gridY, map := map,
            player := player, length_map := length_copyMap h }

/-- The inner body of the loops of the `World` constructor. -/
def buildCell (config : GameConfig) (y : ℕ) (map : List Tile) (x : ℕ) :
    Except Failure (List Tile) := do
  let index := (y * config.gridX.toNat + x) % 2 ^ 64
  let cell ← readAt .outOfBounds config.map index
  if cell ≠ 0 then
    writeCell .outOfBounds map index
      { x := (x : ℚ) * (config.tile.toNat : ℚ), y := (y : ℚ) * (config.tile.toNat : ℚ),
        width := config.tile, height := config.tile, type := .solid }
  else .ok map

/-- The `World` constructor: the map it builds. -/
def buildMap (config : GameConfig) : Except Failure (List Tile) := do
  let area ← intArea config.gridX config.gridY
  (List.range config.gridY.toNat).foldlM (fun map y =>
    (List.range config.gridX.toNat).foldlM (buildCell config y) map)
    (List.replicate area Tile.default)

/-- The configuration and the map that a file leads to. -/
def loadMap (file : MapFile) (player : PlayerConfig) :
    Except Failure (GameConfig × List Tile) := do
  let config ← initGameConfig file player
  let map ← buildMap config
  .ok (config, map)

/-! ## The loops -/

section Loops

variable {area : ℕ} {tmp : List Int32} {cells : List UInt8}

theorem copyMap_ok (h : area ≤ tmp.length) : ∃ cells, copyMap area tmp = .ok cells ∧
    ∀ i < area, cells[i]? = tmp[i]?.map narrowCell := by
  have hloop : ∃ cells, copyMap area tmp = .ok cells ∧ cells.length = area ∧
      ∀ i < area, cells[i]? = tmp[i]?.map narrowCell := by
    refine foldlM_range_ok (P := fun i (cells : List UInt8) => cells.length = area ∧
      ∀ j < i, cells[j]? = tmp[j]?.map narrowCell) ⟨List.length_replicate, by simp⟩ ?_
    rintro i cells hi ⟨hlen, hdone⟩
    have hread : tmp[i]? = some tmp[i] := List.getElem?_eq_getElem (by omega)
    refine ⟨cells.set i (narrowCell tmp[i]), ?_, by simpa using hlen, ?_⟩
    · unfold copyCell
      rw [bind_eq_ok]
      exact ⟨_, readAt_eq_ok.mpr hread, writeCell_of_lt (by omega)⟩
    · intro j hj
      rcases Nat.lt_succ_iff_lt_or_eq.mp hj with hlt | rfl
      · rw [List.getElem?_set_ne (by omega), hdone j hlt]
      · rw [List.getElem?_set_self (by omega), hread]
        rfl
  obtain ⟨cells, hcells, -, hall⟩ := hloop
  exact ⟨cells, hcells, hall⟩

theorem le_length_of_copyMap (h : copyMap area tmp = .ok cells) : area ≤ tmp.length := by
  by_contra hlt
  obtain ⟨u, u', hstep⟩ := foldlM_range_step h (i := tmp.length) (by omega)
  obtain ⟨v, hread, -⟩ := bind_eq_ok.mp hstep
  rw [readAt_eq_ok, List.getElem?_eq_none (le_refl _)] at hread
  cases hread

theorem error_of_copyMap {failure : Failure} (h : copyMap area tmp = .error failure) :
    failure = .outOfBounds := by
  obtain ⟨u, i, hstep⟩ := foldlM_range_error h
  rcases bind_eq_error.mp hstep with hread | ⟨v, -, hwrite⟩
  · exact error_of_readAt hread
  · exact error_of_writeCell hwrite

/-- The printout reads `25 * 25` cells. -/
theorem printMap_ok (h : 625 ≤ cells.length) : ∃ out, printMap cells = .ok out := by
  have hcell : ∀ y < 25, ∀ x < 25, ∀ out, ∃ out', printCell cells y out x = .ok out' := by
    intro y hy x hx out
    have hread : cells[y * 25 + x]? = some cells[y * 25 + x] :=
      List.getElem?_eq_getElem (by omega)
    exact ⟨_, bind_eq_ok.mpr ⟨_, readAt_eq_ok.mpr hread, rfl⟩⟩
  have hrow : ∀ y < 25, ∀ out, ∃ out', (List.range 25).foldlM (printCell cells y) out =
      .ok out' := by
    intro y hy out
    obtain ⟨out', hout, -⟩ := foldlM_range_ok (P := fun _ _ => True) (s := out) (n := 25) trivial
      fun x out hx _ => (hcell y hy x hx out).imp fun out' h => ⟨h, trivial⟩
    exact ⟨out', hout⟩
  obtain ⟨out, hout, -⟩ := foldlM_range_ok (P := fun _ _ => True) (s := []) (n := 25) trivial
    fun y out hy _ => (hrow y hy out).imp fun out' h => ⟨h, trivial⟩
  exact ⟨out, hout⟩

theorem le_length_of_printMap {out : List ℕ} (h : printMap cells = .ok out) :
    625 ≤ cells.length := by
  obtain ⟨u, u', hrow⟩ := foldlM_range_step h (i := 24) (by omega)
  obtain ⟨v, v', hcell⟩ := foldlM_range_step hrow (i := 24) (by omega)
  obtain ⟨c, hread, -⟩ := bind_eq_ok.mp hcell
  rw [readAt_eq_ok] at hread
  obtain ⟨hlt, -⟩ := List.getElem?_eq_some_iff.mp hread
  omega

theorem error_of_printMap {failure : Failure} (h : printMap cells = .error failure) :
    failure = .outOfBounds := by
  obtain ⟨u, y, hrow⟩ := foldlM_range_error h
  obtain ⟨v, x, hcell⟩ := foldlM_range_error hrow
  rcases bind_eq_error.mp hcell with hread | ⟨c, -, hok⟩
  · exact error_of_readAt hread
  · cases hok

end Loops

/-- The tile at an index of the map. -/
def GameConfig.tileOf (config : GameConfig) (i : ℕ) : Tile :=
  config.tileAt (i % config.gridX.toNat) (i / config.gridX.toNat)

/-- What the constructor has built after the first `i` cells. -/
structure BuiltTo (config : GameConfig) (i : ℕ) (map : List Tile) : Prop where
  length : map.length = config.gridX.toNat * config.gridY.toNat
  done : ∀ j < i, map[j]? = some (config.tileOf j)
  rest : ∀ j, i ≤ j → j < config.gridX.toNat * config.gridY.toNat →
    map[j]? = some Tile.default

variable {config : GameConfig} {map : List Tile} {x y : ℕ}

theorem BuiltTo.succ {i : ℕ} {map' : List Tile} (h : BuiltTo config i map)
    (hlen : map'.length = map.length) (hset : map'[i]? = some (config.tileOf i))
    (hsame : ∀ j, j ≠ i → map'[j]? = map[j]?) : BuiltTo config (i + 1) map' where
  length := hlen.trans h.length
  done j hj := by
    rcases Nat.lt_succ_iff_lt_or_eq.mp hj with hlt | rfl
    · rw [hsame j (by omega), h.done j hlt]
    · exact hset
  rest j hj hlt := by rw [hsame j (by omega), h.rest j (by omega) hlt]

theorem exists_index {i : ℕ} (hi : i < config.gridX.toNat * config.gridY.toNat) :
    ∃ x y, x < config.gridX.toNat ∧ y < config.gridY.toNat ∧ i = y * config.gridX.toNat + x := by
  have hgx : 0 < config.gridX.toNat := Nat.pos_of_ne_zero fun h0 => by simp [h0] at hi
  refine ⟨i % config.gridX.toNat, i / config.gridX.toNat, Nat.mod_lt i hgx,
    Nat.div_lt_of_lt_mul hi, ?_⟩
  rw [Nat.mul_comm, Nat.div_add_mod]

theorem tileOf_index (hx : x < config.gridX.toNat) :
    config.tileOf (y * config.gridX.toNat + x) = config.tileAt x y := by
  unfold GameConfig.tileOf
  rw [Nat.mul_add_mod', Nat.mod_eq_of_lt hx, Nat.mul_comm y, Nat.mul_add_div (by omega),
    Nat.div_eq_of_lt hx, Nat.add_zero]

/-- One cell is built: every index that is read and written is one of the grid. -/
theorem buildCell_ok (hx : x < config.gridX.toNat) (hy : y < config.gridY.toNat)
    (h : BuiltTo config (y * config.gridX.toNat + x) map) :
    ∃ map', buildCell config y map x = .ok map' ∧
      BuiltTo config (y * config.gridX.toNat + (x + 1)) map' := by
  have hlt := config.index_lt_area hx hy
  have hindex : (y * config.gridX.toNat + x) % 2 ^ 64 = y * config.gridX.toNat + x :=
    Nat.mod_eq_of_lt (index_lt hx hy)
  have hread : readAt Failure.outOfBounds config.map (y * config.gridX.toNat + x) =
      .ok (config.cell (y * config.gridX.toNat + x)) := by
    have hbound : y * config.gridX.toNat + x < config.map.length := by
      rw [config.length_map]
      exact hlt
    simp [readAt_eq_ok, GameConfig.cell, hbound]
  have htile : config.tileOf (y * config.gridX.toNat + x) = config.tileAt x y := tileOf_index hx
  rw [← Nat.add_assoc]
  by_cases hcell : config.cell (y * config.gridX.toNat + x) = 0
  · -- an empty cell keeps the tile that the vector was filled with
    refine ⟨map, ?_, h.succ rfl ?_ fun _ _ => rfl⟩
    · unfold buildCell
      rw [hindex, bind_eq_ok]
      refine ⟨_, hread, ?_⟩
      rw [if_neg (not_not_intro hcell)]
    · rw [htile, h.rest _ le_rfl hlt]
      simp [GameConfig.tileAt, hcell]
  · have hwrite : y * config.gridX.toNat + x < map.length := by
      rw [h.length]
      exact hlt
    refine ⟨map.set (y * config.gridX.toNat + x) (config.tileAt x y), ?_,
      h.succ List.length_set ?_ fun j hj => List.getElem?_set_ne hj.symm⟩
    · unfold buildCell
      rw [hindex, bind_eq_ok]
      refine ⟨_, hread, ?_⟩
      rw [if_pos hcell, writeCell_of_lt hwrite, GameConfig.tileAt, if_pos hcell]
    · rw [htile, List.getElem?_set_self hwrite]

/-- The constructor builds `worldMap`, if the area of the grid is an `int`. -/
theorem buildMap_eq (harea : config.gridX.toNat * config.gridY.toNat < 2 ^ 31) :
    buildMap config = .ok config.worldMap := by
  have hrow : ∀ y map, y < config.gridY.toNat → BuiltTo config (y * config.gridX.toNat) map →
      ∃ map', (List.range config.gridX.toNat).foldlM (buildCell config y) map = .ok map' ∧
        BuiltTo config ((y + 1) * config.gridX.toNat) map' := by
    intro y map hy h
    rw [Nat.add_mul, Nat.one_mul]
    exact foldlM_range_ok (P := fun x map => BuiltTo config (y * config.gridX.toNat + x) map) h
      fun x map hx hbuilt => buildCell_ok hx hy hbuilt
  have hstart : BuiltTo config (0 * config.gridX.toNat)
      (List.replicate (config.gridX.toNat * config.gridY.toNat) Tile.default) := by
    rw [Nat.zero_mul]
    refine ⟨List.length_replicate, by simp, fun j _ hj => ?_⟩
    rw [List.getElem?_replicate, if_pos hj]
  obtain ⟨map, hmap, hbuilt⟩ := foldlM_range_ok
    (P := fun y map => BuiltTo config (y * config.gridX.toNat) map) hstart
    fun y map hy h => hrow y map hy h
  have heq : map = config.worldMap := by
    apply List.ext_getElem?
    intro i
    rcases Nat.lt_or_ge i (config.gridX.toNat * config.gridY.toNat) with hi | hi
    · obtain ⟨x, y, hx, hy, rfl⟩ := exists_index hi
      rw [config.getElem?_worldMap hx hy, ← tileOf_index hx]
      apply hbuilt.done
      rwa [Nat.mul_comm config.gridY.toNat]
    · rw [List.getElem?_eq_none (by rw [hbuilt.length]; exact hi),
        List.getElem?_eq_none (by rw [config.length_worldMap]; exact hi)]
  unfold buildMap
  rw [bind_eq_ok]
  exact ⟨_, if_pos harea, heq ▸ hmap⟩

/-! ## What a file loads to -/

section Loading

variable {file : MapFile} {player : PlayerConfig} {entries : List JsonInteger}

/-- The number of cells of the grid. -/
def MapFile.area (file : MapFile) : ℕ := file.gridX.toNat * file.gridY.toNat

theorem narrowCell_toInt (v : JsonInteger) : narrowCell v.toInt = UInt8.ofInt v.value := by
  have hmod : v.value.bmod Int32.size % 2 ^ 8 = v.value % 2 ^ 8 := by
    obtain ⟨k, hk⟩ := Int.dvd_self_sub_bmod (x := v.value) (m := Int32.size)
    have hsize : (Int32.size : ℤ) = 2 ^ 32 := rfl
    rw [hsize] at hk
    omega
  unfold narrowCell JsonInteger.toInt UInt8.ofInt
  rw [Int32.toInt_ofInt, hmod]

/-- An integer narrowed to a byte, in the arithmetic of `double`. -/
theorem toNat_ofInt_uint8 (v : ℤ) : ((UInt8.ofInt v).toNat : ℤ) = v % 2 ^ 8 := by
  have hlo := Int.emod_nonneg v (b := 2 ^ 8) (by norm_num)
  have hhi := Int.emod_lt_of_pos v (b := 2 ^ 8) (by norm_num)
  unfold UInt8.ofInt
  rw [UInt8.toNat_ofNat', Nat.mod_eq_of_lt (by omega), Int.toNat_of_nonneg hlo]

theorem ofInt_eq_zero {v : ℤ} : UInt8.ofInt v = 0 ↔ 256 ∣ v := by
  have htoNat := toNat_ofInt_uint8 v
  constructor
  · intro h
    rw [h] at htoNat
    have hzero : (0 : ℤ) = v % 2 ^ 8 := htoNat
    omega
  · intro h
    have hzero : (UInt8.ofInt v).toNat = 0 := by omega
    exact UInt8.toNat_inj.mp hzero

theorem intArea_eq_ok {area : ℕ} : intArea file.gridX file.gridY = .ok area ↔
    file.area < 2 ^ 31 ∧ area = file.area := by
  unfold intArea MapFile.area
  by_cases harea : file.gridX.toNat * file.gridY.toNat < 2 ^ 31
  · rw [if_pos harea, Except.ok.injEq]
    exact ⟨fun h => ⟨harea, h.symm⟩, fun h => h.2.symm⟩
  · rw [if_neg harea]
    constructor
    · intro h
      cases h
    · exact fun h => absurd h.1 harea

/-- The configuration that a file with an array is loaded to. -/
structure Loaded (file : MapFile) (entries : List JsonInteger) (config : GameConfig) : Prop where
  map : file.map = some entries
  area_lt : file.area < 2 ^ 31
  prints : 625 ≤ file.area
  length : file.area ≤ entries.length
  gridX : config.gridX = file.gridX
  gridY : config.gridY = file.gridY
  tile : config.tile = file.tile.toByte
  cell : ∀ i v, i < file.area → entries[i]? = some v → config.cell i = UInt8.ofInt v.value

theorem initGameConfig_ok (hmap : file.map = some entries) (harea : file.area < 2 ^ 31)
    (hprint : 625 ≤ file.area) (hlen : file.area ≤ entries.length) :
    ∃ config, initGameConfig file player = .ok config ∧ Loaded file entries config := by
  have hints : file.area ≤ (entries.map JsonInteger.toInt).length := by
    rwa [List.length_map]
  obtain ⟨cells, hcells, hcell⟩ := copyMap_ok hints
  have hcount : 625 ≤ cells.length := by
    rwa [length_copyMap hcells]
  obtain ⟨out, hout⟩ := printMap_ok hcount
  refine ⟨⟨file.tile.toByte, file.gridX, file.gridY, cells, player, length_copyMap hcells⟩,
    ?_, ⟨hmap, harea, hprint, hlen, rfl, rfl, rfl, ?_⟩⟩
  · unfold initGameConfig
    rw [bind_eq_ok]
    refine ⟨_, intArea_eq_ok.mpr ⟨harea, rfl⟩, ?_⟩
    rw [hmap]
    dsimp only
    split
    · rename_i failure hfailure
      cases hcells.symm.trans hfailure
    · rename_i cells' hcells'
      cases hcells.symm.trans hcells'
      exact bind_eq_ok.mpr ⟨_, hout, rfl⟩
  · intro i v hi hv
    unfold GameConfig.cell
    rw [List.getD_eq_getElem?_getD, hcell i hi, List.getElem?_map, hv]
    exact narrowCell_toInt v

theorem loaded_of_initGameConfig {config : GameConfig}
    (h : initGameConfig file player = .ok config) : ∃ entries, Loaded file entries config := by
  have hlens : file.area < 2 ^ 31 ∧ ∃ entries, file.map = some entries ∧ 625 ≤ file.area ∧
      file.area ≤ entries.length := by
    obtain ⟨area, harea, h⟩ := bind_eq_ok.mp h
    refine ⟨(intArea_eq_ok.mp harea).1, ?_⟩
    split at h
    · cases h
    · rename_i entries hmap
      split at h
      · cases h
      · rename_i cells hcells
        obtain ⟨out, hout, -⟩ := bind_eq_ok.mp h
        have hprint := le_length_of_printMap hout
        rw [length_copyMap hcells] at hprint
        have hlen := le_length_of_copyMap hcells
        rw [List.length_map] at hlen
        exact ⟨entries, hmap, hprint, hlen⟩
  obtain ⟨harea, entries, hmap, hprint, hlen⟩ := hlens
  obtain ⟨config', hconfig', hloaded⟩ :=
    initGameConfig_ok hmap harea hprint hlen
  cases h.symm.trans hconfig'
  exact ⟨entries, hloaded⟩

/-- Once the file is loaded, the constructor builds the map. -/
theorem Loaded.loadMap {config : GameConfig} (h : Loaded file entries config)
    (hinit : initGameConfig file player = .ok config) :
    loadMap file player = .ok (config, config.worldMap) := by
  have harea : config.gridX.toNat * config.gridY.toNat < 2 ^ 31 := by
    rw [h.gridX, h.gridY]
    exact h.area_lt
  exact bind_eq_ok.mpr ⟨config, hinit, bind_eq_ok.mpr ⟨_, buildMap_eq harea, rfl⟩⟩

theorem of_initGameConfig_rejected (h : initGameConfig file player = .error .rejected) :
    file.area < 2 ^ 31 ∧ file.map = none := by
  rcases bind_eq_error.mp h with harea | ⟨area, harea, h⟩
  · unfold intArea at harea
    split_ifs at harea
    cases harea
  refine ⟨(intArea_eq_ok.mp harea).1, ?_⟩
  split at h
  · assumption
  · split at h
    · rename_i failure hfailure
      cases h
      cases error_of_copyMap hfailure
    · rcases bind_eq_error.mp h with hprint | ⟨out, -, hok⟩
      · cases error_of_printMap hprint
      · cases hok

/-! ## The map in the file -/

/-- What the file says about a tile: `v` is the entry of cell `(x, y)`. -/
def MapFile.SaysTile (file : MapFile) (x y : ℕ) (v : JsonInteger) (t : Tile) : Prop :=
  (v.value ≠ 0 → t.type = .solid ∧ t.x = (x : ℚ) * (file.tile.value : ℚ) ∧
    t.y = (y : ℚ) * (file.tile.value : ℚ)) ∧
  (v.value = 0 → t.type = .empty)

/-- The file is rejected, or every tile of the map is as the file says; no array is accessed
    outside its bounds and no product overflows. -/
def PlaysFile (file : MapFile) (player : PlayerConfig) : Prop :=
  loadMap file player = .error .rejected ∨
    ∃ config map entries, loadMap file player = .ok (config, map) ∧ file.map = some entries ∧
      ∀ x y, x < file.gridX.toNat → y < file.gridY.toNat →
        ∃ v t, entries[y * file.gridX.toNat + x]? = some v ∧
          map[y * file.gridX.toNat + x]? = some t ∧ file.SaysTile x y v t

/-- An entry that keeps its meaning in a byte: it is zero, or it is not a multiple of 256 and
    its tile is at the origin or the size of a tile is a byte. -/
def MapFile.KeepsEntry (file : MapFile) (i : ℕ) (v : JsonInteger) : Prop :=
  v.value ≠ 0 → ¬ 256 ∣ v.value ∧ (i = 0 ∨ 0 ≤ file.tile.value ∧ file.tile.value < 256)

/-- The area of the grid is an `int`, and if there is an array, it has an entry for each cell,
    the grid has enough cells for the printout, and each entry keeps its meaning. -/
def MapFile.Fits (file : MapFile) : Prop :=
  file.area < 2 ^ 31 ∧ ∀ entries, file.map = some entries →
    625 ≤ file.area ∧ file.area ≤ entries.length ∧
      ∀ i v, i < file.area → entries[i]? = some v → file.KeepsEntry i v

theorem Loaded.index_lt {config : GameConfig} {x y : ℕ} (h : Loaded file entries config)
    (hx : x < config.gridX.toNat) (hy : y < config.gridY.toNat) :
    y * config.gridX.toNat + x < file.area := by
  have hlt := config.index_lt_area hx hy
  unfold MapFile.area
  rwa [← h.gridX, ← h.gridY]

theorem index_eq_zero_iff {config : GameConfig} {x y : ℕ} (hx : x < config.gridX.toNat) :
    y * config.gridX.toNat + x = 0 ↔ x = 0 ∧ y = 0 := by
  rw [Nat.add_eq_zero_iff, Nat.mul_eq_zero]
  omega

/-- A coordinate is what the file says, if the size of a tile is a byte. -/
theorem Loaded.coordinate_iff {config : GameConfig} (h : Loaded file entries config) (n : ℕ) :
    (n : ℚ) * (config.tile.toNat : ℚ) = (n : ℚ) * (file.tile.value : ℚ) ↔
      n = 0 ∨ 0 ≤ file.tile.value ∧ file.tile.value < 256 := by
  have hsize : (config.tile.toNat : ℤ) = file.tile.value % 2 ^ 8 := by
    rw [h.tile]
    exact toNat_ofInt_uint8 _
  have hcast : ((config.tile.toNat : ℤ) : ℚ) = (config.tile.toNat : ℚ) := Int.cast_natCast _
  rw [← hcast, mul_eq_mul_left_iff, Int.cast_inj, hsize, or_comm, Nat.cast_eq_zero]
  apply or_congr_right
  omega

/-- Entry `i` as the world shows it, if the configuration holds it narrowed to a byte. -/
theorem Loaded.saysTile_iff {config : GameConfig} {x y : ℕ} {v : JsonInteger}
    (h : Loaded file entries config) (hx : x < config.gridX.toNat) (hy : y < config.gridY.toNat)
    (hv : entries[y * config.gridX.toNat + x]? = some v) :
    file.SaysTile x y v (config.tileAt x y) ↔
      file.KeepsEntry (y * config.gridX.toNat + x) v := by
  have hcell := h.cell _ v (h.index_lt hx hy) hv
  unfold MapFile.SaysTile MapFile.KeepsEntry
  rw [index_eq_zero_iff hx]
  by_cases hdvd : 256 ∣ v.value
  · have htile : config.tileAt x y = Tile.default :=
      if_neg (not_not_intro (hcell.trans (ofInt_eq_zero.mpr hdvd)))
    rw [htile]
    constructor
    · intro h hv
      cases (h.1 hv).1
    · exact fun h => ⟨fun hv => absurd hdvd (h hv).1, fun _ => rfl⟩
  · have hv : v.value ≠ 0 := fun h0 => hdvd (h0 ▸ dvd_zero 256)
    have hne : config.cell (y * config.gridX.toNat + x) ≠ 0 :=
      fun h0 => hdvd (ofInt_eq_zero.mp (hcell.symm.trans h0))
    have htype : (config.tileAt x y).type = .solid := by
      unfold GameConfig.tileAt
      rw [if_pos hne]
    have hx : (config.tileAt x y).x = (x : ℚ) * (config.tile.toNat : ℚ) := by
      unfold GameConfig.tileAt
      rw [if_pos hne]
    have hy : (config.tileAt x y).y = (y : ℚ) * (config.tile.toNat : ℚ) := by
      unfold GameConfig.tileAt
      rw [if_pos hne]
    rw [htype, hx, hy, h.coordinate_iff, h.coordinate_iff]
    constructor
    · intro h _
      obtain ⟨-, hx, hy⟩ := h.1 hv
      exact ⟨hdvd, by omega⟩
    · intro h
      have hsize := (h hv).2
      exact ⟨fun _ => ⟨rfl, by omega, by omega⟩, fun h0 => absurd h0 hv⟩

theorem PlaysFile.fits (h : PlaysFile file player) : file.Fits := by
  rcases h with hrejected | ⟨config, map, entries, hload, hmap, hall⟩
  · have hinit : initGameConfig file player = .error .rejected := by
      rcases bind_eq_error.mp hrejected with h | ⟨config, hconfig, -⟩
      · exact h
      · obtain ⟨entries, hloaded⟩ := loaded_of_initGameConfig hconfig
        cases hrejected.symm.trans (hloaded.loadMap hconfig)
    obtain ⟨harea, hnone⟩ := of_initGameConfig_rejected hinit
    refine ⟨harea, fun entries hmap => ?_⟩
    rw [hnone] at hmap
    cases hmap
  · obtain ⟨config', hconfig, -⟩ := bind_eq_ok.mp hload
    obtain ⟨entries', h⟩ := loaded_of_initGameConfig hconfig
    cases hload.symm.trans (h.loadMap hconfig)
    cases hmap.symm.trans h.map
    refine ⟨h.area_lt, fun entries' hmap' => ?_⟩
    cases hmap.symm.trans hmap'
    refine ⟨h.prints, h.length, fun i v hi hv => ?_⟩
    unfold MapFile.area at hi
    rw [← h.gridX, ← h.gridY] at hi hall
    obtain ⟨x, y, hx, hy, rfl⟩ := exists_index hi
    obtain ⟨v', t, hv', ht, hsays⟩ := hall x y hx hy
    cases hv.symm.trans hv'
    cases ht.symm.trans (config.getElem?_worldMap hx hy)
    exact (h.saysTile_iff hx hy hv).mp hsays

theorem MapFile.Fits.plays (h : file.Fits) : PlaysFile file player := by
  obtain ⟨harea, hfits⟩ := h
  cases hmap : file.map with
  | none =>
    left
    apply bind_eq_error.mpr
    left
    apply bind_eq_error.mpr
    right
    exact ⟨_, intArea_eq_ok.mpr ⟨harea, rfl⟩, by rw [hmap]⟩
  | some entries =>
    obtain ⟨hprint, hlen, hkeeps⟩ := hfits entries hmap
    obtain ⟨config, hconfig, hloaded⟩ := initGameConfig_ok hmap harea hprint hlen
    refine .inr ⟨config, _, entries, hloaded.loadMap hconfig, hmap, ?_⟩
    rw [← hloaded.gridX, ← hloaded.gridY]
    intro x y hx hy
    have hlt : y * config.gridX.toNat + x < file.area := hloaded.index_lt hx hy
    have hv : entries[y * config.gridX.toNat + x]? = some entries[y * config.gridX.toNat + x] :=
      List.getElem?_eq_getElem (by omega)
    exact ⟨_, _, hv, config.getElem?_worldMap hx hy,
      (hloaded.saysTile_iff hx hy hv).mpr (hkeeps _ _ hlt hv)⟩

/-- A file is played as it is written exactly if it fits. -/
theorem playsFile_iff (file : MapFile) (player : PlayerConfig) :
    PlaysFile file player ↔ file.Fits := by
  constructor
  · exact PlaysFile.fits
  · exact MapFile.Fits.plays

end Loading

/-- A byte as an integer of a file. -/
def JsonInteger.ofByte (v : UInt8) : JsonInteger where
  value := v.toNat
  lo := by omega
  hi := by
    have hlt := v.toNat_lt
    omega

/-- The file of `GameConfig.room`. -/
def roomFile : MapFile where
  gridX := 4
  gridY := 4
  tile := .ofByte 10
  map := some (GameConfig.room.map.map .ofByte)

/-- The printout of a map of four by four cells reads past its end. -/
theorem room_printed_past_end :
    loadMap roomFile GameConfig.room.player = .error .outOfBounds ∧
      ¬ ∀ (file : MapFile) (player : PlayerConfig), PlaysFile file player := by
  have hload : loadMap roomFile GameConfig.room.player = .error .outOfBounds := rfl
  refine ⟨hload, fun hall => ?_⟩
  rcases hall roomFile GameConfig.room.player with h | ⟨config, map, entries, h, -⟩
  · cases hload.symm.trans h
  · cases hload.symm.trans h

end EndlessPeak
