import Mathlib.Data.List.AList
import EndlessPeak.Lib.Sweep
import EndlessPeak.Protocol.NetPacket

/-!
# Boxes, players, tiles and the game configuration

Models of `IBox` and `Tile` (`game/tile`), `Player` (`game/player`), the game part
of `Config` (`shared/config/config.hpp`) and the map the `World` constructor
builds (`game/world/world.cpp`, lines 21–43). A class that implements `IBox`
extends `Box`. Doubles are read as rationals.

What a run takes from its surroundings beyond what the language defines is
collected in `Platform`; the results hold for every platform.

* `getElem?_worldMap`: the tile at `(x, y)` sits at index `y * grid_x + x`.
-/

namespace EndlessPeak

open Lib

/-! ## Boxes and players -/

/-- `class IBox`. -/
structure Box where
  x : ℚ
  y : ℚ
  width : UInt8
  height : UInt8
  deriving DecidableEq, Repr

namespace Box

/-- `GetWidth()` in an arithmetic expression. -/
def w (b : Box) : ℚ := (b.width.toNat : ℚ)

/-- `GetHeight()` in an arithmetic expression. -/
def h (b : Box) : ℚ := (b.height.toNat : ℚ)

/-- The rectangle a box covers. -/
def rect (b : Box) : Rect ℚ := ⟨b.x, b.y, b.w, b.h⟩

/-- `b` moved by `(dx, dy)`. -/
def move (b : Box) (dx dy : ℚ) : Box := { b with x := b.x + dx, y := b.y + dy }

@[simp] theorem rect_move (b : Box) (dx dy : ℚ) : (b.move dx dy).rect = b.rect.shift dx dy := rfl

end Box

theorem cast_toNat_pos {v : UInt8} (h : v ≠ 0) : (0 : ℚ) < (v.toNat : ℚ) := by
  have hne : v.toNat ≠ 0 := by simpa [UInt8.ext_iff] using h
  exact_mod_cast Nat.pos_of_ne_zero hne

/-- `class Player`. -/
structure Player extends Box where
  id : UInt64
  velX : ℚ
  velY : ℚ
  onGround : Bool
  deriving DecidableEq, Repr

namespace Player

/-- `Move`. -/
def move (p : Player) (dx dy : ℚ) : Player := { p with toBox := p.toBox.move dx dy }

/-- `SetVel`. -/
def setVel (p : Player) (velX velY : ℚ) : Player := { p with velX, velY }

/-- `SetOnGround`. -/
def setOnGround (p : Player) (state : Bool) : Player := { p with onGround := state }

@[simp] theorem move_zero (p : Player) : p.move 0 0 = p := by simp [move, Box.move]

@[simp] theorem move_toBox (p : Player) (dx dy : ℚ) :
    (p.move dx dy).toBox = p.toBox.move dx dy := rfl
@[simp] theorem move_id (p : Player) (dx dy : ℚ) : (p.move dx dy).id = p.id := rfl
@[simp] theorem move_velX (p : Player) (dx dy : ℚ) : (p.move dx dy).velX = p.velX := rfl
@[simp] theorem move_velY (p : Player) (dx dy : ℚ) : (p.move dx dy).velY = p.velY := rfl
@[simp] theorem move_onGround (p : Player) (dx dy : ℚ) : (p.move dx dy).onGround = p.onGround := rfl
@[simp] theorem setVel_toBox (p : Player) (vx vy : ℚ) : (p.setVel vx vy).toBox = p.toBox := rfl
@[simp] theorem setVel_id (p : Player) (vx vy : ℚ) : (p.setVel vx vy).id = p.id := rfl
@[simp] theorem setVel_velX (p : Player) (vx vy : ℚ) : (p.setVel vx vy).velX = vx := rfl
@[simp] theorem setVel_velY (p : Player) (vx vy : ℚ) : (p.setVel vx vy).velY = vy := rfl
@[simp] theorem setVel_onGround (p : Player) (vx vy : ℚ) :
    (p.setVel vx vy).onGround = p.onGround := rfl
@[simp] theorem setOnGround_toBox (p : Player) (b : Bool) : (p.setOnGround b).toBox = p.toBox := rfl
@[simp] theorem setOnGround_id (p : Player) (b : Bool) : (p.setOnGround b).id = p.id := rfl
@[simp] theorem setOnGround_velX (p : Player) (b : Bool) : (p.setOnGround b).velX = p.velX := rfl
@[simp] theorem setOnGround_velY (p : Player) (b : Bool) : (p.setOnGround b).velY = p.velY := rfl
@[simp] theorem setOnGround_onGround (p : Player) (b : Bool) : (p.setOnGround b).onGround = b := rfl

end Player

/-! ## Tiles and configuration -/

/-- `enum class TileType`. -/
inductive TileType where
  | empty
  | solid
  deriving DecidableEq, Repr

/-- `class Tile`. -/
structure Tile extends Box where
  type : TileType
  deriving DecidableEq, Repr

/-- `Tile()`: only the type is initialised; no code reads the box of an empty
    tile, so it is filled with zeros here. -/
def Tile.default : Tile := { x := 0, y := 0, width := 0, height := 0, type := .empty }

/-- `struct PlayerConfig`. -/
structure PlayerConfig where
  width : UInt8
  height : UInt8
  playerStartX : UInt16
  playerStartY : UInt16
  playerOffset : UInt16

/-- `struct GameConfig`, as far as the world reads it. `Config::InitGameConfig`
    gives the map `grid_x * grid_y` cells. -/
structure GameConfig where
  tile : UInt8
  gridX : UInt16
  gridY : UInt16
  map : List UInt8
  player : PlayerConfig
  length_map : map.length = gridX.toNat * gridY.toNat

namespace GameConfig

variable (config : GameConfig)

/-- `config_.map_[index]`. -/
def cell (index : ℕ) : UInt8 := config.map.getD index 0

/-- The loop body of the `World` constructor: a zero cell stays empty. -/
def tileAt (x y : ℕ) : Tile :=
  let index := y * config.gridX.toNat + x
  if config.cell index ≠ 0 then
    { x := (x : ℚ) * (config.tile.toNat : ℚ), y := (y : ℚ) * (config.tile.toNat : ℚ),
      width := config.tile, height := config.tile, type := .solid }
  else Tile.default

/-- `map_` as the `World` constructor leaves it. -/
def worldMap : List Tile :=
  (List.range config.gridY.toNat).flatMap fun y =>
    (List.range config.gridX.toNat).map fun x => config.tileAt x y

/-- The box of a player that has just been created (`World::ProcessInput`). -/
def spawnBox : Box where
  x := ((config.player.playerStartX.toNat * config.tile.toNat +
    config.player.playerOffset.toNat : ℕ) : ℚ)
  y := ((config.player.playerStartY.toNat * config.tile.toNat +
    config.player.playerOffset.toNat : ℕ) : ℚ)
  width := config.player.width
  height := config.player.height

/-- Cell `(x, y)` of the configured map is solid. -/
def Solid (x y : ℕ) : Prop :=
  x < config.gridX.toNat ∧ y < config.gridY.toNat ∧
    config.cell (y * config.gridX.toNat + x) ≠ 0

instance (x y : ℕ) : Decidable (config.Solid x y) := inferInstanceAs (Decidable (_ ∧ _ ∧ _))

/-- The square that cell `(x, y)` covers. -/
def tileRect (x y : ℕ) : Rect ℚ where
  x := (x : ℚ) * (config.tile.toNat : ℚ)
  y := (y : ℚ) * (config.tile.toNat : ℚ)
  w := (config.tile.toNat : ℚ)
  h := (config.tile.toNat : ℚ)

/-- The rectangle the grid covers. -/
def gridRect : Rect ℚ where
  x := 0
  y := 0
  w := (config.gridX.toNat : ℚ) * (config.tile.toNat : ℚ)
  h := (config.gridY.toNat : ℚ) * (config.tile.toNat : ℚ)

/-- The box has no interior point in a solid tile of the configured map. -/
def Free (b : Box) : Prop := ∀ x y, config.Solid x y → ¬ b.rect.Overlaps (config.tileRect x y)

/-- Some solid tile has the property `Q`. -/
def SomeSolid (Q : Rect ℚ → Prop) : Prop := ∃ x y, config.Solid x y ∧ Q (config.tileRect x y)

instance (Q : Rect ℚ → Prop) [DecidablePred Q] : Decidable (config.SomeSolid Q) :=
  decidable_of_iff (∃ x < config.gridX.toNat, ∃ y < config.gridY.toNat,
      config.Solid x y ∧ Q (config.tileRect x y))
    ⟨fun ⟨x, _, y, _, h⟩ => ⟨x, y, h⟩, fun ⟨x, y, h⟩ => ⟨x, h.1.1, y, h.1.2.1, h⟩⟩

/-- Only the cells of the grid can be solid. -/
theorem free_iff {b : Box} : config.Free b ↔ ∀ x < config.gridX.toNat, ∀ y < config.gridY.toNat,
    config.Solid x y → ¬ b.rect.Overlaps (config.tileRect x y) :=
  ⟨fun h x _ y _ hs => h x y hs, fun h x y hs => h x hs.1 y hs.2.1 hs⟩

instance (b : Box) : Decidable (config.Free b) := decidable_of_iff _ config.free_iff.symm

/-! ## The map the world is built with -/

@[simp] theorem length_worldMap :
    config.worldMap.length = config.gridX.toNat * config.gridY.toNat := by
  simp [worldMap, List.length_flatMap, Nat.mul_comm]

/-- Index arithmetic of a list of rows of one length. -/
theorem getElem?_flatMap_row {α : Type} (f : ℕ → ℕ → α) {n x : ℕ} (hx : x < n) :
    ∀ {m y : ℕ}, y < m →
      ((List.range m).flatMap fun y => (List.range n).map fun x => f x y)[y * n + x]? =
        some (f x y) := by
  intro m
  induction m with
  | zero => intro y hy; omega
  | succ m ih =>
    intro y hy
    have hlen : ((List.range m).flatMap fun y =>
        (List.range n).map fun x => f x y).length = m * n := by
      simp [List.length_flatMap]
    rw [List.range_succ, List.flatMap_append]
    rcases Nat.lt_succ_iff_lt_or_eq.mp hy with hlt | rfl
    · have hbound : y * n + x < m * n := by
        calc y * n + x < y * n + n := by omega
          _ = (y + 1) * n := by ring
          _ ≤ m * n := Nat.mul_le_mul_right n hlt
      rw [List.getElem?_append_left (by rw [hlen]; exact hbound), ih hlt]
    · rw [List.getElem?_append_right (by rw [hlen]; omega), hlen, Nat.add_sub_cancel_left]
      simp [hx]

theorem getElem?_worldMap {x y : ℕ} (hx : x < config.gridX.toNat) (hy : y < config.gridY.toNat) :
    config.worldMap[y * config.gridX.toNat + x]? = some (config.tileAt x y) :=
  getElem?_flatMap_row config.tileAt hx hy

theorem index_lt_area {x y : ℕ} (hx : x < config.gridX.toNat) (hy : y < config.gridY.toNat) :
    y * config.gridX.toNat + x < config.gridX.toNat * config.gridY.toNat := by
  calc y * config.gridX.toNat + x < (y + 1) * config.gridX.toNat := by
        rw [Nat.add_mul]
        omega
    _ ≤ config.gridY.toNat * config.gridX.toNat := Nat.mul_le_mul_right _ hy
    _ = config.gridX.toNat * config.gridY.toNat := Nat.mul_comm _ _

theorem tileAt_type {x y : ℕ} (hx : x < config.gridX.toNat) (hy : y < config.gridY.toNat) :
    (config.tileAt x y).type ≠ .empty ↔ config.Solid x y := by
  unfold tileAt Solid
  by_cases hcell : config.cell (y * config.gridX.toNat + x) = 0
  · simp [hcell, Tile.default]
  · simp [hcell, hx, hy]

theorem rect_tileAt {x y : ℕ} (h : config.Solid x y) :
    (config.tileAt x y).rect = config.tileRect x y := by
  simp [tileAt, h.2.2, Box.rect, Box.w, Box.h, tileRect]

/-- A room of two by two cells of size 10 between solid walls; a player of size 8
    spawns in its upper left corner, one unit off the walls. -/
def room : GameConfig where
  tile := 10
  gridX := 4
  gridY := 4
  map := [1, 1, 1, 1, 1, 0, 0, 1, 1, 0, 0, 1, 1, 1, 1, 1]
  player := { width := 8, height := 8, playerStartX := 1, playerStartY := 1, playerOffset := 1 }
  length_map := rfl

end GameConfig

theorem index_lt {config : GameConfig} {x y : ℕ} (hx : x < config.gridX.toNat)
    (hy : y < config.gridY.toNat) : y * config.gridX.toNat + x < 2 ^ 64 := by
  have hgx := config.gridX.toNat_lt
  have hgy := config.gridY.toNat_lt
  have hmul : y * config.gridX.toNat ≤ 2 ^ 16 * 2 ^ 16 := Nat.mul_le_mul (by omega) (by omega)
  omega

/-! ## The surroundings of a run -/

/-- `std::unordered_map<std::size_t, std::shared_ptr<IPlayer>>`; a null pointer is
    `none`. -/
abbrev PlayerMap := AList fun _ : UInt64 => Option Player

/-- What a run takes from its surroundings: the results of conversions and reads
    that the language leaves undefined, the representation of a double, and the
    order in which each loop over an unordered map visits it (the argument counts
    the loops of the run). -/
structure Platform where
  /-- `static_cast<std::size_t>` of a double that `std::size_t` cannot represent. -/
  wildCast : ℤ → UInt64
  /-- `map[i]` for an `i` past the end of the map: what is in that memory by then, such as
      the objects of players. -/
  wildTile : ℕ → Tile
  /-- The object representation of a double. -/
  doubleBits : ℚ → UInt64
  /-- The visiting order of a loop. -/
  iterate : {V : Type} → ℕ → List (Sigma fun _ : UInt64 => V) → List (Sigma fun _ : UInt64 => V)
  /-- A loop visits every entry once. -/
  iterate_perm : ∀ {V : Type} n (entries : List (Sigma fun _ : UInt64 => V)),
    (iterate n entries).Perm entries

namespace Platform

variable {platform : Platform} {V : Type} {m : AList fun _ : UInt64 => V} {n : ℕ}

/-- The visiting order of a loop is a list of the entries. -/
theorem mem_iterate {item : Sigma fun _ : UInt64 => V} :
    item ∈ platform.iterate n m.entries ↔ m.lookup item.1 = some item.2 := by
  rw [(platform.iterate_perm n m.entries).mem_iff]
  exact AList.mem_lookup_iff.symm

theorem nodupKeys_iterate (m : AList fun _ : UInt64 => V) (n : ℕ) :
    (platform.iterate n m.entries).NodupKeys :=
  (List.perm_nodupKeys (platform.iterate_perm n m.entries)).mpr m.nodupKeys

theorem mem_keys_iterate {id : UInt64} :
    id ∈ (platform.iterate n m.entries).keys ↔ ∃ v, m.lookup id = some v := by
  constructor
  · intro h
    obtain ⟨item, hitem, rfl⟩ := List.mem_map.mp h
    exact ⟨item.2, mem_iterate.mp hitem⟩
  · rintro ⟨v, hv⟩
    have hmem : ⟨id, v⟩ ∈ platform.iterate n m.entries := mem_iterate.mpr hv
    exact List.mem_keys_of_mem hmem

end Platform

/-- `n / d`, rounded to the nearest integer, and to an even one halfway between two. -/
def divNearest (n d : ℕ) : ℕ :=
  if d < 2 * (n % d) ∨ d = 2 * (n % d) ∧ n / d % 2 = 1 then n / d + 1 else n / d

/-- The bits of the double that is nearest to `q`, which is neither too large for one nor
    subnormal. A mantissa that is rounded up to `2 ^ 53` carries over to the exponent. -/
def ieeeBits (q : ℚ) : UInt64 :=
  if q = 0 then 0
  else
    let shift := q.den.log2 + 1
    let log := (q.num.natAbs * 2 ^ shift / q.den).log2
    let mantissa := divNearest (q.num.natAbs * 2 ^ (shift + 52)) (q.den * 2 ^ log)
    UInt64.ofNat ((if q < 0 then 2 ^ 63 else 0) + (log + 1023 - shift) * 2 ^ 52 +
      (mantissa - 2 ^ 52))

/-- A platform that converts like an x86-64 processor, finds empty tiles past the
    end of the map and visits a map in the order of the list of its entries. -/
def Platform.x86 : Platform where
  wildCast n := if -2 ^ 63 ≤ n ∧ n < 0 then UInt64.ofInt n else 0x8000000000000000
  wildTile _ := Tile.default
  doubleBits := ieeeBits
  iterate _ entries := entries
  iterate_perm _ _ := .refl _

end EndlessPeak
