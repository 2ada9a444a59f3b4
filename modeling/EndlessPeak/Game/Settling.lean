import EndlessPeak.Game.FreeFall
import EndlessPeak.Game.Ground

/-!
# Where a player that is left alone ends

Without packets for it, a player keeps falling until it lands, and then it is not moved
any more. Whatever it was doing before, and however long the ticks are, it lands on the
first solid tile below it: one sweep after another, none of them passes a tile.

* `floors_shift`: a clear vertical move keeps the tiles below a box below it.
* `rest_update`: a player at rest on a tile is left exactly as it is.
* `quiet_update`: any other player comes to rest or gets faster by `g * dt`.
* `settles`: a bound on the number of ticks, and the place.
-/

namespace EndlessPeak

open Lib

/-! ## What is below a box -/

/-- The upper edges of the solid tiles below the box, in its columns. -/
def GameConfig.floors (config : GameConfig) (box : Box) : Set ℚ :=
  {top | ∃ x y, config.Solid x y ∧ Meets box.x box.w (config.tileRect x y).x
    (config.tileRect x y).w ∧ (config.tileRect x y).y = top ∧ box.y + box.h ≤ top}

/-- The player, at rest on a tile with the upper edge `top`. -/
def Player.landed (p : Player) (top : ℚ) : Player where
  toBox := { p.toBox with y := top - p.h }
  id := p.id
  velX := 0
  velY := 0
  onGround := true

/-- A player that stands on a tile and does not move. -/
structure Resting (config : GameConfig) (p : Player) : Prop where
  velX : p.velX = 0
  velY : p.velY = 0
  onGround : p.onGround = true
  standing : Standing config p.toBox

variable {platform : Platform} {config : GameConfig} {box : Box} {p q : Player} {id : UInt64}
  {dt velY top e : ℚ}

theorem GameConfig.Walled.valid (hwalled : config.Walled) (hrows : config.gridY.toNat ≤ 255) :
    config.Valid :=
  { hwalled with rows := hrows }

/-- The tile that a box stands on is the first one below it. -/
theorem isLeast_of_standing (h : Standing config box) :
    IsLeast (config.floors box) (box.y + box.h) := by
  obtain ⟨x, y, hsolid, hmeets, hedge⟩ := h
  refine ⟨⟨x, y, hsolid, hmeets, hedge.symm, le_rfl⟩, ?_⟩
  rintro top ⟨_, _, -, -, -, hle⟩
  exact hle

theorem exists_isLeast_floors (hwalled : config.Walled) (hin : Contained config box) :
    ∃ top, IsLeast (config.floors box) top := by
  have hT : (0 : ℚ) < (config.tile.toNat : ℚ) := cast_toNat_pos hwalled.tile
  have hw : 0 < box.w := by rw [Box.w, hin.width]; exact cast_toNat_pos hwalled.width
  have hh : 0 < box.h := by rw [Box.h, hin.height]; exact cast_toNat_pos hwalled.height
  have hgy : config.gridY.toNat ≠ 0 := by simpa [UInt16.ext_iff] using hwalled.gridY
  obtain ⟨hx0, hx1, -, hy1⟩ := hin.within
  simp only [GameConfig.gridRect, zero_add, Box.rect] at hx0 hx1 hy1
  obtain ⟨k, hk, hmeets⟩ := exists_cell_meets hT hw hx0 hx1
  have hborder : config.Solid k (config.gridY.toNat - 1) :=
    hwalled.border k _ hk (by omega) (.inr (.inr (.inr (by omega))))
  have hcast : ((config.gridY.toNat - 1 : ℕ) : ℚ) = (config.gridY.toNat : ℚ) - 1 := by
    rw [Nat.cast_sub (by omega), Nat.cast_one]
  -- the box ends above the bottom row: it lies in the grid and not in the border
  have hbelow : box.y + box.h ≤ ((config.gridY.toNat - 1 : ℕ) : ℚ) * config.tile.toNat := by
    have hfree : ¬ Meets box.y box.h (((config.gridY.toNat - 1 : ℕ) : ℚ) * config.tile.toNat)
        config.tile.toNat := fun hm => hin.free k _ hborder ⟨hmeets, hm⟩
    rcases le_or_le_of_not_meets hfree with hle | hle
    · rw [hcast] at hle
      linarith
    · exact hle
  classical
  have hex : ∃ y x, config.Solid x y ∧ Meets box.x box.w (config.tileRect x y).x
      (config.tileRect x y).w ∧ box.y + box.h ≤ (config.tileRect x y).y :=
    ⟨_, k, hborder, hmeets, hbelow⟩
  obtain ⟨x, hsolid, hcolumn, hle⟩ := Nat.find_spec hex
  refine ⟨_, ⟨x, _, hsolid, hcolumn, rfl, hle⟩, ?_⟩
  rintro top ⟨x', y', hsolid', hcolumn', rfl, hle'⟩
  have hfirst : Nat.find hex ≤ y' := Nat.find_min' hex ⟨x', hsolid', hcolumn', hle'⟩
  show (Nat.find hex : ℚ) * _ ≤ (y' : ℚ) * _
  exact mul_le_mul_of_nonneg_right (by exact_mod_cast hfirst) hT.le

/-- A vertical move that overlaps no solid tile passes none of them. -/
theorem floors_shift (htile : config.tile ≠ 0) (hh : 0 < box.h) (he : 0 ≤ e)
    (hclear : ∀ x y, config.Solid x y → box.rect.Clear (config.tileRect x y) 0 velY e) :
    config.floors (box.move 0 (e * velY)) = config.floors box := by
  have hT : (0 : ℚ) < (config.tile.toNat : ℚ) := cast_toNat_pos htile
  -- in the columns of the box only the order along `y` matters
  have hpath : ∀ x y, config.Solid x y → Meets box.x box.w (config.tileRect x y).x
      (config.tileRect x y).w → ∀ t, 0 ≤ t → t ≤ e →
        ¬ Meets (box.y + t * velY) box.h (config.tileRect x y).y config.tile.toNat := by
    intro x y hsolid hmeets t h0 h1 hm
    exact hclear x y hsolid t h0 h1 ⟨by simpa [Rect.shift, Box.rect] using hmeets, hm⟩
  ext top
  simp only [GameConfig.floors, Set.mem_ofPred_eq, Box.move, Box.w, Box.h, add_zero]
  constructor
  · rintro ⟨x, y, hsolid, hmeets, rfl, hle⟩
    refine ⟨x, y, hsolid, hmeets, rfl, ?_⟩
    have hstart : ¬ Meets box.y box.h (config.tileRect x y).y config.tile.toNat := by
      simpa using hpath x y hsolid hmeets 0 le_rfl he
    rcases le_or_le_of_not_meets hstart with habove | hbelow
    · -- a tile above stays above, so the box would end both above and below it
      have hstays := le_shift_of_clear hh hT he (hpath x y hsolid hmeets) habove
      have hpos : 0 < (box.height.toNat : ℚ) := hh
      linarith
    · exact hbelow
  · rintro ⟨x, y, hsolid, hmeets, rfl, hle⟩
    exact ⟨x, y, hsolid, hmeets, rfl,
      shift_le_of_clear hh hT he (hpath x y hsolid hmeets) hle⟩

/-! ## At rest -/

theorem sweptAABB_entryTime_of_standing {box1 box2 : Box} (hpos : 0 < velY) (hh1 : 0 < box1.h)
    (hh2 : 0 < box2.h) (hmeets : Meets box1.x box1.w box2.x box2.w)
    (hedge : box1.y + box1.h = box2.y) : (sweptAABB box1 box2 0 velY).entryTime = 0 := by
  have hentry : entryTime box1.y box1.h box2.y box2.h velY = 0 := by
    rw [entryTime, if_pos hpos, hedge, sub_self, zero_div]
  have hexit : 0 < exitTime box1.y box1.h box2.y box2.h velY := by
    rw [exitTime, if_pos hpos]
    exact div_pos (by linarith) hpos
  rw [sweptAABB_y hpos.ne' hmeets, hentry, if_neg (by simp [hexit.le])]
  rfl

theorem sweep_of_standing (platform : Platform) (htile : config.tile ≠ 0) (hh : 0 < box.h)
    (hpos : 0 < velY) (hdef : SweepDefined config box 0 velY) (h : Standing config box) :
    (config.sweep platform box 0 velY).hit = true ∧
      (config.sweep platform box 0 velY).entryTime = 0 := by
  obtain ⟨x, y, hsolid, hmeets, hedge⟩ := h
  have hT : 0 < (config.tileRect x y).h := cast_toNat_pos htile
  have hrect : (config.tileAt x y).rect = config.tileRect x y := config.rect_tileAt hsolid
  have hlen : 0 < box.h / velY := div_pos hh hpos
  -- shortly after the start the box overlaps the tile
  have hover : (box.rect.shift (min 1 (box.h / velY) * 0)
      (min 1 (box.h / velY) * velY)).Overlaps (config.tileRect x y) := by
    have hmin : min 1 (box.h / velY) * velY ≤ box.h := by
      rw [← le_div_iff₀ hpos]
      exact min_le_right _ _
    have hmove : 0 < min 1 (box.h / velY) * velY := mul_pos (lt_min one_pos hlen) hpos
    refine ⟨by simpa [Rect.shift, Box.rect] using hmeets, ?_, ?_⟩
    · show box.y + min 1 (box.h / velY) * velY < _
      linarith
    · show _ < box.y + min 1 (box.h / velY) * velY + box.h
      linarith
  have hle := sweep_le platform htile hdef (fun h0 => hpos.ne' h0.2) hsolid
    (le_min zero_le_one hlen.le) (min_le_left _ _) hover
  rw [← hrect] at hmeets hedge hT
  rw [sweptAABB_entryTime_of_standing hpos hh hT hmeets hedge] at hle
  have hzero : (config.sweep platform box 0 velY).entryTime = 0 :=
    le_antisymm hle (sweptAxis_entryTime _ _ _ _ _ _ _ _).1
  refine ⟨sweptAxis_hit_of_lt ?_, hzero⟩
  show (config.sweep platform box 0 velY).entryTime < 1
  rw [hzero]
  exact one_pos

theorem rest_update (htile : config.tile ≠ 0) (hh : 0 < p.h) (hdt : 0 < dt)
    (hdef : UpdateDefined config dt p) (h : Resting config p) :
    (update platform config dt p).1 = p := by
  have hfall : 0 < gravity * dt := mul_pos (by norm_num [gravity]) hdt
  obtain ⟨box, id, velX, velY, onGround⟩ := p
  obtain ⟨rfl, rfl, rfl, hstanding⟩ := h
  have hsweep : SweepDefined config box 0 (gravity * dt) := by
    rcases hdef with ⟨-, hzero⟩ | hdef
    · rw [show (0 : ℚ) + gravity * dt = gravity * dt from zero_add _] at hzero
      exact absurd hzero hfall.ne'
    · rwa [show (0 : ℚ) + gravity * dt = gravity * dt from zero_add _] at hdef
  obtain ⟨hhit, hzero⟩ := sweep_of_standing platform htile hh hfall hsweep hstanding
  show movePlayer platform config _ = _
  rw [movePlayer_of_velX rfl]
  simp [moveY, applyGravity, Player.setVel, Player.setOnGround, Player.move, Box.move, hfall.ne',
    hhit, hzero]

/-! ## Falling -/

/-- `q` is the player `p`, moved in its columns, with the same tiles below it. -/
structure Follows (config : GameConfig) (p q : Player) : Prop where
  toBox : q.toBox = { p.toBox with y := q.y }
  id : q.id = p.id
  floors : config.floors q.toBox = config.floors p.toBox

theorem Follows.refl (p : Player) : Follows config p p := ⟨rfl, rfl, rfl⟩

theorem Follows.trans {r : Player} (h : Follows config p q) (h' : Follows config q r) :
    Follows config p r where
  toBox := by rw [h'.toBox, h.toBox]
  id := h'.id.trans h.id
  floors := h'.floors.trans h.floors

/-- A follower at rest is on the first tile below the player. -/
theorem Follows.eq_landed (h : Follows config p q) (hrest : Resting config q)
    (htop : IsLeast (config.floors p.toBox) top) : q = p.landed top := by
  have hleast := isLeast_of_standing hrest.standing
  rw [h.floors] at hleast
  have hedge : q.y + q.h = top := hleast.unique htop
  have hheight : q.h = p.h := by rw [Box.h, h.toBox]; rfl
  have hbox := h.toBox
  have hid := h.id
  obtain ⟨box, id, velX, velY, onGround⟩ := q
  obtain ⟨rfl, rfl, rfl, -⟩ := hrest
  obtain rfl : id = p.id := hid
  have hy : box.y = top - p.h := by
    rw [← hheight]
    exact eq_sub_of_add_eq hedge
  rw [Player.landed, ← hy, ← show box = _ from hbox]

/-- What `MovePlayer` does with a player that has only a vertical velocity. -/
theorem follows_moveY (hwalled : config.Walled) (hin : Contained config p.toBox)
    (hdef : velY = 0 ∨ SweepDefined config p.toBox 0 velY) :
    Follows config p (moveY platform config p 0 velY) := by
  have hh : 0 < p.h := by rw [Box.h, hin.height]; exact cast_toNat_pos hwalled.height
  refine ⟨by rw [moveY_toBox]; simp [Box.move], moveY_id platform config p 0 velY, ?_⟩
  rw [moveY_toBox, mul_comm]
  rcases hdef with rfl | hdef
  · rw [mul_zero]
    simp [Box.move]
  · exact floors_shift hwalled.tile hh (sweptAxis_entryTime _ _ _ _ _ _ _ _).1
      fun x y hsolid => sweep_clear hwalled.tile hdef hin.free hsolid

/-- A sweep that hits nothing moves the player by its whole velocity, which is less than
    the height of the grid. -/
theorem velY_le_of_miss (hin : Contained config p.toBox)
    (hend : Contained config (moveY platform config p 0 velY).toBox)
    (hmiss : (config.sweep platform p.toBox 0 velY).hit = false) :
    velY ≤ config.gridRect.h := by
  have htime : (config.sweep platform p.toBox 0 velY).entryTime = 1 := by
    refine le_antisymm (sweptAxis_entryTime _ _ _ _ _ _ _ _).2 (not_lt.mp fun hlt => ?_)
    have hhit : (config.sweep platform p.toBox 0 velY).hit = true := sweptAxis_hit_of_lt hlt
    rw [hmiss] at hhit
    exact absurd hhit (by decide)
  obtain ⟨-, -, hy0, -⟩ := hin.within
  obtain ⟨-, -, -, hy1⟩ := hend.within
  rw [moveY_toBox, htime, mul_one] at hy1
  have hh : 0 ≤ (p.height.toNat : ℚ) := Nat.cast_nonneg _
  simp only [GameConfig.gridRect, Box.rect, Box.move, Box.h, zero_add] at hy0 hy1
  show velY ≤ (config.gridY.toNat : ℚ) * config.tile.toNat
  linarith

/-- A vertical move ends at rest, or the velocity is not smaller and still below a bound. -/
theorem moveY_rests_or_falls (hwalled : config.Walled) (hrows : config.gridY.toNat ≤ 255)
    (hin : Contained config p.toBox) (hvelY : p.velY = velY)
    (hend : Contained config (moveY platform config p 0 velY).toBox) :
    Resting config (moveY platform config p 0 velY) ∨
      velY ≤ (moveY platform config p 0 velY).velY ∧
        (moveY platform config p 0 velY).velY ≤ config.gridRect.h := by
  have hH : 0 ≤ config.gridRect.h :=
    mul_nonneg (Nat.cast_nonneg _) (Nat.cast_nonneg _)
  have hvel := moveY_velY platform config p 0 velY
  by_cases hhit : (config.sweep platform p.toBox 0 velY).hit = true
  · rw [if_pos hhit] at hvel
    rcases lt_trichotomy velY 0 with hneg | rfl | hpos
    · -- the player has hit its head
      right
      rw [hvel]
      exact ⟨hneg.le, hH⟩
    · rw [sweep_zero] at hhit
      exact absurd hhit (by decide)
    · left
      have hground : (moveY platform config p 0 velY).onGround = true := by
        rw [moveY_onGround hpos.ne']
        exact ⟨hhit, mul_nonneg hpos.le (sweptAxis_entryTime _ _ _ _ _ _ _ _).1⟩
      obtain ⟨hstanding, hzero⟩ := moveY_grounded (hwalled.valid hrows) hpos.ne'
        (fun hneg => absurd hneg hpos.not_gt) hground
      refine ⟨?_, hzero, hground, hstanding⟩
      rw [moveY_velX, if_pos hhit]
  · right
    rw [if_neg hhit, hvelY] at hvel
    rw [hvel]
    exact ⟨le_rfl, velY_le_of_miss hin hend (Bool.eq_false_iff.mpr hhit)⟩

theorem quiet_update (platform : Platform) (hwalled : config.Walled)
    (hrows : config.gridY.toNat ≤ 255) (hin : Contained config p.toBox) (hvelX : p.velX = 0)
    (hdef : UpdateDefined config dt p) :
    Follows config p (update platform config dt p).1 ∧
      (Resting config (update platform config dt p).1 ∨
        p.velY + gravity * dt ≤ (update platform config dt p).1.velY ∧
          (update platform config dt p).1.velY ≤ config.gridRect.h) := by
  have hend : Contained config (update platform config dt p).1.toBox :=
    contained_update hwalled hin hdef
  have hmove : (update platform config dt p).1 =
      moveY platform config (applyGravity dt p) 0 (p.velY + gravity * dt) :=
    movePlayer_of_velX hvelX
  have hsweep : p.velY + gravity * dt = 0 ∨
      SweepDefined config p.toBox 0 (p.velY + gravity * dt) := by
    rw [UpdateDefined, hvelX] at hdef
    exact hdef.imp And.right id
  rw [hmove] at hend ⊢
  have hfollows : Follows config p (applyGravity dt p) := ⟨rfl, rfl, rfl⟩
  exact ⟨hfollows.trans (follows_moveY hwalled hin hsweep),
    moveY_rests_or_falls hwalled hrows hin rfl hend⟩

/-! ## Runs -/

/-- Turns of at least `δ` that bring no packets for `id`. -/
def LeftAlone (id : UInt64) (δ : ℚ) (turns : List Turn) : Prop :=
  ∀ turn ∈ turns, δ ≤ turn.dt ∧ forId id turn.inputs = []

theorem contained_turn (hwalled : config.Walled) {s s' : World × Subsystem} {turn : Turn}
    (hall : s.1.All fun _ p => Contained config p.toBox)
    (h : DefinedTurn platform config s turn s') :
    s'.1.All fun _ p => Contained config p.toBox := by
  obtain ⟨hstep, hdef⟩ := h
  obtain ⟨w1, w2, hin, hloop, hs', -⟩ := World.tick_eq_some.mp hstep
  have hinput : w1.All fun _ p => Contained config p.toBox := by
    refine World.all_inputPhase (fun _ p hp => hp) ?_ ?_ hall hin
    · intro id
      exact ⟨rfl, rfl, hwalled.spawn_within, hwalled.spawn_free⟩
    · intro _ o p hp
      rw [World.command_toBox]
      exact hp
  have hupdate : w2.All fun _ p => Contained config p.toBox :=
    World.all_forEach (fun id p hp hc => contained_update hwalled hc (hdef w1 hin id p hp))
      hinput hloop
  rw [hs']
  exact hupdate

theorem player?_of_quiet {s s' : World × Subsystem} {turn : Turn} (hqueue : s.2.inQueue = [])
    (hquiet : forId id turn.inputs = []) (h : DefinedTurn platform config s turn s')
    (hp : s.1.player? id = some p) :
    UpdateDefined config turn.dt (p.setVel 0 p.velY) ∧
      s'.1.player? id = some (update platform config turn.dt (p.setVel 0 p.velY)).1 := by
  obtain ⟨hstep, hdef⟩ := h
  obtain ⟨w1, w2, hin, -, -, -⟩ := World.tick_eq_some.mp hstep
  rw [hqueue, List.nil_append] at hin hdef
  have hinput : w1.player? id = some (p.setVel 0 p.velY) := by
    rw [World.player?_inputPhase hin, hquiet, hp]
    rfl
  refine ⟨hdef w1 hin id _ hinput, ?_⟩
  rw [World.player?_tick hstep id, hqueue, List.nil_append, hquiet, hp]
  rfl

/-- `q` is what becomes of `p` in `n` ticks of at least `δ` without packets. -/
structure Settles (config : GameConfig) (δ : ℚ) (p : Player) (n : ℕ) (q : Player) : Prop where
  follows : Follows config p q
  falls : Resting config q ∨ p.velY + n * (gravity * δ) ≤ q.velY ∧
    (q.velY ≤ config.gridRect.h ∨ n = 0)

theorem settles_update (hwalled : config.Walled) (hrows : config.gridY.toNat ≤ 255) {δ : ℚ}
    (hδ : 0 < δ) (hdt : δ ≤ dt) {n : ℕ} (hin : Contained config q.toBox)
    (hdef : UpdateDefined config dt (q.setVel 0 q.velY)) (h : Settles config δ p n q) :
    Settles config δ p (n + 1) (update platform config dt (q.setVel 0 q.velY)).1 := by
  have hreset : Follows config q (q.setVel 0 q.velY) := ⟨rfl, rfl, rfl⟩
  obtain ⟨hfollows, hfalls⟩ := quiet_update platform hwalled hrows
    (p := q.setVel 0 q.velY) hin rfl hdef
  refine ⟨h.follows.trans (hreset.trans hfollows), ?_⟩
  rcases h.falls with hrest | ⟨hfast, -⟩
  · -- a player at rest stays there
    left
    have hsame : q.setVel 0 q.velY = q := by
      rw [← hrest.velX]
      rfl
    have hh : 0 < q.h := by rw [Box.h, hin.height]; exact cast_toNat_pos hwalled.height
    rw [hsame] at hdef ⊢
    rwa [rest_update hwalled.tile hh (hδ.trans_le hdt) hdef hrest]
  · refine hfalls.imp id ?_
    rintro ⟨hgain, hbound⟩
    have hlonger : gravity * δ ≤ gravity * dt :=
      mul_le_mul_of_nonneg_left hdt (by norm_num [gravity])
    have hvel : (q.setVel 0 q.velY).velY = q.velY := rfl
    rw [hvel] at hgain
    refine ⟨?_, .inl hbound⟩
    push_cast
    linarith

theorem settles_run (hwalled : config.Walled) (hrows : config.gridY.toNat ≤ 255) {δ : ℚ}
    (hδ : 0 < δ) {s s' : World × Subsystem} {turns : List Turn}
    (hall : s.1.All fun _ p => Contained config p.toBox)
    (hqueue : s.1.game.inQueue = [] ∧ s.2.inQueue = []) (hp : s.1.player? id = some p)
    (halone : LeftAlone id δ turns) (h : Run (DefinedTurn platform config) s turns s') :
    (s'.1.All fun _ p => Contained config p.toBox) ∧
      (s'.1.game.inQueue = [] ∧ s'.2.inQueue = []) ∧
      ∃ q, s'.1.player? id = some q ∧ Settles config δ p turns.length q := by
  induction h with
  | nil =>
    refine ⟨hall, hqueue, p, hp, .refl p, .inr ⟨?_, .inr rfl⟩⟩
    simp
  | @snoc turns turn t t' hrun hturn ih =>
    obtain ⟨hcontained, hempty, q, hq, hsettles⟩ :=
      ih fun turn hmem => halone turn (List.mem_append_left _ hmem)
    obtain ⟨hdt, hquiet⟩ := halone turn (by simp)
    obtain ⟨hdef, hnext⟩ := player?_of_quiet hempty.2 hquiet hturn hq
    obtain ⟨hgame, hnet⟩ := World.tick_inQueue hturn.1
    refine ⟨contained_turn hwalled hcontained hturn, ⟨hgame, hnet.trans hempty.1⟩, _, hnext, ?_⟩
    rw [List.length_append, List.length_singleton]
    exact settles_update hwalled hrows hδ hdt (hcontained id q hq) hdef hsettles

/-- In every run whose sweeps are defined: a player for which no more packets come is, after
    finitely many ticks, at rest on the first solid tile below the place where it was, and
    stays there. How many ticks this takes depends on the height of the grid and on how fast
    the player rises; where it ends depends neither on its velocity nor on the ticks. -/
theorem settles (hwalled : config.Walled) (hrows : config.gridY.toNat ≤ 255)
    {turns : List Turn} {s : World × Subsystem}
    (h : Run (DefinedTurn platform config) ({}, {}) turns s) (hp : s.1.player? id = some p) :
    ∃ top, IsLeast (config.floors p.toBox) top ∧ ∀ δ more s', 0 < δ → LeftAlone id δ more →
      config.gridRect.h - min p.velY 0 < more.length * (gravity * δ) →
      Run (DefinedTurn platform config) s more s' → s'.1.player? id = some (p.landed top) := by
  have hall : s.1.All fun _ p => Contained config p.toBox := by
    refine h.invariant (I := fun s => s.1.All fun _ p => Contained config p.toBox) ?_ ?_
    · intro id p hp
      simp [World.player?] at hp
    · exact fun _ _ _ hs hturn => contained_turn hwalled hs hturn
  have hqueue := game_inQueue (h.mono fun _ _ _ hturn => hturn.1)
  obtain ⟨top, htop⟩ := exists_isLeast_floors hwalled (hall id p hp)
  refine ⟨top, htop, ?_⟩
  intro δ more s' hδ halone hlong hrun
  obtain ⟨-, -, q, hq, hfollows, hfalls⟩ :=
    settles_run hwalled hrows hδ hall hqueue hp halone hrun
  rcases hfalls with hrest | ⟨hfast, hbound | hnone⟩
  · rw [hq, hfollows.eq_landed hrest htop]
  · have hrise : min p.velY 0 ≤ p.velY := min_le_left _ _
    linarith
  · have hH : 0 ≤ config.gridRect.h := mul_nonneg (Nat.cast_nonneg _) (Nat.cast_nonneg _)
    have hrise : min p.velY 0 ≤ 0 := min_le_right _ _
    rw [hnone, Nat.cast_zero, zero_mul] at hlong
    linarith

/-- A player that has jumped off the floor of the room is back on it five ticks later. -/
theorem settles_room : ∃ s p s', Run (DefinedTurn .x86 .room) ({}, {})
      [⟨1, [.ofOpcode .createPlayer 0]⟩, ⟨1, []⟩, ⟨1 / 100, [.ofOpcode .jump 0]⟩] s ∧
    s.1.player? 0 = some p ∧ p.velY < 0 ∧
    Run (DefinedTurn .x86 .room) s
      [⟨1, []⟩, ⟨2, []⟩, ⟨1, [.ofOpcode .createPlayer 1]⟩, ⟨3 / 2, []⟩, ⟨1, []⟩] s' ∧
    ∃ top, IsLeast (GameConfig.room.floors p.toBox) top ∧
      s'.1.player? 0 = some (p.landed top) := by
  let turns : List Turn :=
    [⟨1, [.ofOpcode .createPlayer 0]⟩, ⟨1, []⟩, ⟨1 / 100, [.ofOpcode .jump 0]⟩]
  let more : List Turn :=
    [⟨1, []⟩, ⟨2, []⟩, ⟨1, [.ofOpcode .createPlayer 1]⟩, ⟨3 / 2, []⟩, ⟨1, []⟩]
  have heval : ((turns.foldlM (guardedStep .x86 .room (UpdateDefined .room)) ({}, {})).bind
      fun s => (more.foldlM (guardedStep .x86 .room (UpdateDefined .room)) s).bind fun _ =>
        (s.1.player? 0).map fun p => decide (p.velY < 0 ∧
          GameConfig.room.gridRect.h - min p.velY 0 < 5 * (gravity * 1))) = some true := by
    decide +kernel
  obtain ⟨s, hs, hrest⟩ := Option.bind_eq_some_iff.mp heval
  obtain ⟨s', hs', hmap⟩ := Option.bind_eq_some_iff.mp hrest
  obtain ⟨p, hp, hvel⟩ := Option.map_eq_some_iff.mp hmap
  obtain ⟨hneg, hlong⟩ := of_decide_eq_true hvel
  have hrun : Run (DefinedTurn .x86 .room) ({}, {}) turns s :=
    (run_iff_foldlM.mpr hs).mono fun _ _ _ hturn => guardedTurn_of_step hturn
  have hmore : Run (DefinedTurn .x86 .room) s more s' :=
    (run_iff_foldlM.mpr hs').mono fun _ _ _ hturn => guardedTurn_of_step hturn
  obtain ⟨top, htop, hsettles⟩ := settles room_walled (by decide) hrun hp
  have halone : LeftAlone 0 1 more := by
    simp only [LeftAlone, more, List.forall_mem_cons]
    norm_num [forId]
    decide
  exact ⟨s, p, s', hrun, hp, hneg, hmore, top, htop,
    hsettles 1 more s' one_pos halone (by exact_mod_cast hlong) hmore⟩

end EndlessPeak
