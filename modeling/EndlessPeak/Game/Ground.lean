import EndlessPeak.Game.Containment

/-!
# `OnGround` and standing on a tile

`World::MovePlayer` sets the flag when its sweep along `y` hits something and the
velocity, already scaled by the entry time, is not negative. A sweep downwards
that hits ends on a tile. A sweep upwards that starts in contact with a ceiling
has the entry time 0, so its scaled velocity is 0 as well and the flag is set
although the player may hang in the air.

* `moveY_grounded`: the step; the exception is a sweep upwards from a ceiling.
* `moveY_grounded_iff`: where the sweep is defined, the exception is real.
* `game_grounded`: runs without such sweeps.
* `ledge_flag_in_the_air`: a run with one.
-/

namespace EndlessPeak

open Lib

/-- The bottom edge of the box is the top edge of a solid tile whose `x` range
    strictly overlaps. -/
def Standing (config : GameConfig) (box : Box) : Prop :=
  config.SomeSolid fun tile => Meets box.x box.w tile.x tile.w ∧ box.y + box.h = tile.y

/-- The top edge of the box is the bottom edge of a solid tile whose `x` range
    strictly overlaps. -/
def TouchesCeiling (config : GameConfig) (box : Box) : Prop :=
  config.SomeSolid fun tile => Meets box.x box.w tile.x tile.w ∧ tile.y + tile.h = box.y

instance (config : GameConfig) (box : Box) : Decidable (Standing config box) := by
  unfold Standing
  infer_instance

instance (config : GameConfig) (box : Box) : Decidable (TouchesCeiling config box) := by
  unfold TouchesCeiling
  infer_instance

/-- A map with positive sizes, at most 255 rows and a free place to spawn. -/
structure GameConfig.Valid (config : GameConfig) : Prop where
  tile : config.tile ≠ 0
  gridX : config.gridX ≠ 0
  gridY : config.gridY ≠ 0
  rows : config.gridY.toNat ≤ 255
  width : config.player.width ≠ 0
  height : config.player.height ≠ 0
  spawn_free : config.Free config.spawnBox

variable {platform : Platform} {config : GameConfig} {player : Player} {dt velX velY : ℚ}

/-! ## The Y axis phase -/

theorem moveY_onGround (hvel : velY ≠ 0) :
    (moveY platform config player velX velY).onGround = true ↔
      (config.sweep platform player.toBox 0 velY).hit = true ∧
        0 ≤ velY * (config.sweep platform player.toBox 0 velY).entryTime := by
  simp only [moveY, ne_eq, hvel, not_false_eq_true, if_true]
  split_ifs with hhit hle
  · simp [hhit, hle]
  · simp [hle]
  · simp [hhit]

theorem standing_move_zero {box : Box} (h : Standing config box) {d : ℚ} (hd : d = 0) :
    Standing config (box.move 0 d) := by
  subst hd
  simpa [Box.move] using h

/-- After a sweep along `y` the flag means standing on a tile, unless the sweep goes
    upwards and starts at a ceiling. -/
theorem moveY_grounded (hvalid : config.Valid) (hvel : velY ≠ 0)
    (hceiling : velY < 0 → TouchesCeiling config player.toBox → Standing config player.toBox)
    (h : (moveY platform config player velX velY).onGround = true) :
    Standing config (moveY platform config player velX velY).toBox ∧
      (moveY platform config player velX velY).velY = 0 := by
  obtain ⟨hhit, hle⟩ := (moveY_onGround hvel).mp h
  refine ⟨?_, by rw [moveY_velY, if_pos hhit]⟩
  rw [moveY_toBox]
  obtain ⟨x, y, hsolid, heq⟩ := sweep_hit hvalid.gridX hvalid.gridY hvalid.rows hhit
  rw [heq] at hhit hle ⊢
  obtain ⟨hmeets, hdown, hup⟩ := sweptAABB_hit_y hhit
  have htile : (config.tileAt x y).rect = config.tileRect x y := config.rect_tileAt hsolid
  have h0 := (sweptAABB_entryTime player.toBox (config.tileAt x y).toBox 0 velY).1
  generalize (sweptAABB player.toBox (config.tileAt x y).toBox 0 velY).entryTime = e at *
  rcases lt_or_gt_of_ne hvel with hneg | hpos
  · -- upwards: the sweep has not moved the player
    have hzero : e = 0 := by nlinarith
    subst hzero
    refine standing_move_zero (hceiling hneg ⟨x, y, hsolid, ?_, ?_⟩) (mul_zero _)
    · rw [← htile]
      exact hmeets
    · have htop := hup hneg
      rw [zero_mul, add_zero] at htop
      rw [← htile]
      exact htop
  · refine ⟨x, y, hsolid, ?_, ?_⟩
    · rw [← htile]
      simpa [Box.move, Box.w, Box.rect] using hmeets
    · rw [← htile, mul_comm]
      exact hdown hpos

/-! ## Sweeps that start at a ceiling -/

/-- A sweep upwards from a tile hits it at once. -/
theorem sweptAABB_entryTime_of_touch {box1 box2 : Box} (hneg : velY < 0) (hh1 : 0 < box1.h)
    (hh2 : 0 < box2.h) (hmeets : Meets box1.x box1.w box2.x box2.w)
    (htouch : box2.y + box2.h = box1.y) : (sweptAABB box1 box2 0 velY).entryTime = 0 := by
  have hexit : 0 < (box2.y - (box1.y + box1.h)) / velY :=
    div_pos_of_neg_of_neg (by linarith) hneg
  have hmiss : ¬ (min ⊤ (ExtRat.ofRat ((box2.y - (box1.y + box1.h)) / velY)) <
      max ⊥ (ExtRat.ofRat 0) ∨ max ⊥ (ExtRat.ofRat 0) < .ofRat 0 ∨
        .ofRat 1 < max ⊥ (ExtRat.ofRat 0)) := by
    simp [hexit.le]
  simp only [sweptAABB, hneg.ne, and_false, if_false, axisTimes_zero hmeets, axisTimes_neg hneg,
    htouch, sub_self, zero_div, if_neg hmiss]
  split_ifs <;> simp

theorem sweep_of_touchesCeiling (platform : Platform) (hvalid : config.Valid)
    (hh : 0 < player.h) (hneg : velY < 0)
    (hdef : SweepDefined config player.toBox 0 velY) (h : TouchesCeiling config player.toBox) :
    (config.sweep platform player.toBox 0 velY).hit = true ∧
      (config.sweep platform player.toBox 0 velY).entryTime = 0 := by
  obtain ⟨x, y, hsolid, hmeets, htouch⟩ := h
  have hT : 0 < (config.tileRect x y).h := cast_toNat_pos hvalid.tile
  have htile : (config.tileAt x y).rect = config.tileRect x y := config.rect_tileAt hsolid
  have hlen : 0 < player.h / -velY := div_pos hh (by linarith)
  -- shortly after the start the box overlaps the tile
  have hover : (player.rect.shift (min 1 (player.h / -velY) * 0)
      (min 1 (player.h / -velY) * velY)).Overlaps (config.tileRect x y) := by
    have hmin : min 1 (player.h / -velY) * -velY ≤ player.h := by
      rw [← le_div_iff₀ (by linarith)]
      exact min_le_right _ _
    have hmove : 0 < min 1 (player.h / -velY) * -velY :=
      mul_pos (lt_min one_pos hlen) (by linarith)
    refine ⟨by simpa [Rect.shift, Box.rect] using hmeets, ?_, ?_⟩
    · simp only [Rect.shift, Box.rect]
      linarith
    · simp only [Rect.shift, Box.rect]
      linarith
  have hle := sweep_le platform hvalid.tile hdef (by simp [hneg.ne]) hsolid
    (le_min zero_le_one hlen.le) (min_le_left _ _) hover
  rw [← htile] at hmeets htouch hT
  rw [sweptAABB_entryTime_of_touch hneg hh hT hmeets htouch] at hle
  have hzero := le_antisymm hle (sweptAxis_entryTime _ _ _ _ _ _ _ _).1
  refine ⟨sweptAxis_hit_of_lt ?_, hzero⟩
  rw [show (sweptAxis platform player.toBox config.tile config.gridX config.gridY.toUInt8
    config.worldMap 0 velY).entryTime = 0 from hzero]
  exact one_pos

/-- Where the sweep is defined, the flag means standing on a tile exactly if the
    sweep does not go upwards from a ceiling in the air. -/
theorem moveY_grounded_iff (hvalid : config.Valid) (hh : 0 < player.h) (hvel : velY ≠ 0)
    (hdef : SweepDefined config player.toBox 0 velY) :
    ((moveY platform config player velX velY).onGround = true →
        Standing config (moveY platform config player velX velY).toBox) ↔
      (velY < 0 → TouchesCeiling config player.toBox → Standing config player.toBox) := by
  constructor
  · intro h hneg hceiling
    obtain ⟨hhit, hzero⟩ := sweep_of_touchesCeiling platform hvalid hh hneg hdef hceiling
    have hstanding := h ((moveY_onGround hvel).mpr ⟨hhit, by simp [hzero]⟩)
    rw [moveY_toBox, hzero, mul_zero] at hstanding
    simpa [Box.move] using hstanding
  · intro h hground
    exact (moveY_grounded hvalid hvel h hground).1

/-! ## Runs -/

/-- If the sweep along `y` goes upwards, it does not start at a ceiling, unless the
    player stands on a tile there. The player is the one that the input phase
    leaves; the sweep starts where the X axis phase ends. -/
def NoCeilingStart (platform : Platform) (config : GameConfig) (dt : ℚ) (player : Player) : Prop :=
  let moved := moveX platform config (applyGravity dt player) player.velX
    (player.velY + gravity * dt)
  player.velY + gravity * dt < 0 → TouchesCeiling config moved.2.toBox →
    Standing config moved.2.toBox

instance (platform : Platform) (config : GameConfig) (dt : ℚ) (player : Player) :
    Decidable (NoCeilingStart platform config dt player) :=
  inferInstanceAs (Decidable (_ → _ → _))

/-- A turn of positive length without a sweep upwards from a ceiling. -/
def GroundedTurn (platform : Platform) (config : GameConfig) (s : World × Subsystem) (turn : Turn)
    (s' : World × Subsystem) : Prop :=
  0 < turn.dt ∧ GuardedTurn platform config (NoCeilingStart platform config) s turn s'

/-- A player whose flag is set stands on a tile and does not move vertically. -/
def Grounded (config : GameConfig) (player : Player) : Prop :=
  player.onGround = true → Standing config player.toBox ∧ player.velY = 0

theorem grounded_command (o : Opcodes) (h : Grounded config player) :
    Grounded config (World.command dt o player) := by
  cases o with
  | jump =>
    by_cases hground : player.onGround = true
    · simp [World.command, hground, Grounded]
    · simpa [World.command, hground] using h
  | moveLeft | moveRight | createPlayer | spawnPlayers | movePlayer | addPlayer | removePlayer =>
    exact h

theorem grounded_update (hvalid : config.Valid) (hdt : 0 < dt)
    (hceiling : NoCeilingStart platform config dt player) (h : Grounded config player) :
    Grounded config (update platform config dt player).1 := by
  intro hground
  simp only [update, movePlayer] at hground ⊢
  by_cases hvel : player.velY + gravity * dt = 0
  · -- no sweep along `y`: the flag is the old one, and the player was at rest
    have hold : player.onGround = true := by
      simpa [moveY, applyGravity, hvel] using hground
    have hrest : gravity * dt = 0 := by
      rw [(h hold).2, zero_add] at hvel
      exact hvel
    have hpos : 0 < gravity * dt := mul_pos (by norm_num [gravity]) hdt
    exact absurd hrest hpos.ne'
  · exact moveY_grounded hvalid hvel hceiling hground

theorem grounded_inputPhase {w w' : World} {inputs : List ServerPacket}
    (h : w.inputPhase platform config dt inputs = some w') (hall : w.All fun _ => Grounded config) :
    w'.All fun _ => Grounded config := by
  refine World.all_inputPhase (fun _ p hp => hp) ?_ (fun _ o p hp => grounded_command o hp) hall h
  intro id hground
  simp [GameConfig.newPlayer] at hground

/-- In every run without sweeps upwards from a ceiling, the flag is set at the start
    of a tick only for a player that stands on a tile; and while the inputs of the
    tick are processed, a jump changes the velocity of such a player only. -/
theorem game_grounded (hvalid : config.Valid) {turns : List Turn} {s : World × Subsystem}
    (h : Run (GroundedTurn platform config) ({}, {}) turns s) :
    (∀ id p, s.1.player? id = some p → p.onGround = true → Standing config p.toBox) ∧
      ∀ dt inputs w, s.1.inputPhase platform config dt inputs = some w →
        ∀ id p, w.player? id = some p → World.command dt .jump p ≠ p →
          Standing config p.toBox := by
  have hall : s.1.All fun _ => Grounded config := by
    refine h.invariant (I := fun s => s.1.All fun _ => Grounded config) ?_ ?_
    · intro id p hp
      simp [World.player?] at hp
    · rintro ⟨w, net⟩ turn ⟨w', net'⟩ hw ⟨hdt, hstep, hceiling⟩
      obtain ⟨w1, w2, hin, hloop, rfl, -⟩ := World.tick_eq_some.mp hstep
      have h2 : w2.All fun _ => Grounded config :=
        World.all_forEach
          (fun id p hp hg => grounded_update hvalid hdt (hceiling w1 hin id p hp) hg)
          (grounded_inputPhase hin hw) hloop
      exact h2
  refine ⟨fun id p hp hground => (hall id p hp hground).1, ?_⟩
  intro dt inputs w hin id p hp hjump
  refine (grounded_inputPhase hin hall id p hp ?_).1
  by_contra hground
  exact hjump (by simp [World.command, hground])

theorem room_valid : GameConfig.room.Valid where
  tile := by decide
  gridX := by decide
  gridY := by decide
  rows := by decide
  width := by decide
  height := by decide
  spawn_free := by decide +kernel

/-- A player lands in the room, two seconds after it has been created. -/
theorem game_grounded_room : ∃ s, Run (GroundedTurn .x86 .room) ({}, {})
      [⟨1, [.ofOpcode .createPlayer 0]⟩, ⟨1, []⟩] s ∧
    (s.1.player? 0).any (fun p => p.onGround) = true ∧
    ((∀ id p, s.1.player? id = some p → p.onGround = true → Standing .room p.toBox) ∧
      ∀ dt inputs w, s.1.inputPhase .x86 .room dt inputs = some w →
        ∀ id p, w.player? id = some p → World.command dt .jump p ≠ p →
          Standing .room p.toBox) := by
  have heval : ((guardedStep .x86 .room (NoCeilingStart .x86 .room) ({}, {})
      ⟨1, [.ofOpcode .createPlayer 0]⟩).bind fun s =>
        (guardedStep .x86 .room (NoCeilingStart .x86 .room) s ⟨1, []⟩).bind fun s =>
          some ((s.1.player? 0).any fun p => p.onGround)) = some true := by decide +kernel
  obtain ⟨s1, h1, hrest⟩ := Option.bind_eq_some_iff.mp heval
  obtain ⟨s2, h2, hground⟩ := Option.bind_eq_some_iff.mp hrest
  have hrun : Run (GroundedTurn .x86 .room) ({}, {})
      [⟨1, [.ofOpcode .createPlayer 0]⟩, ⟨1, []⟩] s2 :=
    (Run.single ⟨one_pos, guardedTurn_of_step h1⟩).snoc ⟨one_pos, guardedTurn_of_step h2⟩
  exact ⟨s2, hrun, Option.some_inj.mp hground, game_grounded room_valid hrun⟩

/-- A map with a ledge under a low ceiling: the corridor in row 4 is as high as the
    player, and ends in a pit. -/
def ledgeMap : GameConfig where
  tile := 1
  gridX := 4
  gridY := 7
  map := [1, 1, 1, 1, 1, 1, 1, 1, 1, 1, 1, 1, 1, 1, 1, 1, 1, 0, 0, 1, 1, 1, 0, 1, 1, 1, 1, 1]
  player := { width := 1, height := 1, playerStartX := 1, playerStartY := 4, playerOffset := 0 }
  length_map := rfl

/-- A player that jumps while it walks off the ledge has the flag set over the pit,
    although all its sweeps are defined. -/
theorem ledge_flag_in_the_air : ledgeMap.Valid ∧
    ¬ ∀ turns s, (∀ turn ∈ turns, 0 < turn.dt) → Run (DefinedTurn .x86 ledgeMap) ({}, {}) turns s →
      ∀ id p, s.1.player? id = some p → p.onGround = true → Standing ledgeMap p.toBox := by
  refine ⟨⟨by decide, by decide, by decide, by decide, by decide, by decide, by decide +kernel⟩, ?_⟩
  intro hclaim
  have heval : ((guardedStep .x86 ledgeMap (UpdateDefined ledgeMap) ({}, {})
      ⟨1 / 100, [.ofOpcode .createPlayer 0]⟩).bind fun s =>
        (guardedStep .x86 ledgeMap (UpdateDefined ledgeMap) s
          ⟨1 / 100, [.ofOpcode .moveRight 0, .ofOpcode .jump 0]⟩).bind fun s =>
            (s.1.player? 0).map fun p => p.onGround && !decide (Standing ledgeMap p.toBox)) =
        some true := by decide +kernel
  obtain ⟨s1, h1, hrest⟩ := Option.bind_eq_some_iff.mp heval
  obtain ⟨s2, h2, hmap⟩ := Option.bind_eq_some_iff.mp hrest
  obtain ⟨p, hp, hflag⟩ := Option.map_eq_some_iff.mp hmap
  have hrun := (Run.single (guardedTurn_of_step h1)).snoc (guardedTurn_of_step h2)
  simp only [Bool.and_eq_true, Bool.not_eq_true', decide_eq_false_iff_not] at hflag
  exact hflag.2 (hclaim _ s2 (by simp) hrun 0 p hp hflag.1)

end EndlessPeak
