import Mathlib.Algebra.Order.Archimedean.Basic
import EndlessPeak.Game.Coverage
import EndlessPeak.Game.Solo

/-!
# Free fall

`Update` adds `g * dt` to the vertical velocity, and `MovePlayer` moves the player by the whole
velocity, not by the velocity times `dt`. After `n` ticks the velocity is `n * g * dt` and the
player has fallen `g * dt * (1 + ... + n)`: for a time `T` in `N` ticks that is
`g * T * (N + 1) / 2`, which grows with the tick rate.

* `sweep_of_unobstructed`: nothing stops a player with no solid tile below it.
* `falling_soloTick`, `exists_fall`: one tick, and a run of ticks, of a fall.
* `fall_unbounded`: no bound holds for every number of ticks.
-/

namespace EndlessPeak

open Lib

/-! ## Falling for a time -/

/-- Between two ticks: no entry of `players_` is null, and both inbound queues are empty. -/
structure BetweenTicks (s : World × Subsystem) : Prop where
  notNull : ∀ id, s.1.players.lookup id ≠ some none
  game : s.1.game.inQueue = []
  net : s.2.inQueue = []

/-- The player does not move. -/
def Player.AtRest (player : Player) : Prop := player.velX = 0 ∧ player.velY = 0

/-- No solid tile that a sweep reads on the fall, also past the end of the map, begins at the
    lower edge of the box or below it, in its columns. -/
def GameConfig.Unobstructed (platform : Platform) (config : GameConfig) (box : Box) : Prop :=
  ∀ d v i, 0 ≤ d → 0 < v → i ∈ config.sweepIndices platform (box.move 0 d) 0 v →
    (readTile platform config.worldMap i).type ≠ .empty →
    Meets box.x box.w (readTile platform config.worldMap i).x
      (readTile platform config.worldMap i).w →
    (readTile platform config.worldMap i).y < box.y + box.h

/-- In the time `T`, in any number of ticks of one duration and without packets, the player
    `id` gets at most `C` further down. -/
def FallsAtMost (platform : Platform) (config : GameConfig) (s : World × Subsystem) (id : UInt64)
    (T C : ℚ) : Prop :=
  ∀ (N : ℕ) s' p p', 1 ≤ N →
    Run (stepRel (gameStep platform config)) s (List.replicate N ⟨T / N, []⟩) s' →
    s.1.player? id = some p → s'.1.player? id = some p' → p'.y - p.y ≤ C

variable {platform : Platform} {config : GameConfig} {s : World × Subsystem} {id : UInt64}
  {box : Box} {player : Player} {dt T : ℚ}

theorem betweenTicks_of_gameRun {turns : List Turn} (h : GameRun platform config turns s) :
    BetweenTicks s where
  notNull := (game_agrees h).2
  game := (game_inQueue h).1
  net := (game_inQueue h).2

/-! ## Nothing in the way -/

/-- On a grid whose rows are clamped to it, only its solid cells can be in the way. -/
theorem unobstructed_of_cells (hgridX : config.gridX ≠ 0) (hrows : config.gridY.toNat % 256 ≠ 0)
    (h : ∀ x y, config.Solid x y → Meets box.x box.w (config.tileRect x y).x
      (config.tileRect x y).w → (config.tileRect x y).y < box.y + box.h) :
    config.Unobstructed platform box := by
  intro d v i _ hv hi hsolid hmeets
  have hvel : ¬ ((0 : ℚ) = 0 ∧ v = 0) := fun h0 => hv.ne' h0.2
  obtain ⟨y, x, -, hy, -, -, hx, -, rfl⟩ := (mem_sweepIndices hvel hgridX hrows).mp hi
  have hy' : y < config.gridY.toNat := lt_of_lt_of_le hy (Nat.mod_le _ _)
  have hread := readTile_worldMap platform hx hy'
  rw [Nat.mod_eq_of_lt (index_lt hx hy')] at hread
  rw [hread] at hsolid hmeets ⊢
  have hcell := (config.tileAt_type hx hy').mp hsolid
  have hrect := config.rect_tileAt hcell
  have htop := h x y hcell
  rw [← hrect] at htop
  exact htop hmeets

/-- Nothing stops a player with no solid tile below it. -/
theorem sweep_of_unobstructed (hfree : config.Unobstructed platform box) {d v : ℚ} (hd : 0 ≤ d)
    (hv : 0 < v) : config.sweep platform (box.move 0 d) 0 v = .miss := by
  rcases sweptAxis_cases platform (box.move 0 d) config.tile config.gridX config.gridY.toUInt8
    config.worldMap 0 v with hmiss | ⟨i, hi, hsolid, heq⟩
  · exact hmiss
  · unfold GameConfig.sweep
    rw [heq]
    by_cases hmeets : Meets (box.move 0 d).x (box.move 0 d).w
      (readTile platform config.worldMap i).x (readTile platform config.worldMap i).w
    · have htop := hfree d v i hd hv hi hsolid (by simpa [Box.move, Box.w] using hmeets)
      rw [sweptAABB_y hv.ne' hmeets, if_pos]
      right
      left
      unfold entryTime
      rw [if_pos hv]
      apply div_neg_of_neg_of_pos _ hv
      show (readTile platform config.worldMap i).y - (box.y + d + box.h) < 0
      linarith
    · exact sweptAABB_y_miss hmeets

/-! ## One tick -/

/-- `p` is the player `start` after `n` ticks of its fall. -/
structure Falling (dt : ℚ) (start : Player) (n : ℕ) (p : Player) : Prop where
  velX : p.velX = 0
  velY : p.velY = n * (gravity * dt)
  toBox : p.toBox = start.toBox.move 0 (gravity * dt * (n * (n + 1) / 2))

theorem falling_zero (h : player.AtRest) : Falling dt player 0 player where
  velX := h.1
  velY := by rw [h.2, Nat.cast_zero, zero_mul]
  toBox := by simp [Box.move]

theorem movePlayer_of_velX (h : player.velX = 0) :
    movePlayer platform config player = moveY platform config player 0 player.velY := by
  unfold movePlayer moveX
  rw [h]
  rfl

theorem falling_soloTick (hfree : config.Unobstructed platform player.toBox) (hdt : 0 < dt)
    {n : ℕ} {p : Player} (h : Falling dt player n p) :
    ∃ p', soloTick platform config dt (some p) [] = some p' ∧ Falling dt player (n + 1) p' := by
  have hstep : 0 < gravity * dt := mul_pos (by norm_num [gravity]) hdt
  have hvel : p.velY + gravity * dt = (n + 1) * (gravity * dt) := by
    rw [h.velY]
    ring
  have hpos : 0 < p.velY + gravity * dt := by
    rw [hvel]
    positivity
  have hsweep : config.sweep platform p.toBox 0 (p.velY + gravity * dt) = .miss := by
    rw [h.toBox]
    exact sweep_of_unobstructed hfree (by positivity) hpos
  refine ⟨_, rfl, ?_⟩
  show Falling dt player (n + 1)
    (movePlayer platform config (applyGravity dt (p.setVel 0 p.velY)))
  rw [movePlayer_of_velX rfl]
  constructor
  · rw [moveY_velX]
    exact if_neg (by simp [applyGravity, hsweep])
  · rw [moveY_velY]
    refine (if_neg (by simp [applyGravity, hsweep])).trans ?_
    show p.velY + gravity * dt = _
    rw [hvel]
    push_cast
    rfl
  · rw [moveY_toBox]
    show p.toBox.move 0 ((p.velY + gravity * dt) *
      (config.sweep platform p.toBox 0 (p.velY + gravity * dt)).entryTime) = _
    rw [hsweep, h.toBox, hvel]
    simp only [Box.move, SweptData.miss]
    congr 1
    · ring
    · push_cast
      ring

/-! ## A run of ticks -/

theorem BetweenTicks.tick (platform : Platform) (config : GameConfig) (hs : BetweenTicks s)
    (dt : ℚ) :
    ∃ s', gameStep platform config s ⟨dt, []⟩ = some s' ∧ BetweenTicks s' ∧
      ∀ id, s'.1.player? id = soloTick platform config dt (s.1.player? id) [] := by
  obtain ⟨w1, hreset⟩ := World.forEach_isSome platform
    (fun player => (player.setVel 0 player.velY, []))
    (w := { s.1 with game := { s.1.game with inQueue := [] } }) hs.notNull
  have hnull : ∀ id, w1.players.lookup id ≠ some none := World.not_null_forEach hreset
  obtain ⟨w2, hloop⟩ := World.forEach_isSome platform (update platform config dt)
    (w := { w1 with game := { w1.game with inQueue := [] } }) hnull
  have hin : s.1.inputPhase platform config dt [] =
      some { w1 with game := { w1.game with inQueue := [] } } :=
    World.inputPhase_eq_some.mpr ⟨w1, hreset, rfl⟩
  have htick : s.1.tick platform config dt { s.2 with inQueue := [] } =
      some ({ w2 with game := { w2.game with outQueue := [] } },
        { inQueue := s.1.game.inQueue, outQueue := s.2.outQueue ++ w2.game.outQueue }) :=
    World.tick_eq_some.mpr ⟨_, w2, hin, hloop, rfl, rfl⟩
  have hnull' : ∀ id, w2.players.lookup id ≠ some none := World.not_null_forEach hloop
  have hstep : gameStep platform config s ⟨dt, []⟩ =
      s.1.tick platform config dt { s.2 with inQueue := [] } := by
    unfold gameStep
    rw [hs.net]
    rfl
  exact ⟨_, hstep.trans htick, ⟨hnull', (World.tick_inQueue htick).1, hs.game⟩,
    World.player?_tick htick⟩

/-- A player at rest with no solid tile below it falls in every run of ticks. -/
theorem exists_fall (hs : BetweenTicks s) (hplayer : s.1.player? id = some player)
    (hrest : player.AtRest) (hfree : config.Unobstructed platform player.toBox) (hdt : 0 < dt)
    (n : ℕ) : ∃ s', Run (stepRel (gameStep platform config)) s (List.replicate n ⟨dt, []⟩) s' ∧
      BetweenTicks s' ∧ ∃ p, s'.1.player? id = some p ∧ Falling dt player n p := by
  induction n with
  | zero => exact ⟨s, .nil, hs, player, hplayer, falling_zero hrest⟩
  | succ n ih =>
    obtain ⟨t, hrun, ht, p, hp, hfall⟩ := ih
    obtain ⟨s', hstep, hs', hsolo⟩ := ht.tick platform config dt
    obtain ⟨p', hp', hfall'⟩ := falling_soloTick hfree hdt hfall
    refine ⟨s', ?_, hs', p', ?_, hfall'⟩
    · rw [List.replicate_succ']
      exact hrun.snoc hstep
    · rw [hsolo, hp, hp']

/-! ## The distance -/

theorem Falling.distance {N : ℕ} {p : Player} (hN : N ≠ 0) (h : Falling (T / N) player N p) :
    p.y - player.y = gravity * T * (N + 1) / 2 := by
  have hy : p.y = player.y + gravity * (T / N) * (N * (N + 1) / 2) := congrArg Box.y h.toBox
  have hne : (N : ℚ) ≠ 0 := Nat.cast_ne_zero.mpr hN
  rw [hy]
  field_simp
  ring

theorem not_fallsAtMost (hs : BetweenTicks s) (hplayer : s.1.player? id = some player)
    (hrest : player.AtRest) (hfree : config.Unobstructed platform player.toBox) (hT : 0 < T)
    (C : ℚ) : ¬ FallsAtMost platform config s id T C := by
  intro hbound
  have hgT : 0 < gravity * T := mul_pos (by norm_num [gravity]) hT
  obtain ⟨n, hn⟩ := exists_nat_gt (2 * C / (gravity * T))
  have hdt : 0 < T / ((n + 1 : ℕ) : ℚ) := div_pos hT (Nat.cast_pos.mpr n.succ_pos)
  obtain ⟨s', hrun, -, p, hp, hfall⟩ := exists_fall hs hplayer hrest hfree hdt (n + 1)
  have hle := hbound (n + 1) s' player p (by omega) hrun hplayer hp
  rw [hfall.distance (by omega)] at hle
  rw [div_lt_iff₀ hgT] at hn
  push_cast at hle
  nlinarith

/-- For every player at rest with no solid tile below it and every time `T`: no bound on the
    fall holds for every number of ticks. -/
theorem fall_unbounded (hs : BetweenTicks s) (hplayer : s.1.player? id = some player)
    (hrest : player.AtRest) (hfree : config.Unobstructed platform player.toBox) (hT : 0 < T) :
    ¬ ∃ C, FallsAtMost platform config s id T C := by
  rintro ⟨C, hC⟩
  exact not_fallsAtMost hs hplayer hrest hfree hT C hC

/-- A grid of a single cell, which is empty. -/
def GameConfig.sky : GameConfig where
  tile := 10
  gridX := 1
  gridY := 1
  map := [0]
  player := { width := 8, height := 8, playerStartX := 0, playerStartY := 0, playerOffset := 1 }
  length_map := rfl

theorem unobstructed_sky (platform : Platform) (box : Box) :
    GameConfig.sky.Unobstructed platform box := by
  apply unobstructed_of_cells (by decide) (by decide)
  rintro x y ⟨hx, hy, hcell⟩
  have hx0 : x = 0 := Nat.lt_one_iff.mp hx
  have hy0 : y = 0 := Nat.lt_one_iff.mp hy
  subst hx0 hy0
  exact absurd rfl hcell

/-- A player has been created in a tick that took no time. -/
theorem exists_atRest_sky : ∃ s player, BetweenTicks s ∧ s.1.player? 0 = some player ∧
    player.AtRest := by
  have heval : ((([⟨0, [.ofOpcode .createPlayer 0]⟩] : List Turn).foldlM
      (gameStep .x86 .sky) ({}, {})).bind fun s => s.1.player? 0).map
        (fun player => (player.velX, player.velY)) = some (0, 0) := by decide +kernel
  obtain ⟨player, hplayer, hvel⟩ := Option.map_eq_some_iff.mp heval
  obtain ⟨s, hs, hplayer⟩ := Option.bind_eq_some_iff.mp hplayer
  exact ⟨s, player, betweenTicks_of_gameRun (run_iff_foldlM.mpr hs), hplayer,
    Prod.mk.inj hvel⟩

/-- In one second this player falls below any depth. -/
theorem fall_unbounded_sky : ∃ s, ¬ ∃ C, FallsAtMost .x86 .sky s 0 1 C := by
  obtain ⟨s, player, hs, hplayer, hrest⟩ := exists_atRest_sky
  exact ⟨s, fall_unbounded hs hplayer hrest (unobstructed_sky .x86 player.toBox) one_pos⟩

/-- No bound that depends on the time only holds for all players. -/
theorem fall_depends_on_ticks :
    ¬ ∀ T : ℚ, 0 < T → ∃ C, ∀ platform config s id player, BetweenTicks s →
      s.1.player? id = some player → player.AtRest →
      config.Unobstructed platform player.toBox → FallsAtMost platform config s id T C := by
  intro hall
  obtain ⟨C, hC⟩ := hall 1 one_pos
  obtain ⟨s, player, hs, hplayer, hrest⟩ := exists_atRest_sky
  have hfree := unobstructed_sky .x86 player.toBox
  exact not_fallsAtMost hs hplayer hrest hfree one_pos C
    (hC .x86 .sky s 0 player hs hplayer hrest hfree)

end EndlessPeak
