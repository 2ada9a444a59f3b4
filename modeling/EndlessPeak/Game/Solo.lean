import EndlessPeak.Game.Coverage
import EndlessPeak.Game.NullSafety

/-!
# One player on its own

The players share a map, a loop and a queue, but no packet for one id and no visit of
one entry touches the object of another. So the world projects onto every id: what the
world does with the object of `id` is what `soloTick` does with that object and the
packets for `id` alone. This holds whatever the other packets are and in whatever order
the map is visited, but for one thing: on a grid whose number of rows is a multiple of 256
nothing clamps the rows, and a sweep reads past the end of `map_`, where the objects of
other players may be.

* `player?_processInput`, `player?_foldlM`: a packet and a batch, seen by one id.
* `player?_tick`: a tick, seen by one id.
* `players_isolated`: two runs that agree on the packets for `id` agree on `id`, if its
  sweeps read nothing past the end of `map_`; `insideRun_of_grid` says for which grids
  this is always so.
* `neighbours_leak_in`: a grid for which it is not.
-/

namespace EndlessPeak

open Lib

/-! ## The model of one player -/

/-- What `ProcessInput` does with the player a packet is for. -/
def soloInput (config : GameConfig) (dt : ℚ) (player : Option Player) (packet : ServerPacket) :
    Option Player :=
  match packet.opcode with
  | some .createPlayer => some (config.newPlayer packet.id)
  | some .removePlayer => none
  | some o => player.map (World.command dt o)
  | none => player

/-- What the input phase of `Tick` does with one player: the packets `inputs` are for it. -/
def soloInputs (config : GameConfig) (dt : ℚ) (player : Option Player)
    (inputs : List ServerPacket) : Option Player :=
  inputs.foldl (soloInput config dt) (player.map fun player => player.setVel 0 player.velY)

/-- What `Tick` does with one player. -/
def soloTick (platform : Platform) (config : GameConfig) (dt : ℚ) (player : Option Player)
    (inputs : List ServerPacket) : Option Player :=
  (soloInputs config dt player inputs).map fun player => (update platform config dt player).1

/-- The packets for `id`. -/
def forId (id : UInt64) (inputs : List ServerPacket) : List ServerPacket :=
  inputs.filter fun p => p.id = id

/-! ## The world projects onto one player -/

namespace World

variable {platform : Platform} {config : GameConfig} {dt : ℚ} {w w' : World} {id : UInt64}
  {p : ServerPacket}

/-- An opcode that is no command leaves a player as it is. -/
theorem command_of_not_isCommand {o : Opcodes} (h : ¬ IsCommand o) (player : Player) :
    command dt o player = player := by
  cases o <;> simp_all [command, IsCommand]

theorem player?_processInput (h : w.processInput platform config dt p = some w') (id : UInt64) :
    w'.player? id = if p.id = id then soloInput config dt (w.player? id) p else w.player? id := by
  by_cases hid : p.id = id
  · subst hid
    rw [if_pos rfl, soloInput]
    rcases processInput_cases h with
      ⟨ho, hadd⟩ | ⟨ho, rfl⟩ | ⟨o, q, ho, hcommand, hq, rfl⟩ | ⟨ho, rfl⟩
    · rw [player?_addPlayer hadd, if_pos (by rfl), ho]
    · rw [player?_removePlayer, if_pos rfl, ho]
    · rw [player?_store, if_pos rfl, ho, hq]
      rcases hcommand with rfl | rfl | rfl <;> rfl
    · rw [player?_touch]
      rcases hop : p.opcode with _ | o
      · rfl
      · obtain ⟨hc, hr, hcommand⟩ := ho o hop
        have hsame : (w.player? p.id).map (command dt o) = w.player? p.id := by
          rw [funext (command_of_not_isCommand hcommand)]
          exact Option.map_id'
        cases o with
        | createPlayer => exact absurd rfl hc
        | removePlayer => exact absurd rfl hr
        | _ => exact hsame.symm
  · rw [if_neg hid, player?, player?, lookup_processInput_of_ne h (Ne.symm hid)]

/-- A batch acts on a player through the packets for it. -/
theorem player?_foldlM {batch : List ServerPacket}
    (h : batch.foldlM (processInput platform config dt) w = some w') (id : UInt64) :
    w'.player? id = (forId id batch).foldl (soloInput config dt) (w.player? id) := by
  refine (run_iff_foldlM.mpr h).invariant_trace (I := fun pre v =>
    v.player? id = (forId id pre).foldl (soloInput config dt) (w.player? id)) rfl ?_
  intro pre v p v' hv hstep
  rw [player?_processInput hstep, hv, forId, forId, List.filter_append, List.foldl_append]
  by_cases hid : p.id = id
  · simp [hid]
  · simp [hid]

theorem player?_inputPhase {inputs : List ServerPacket}
    (h : w.inputPhase platform config dt inputs = some w') (id : UInt64) :
    w'.player? id = soloInputs config dt (w.player? id) (forId id inputs) := by
  obtain ⟨w1, hreset, hfold⟩ := inputPhase_eq_some.mp h
  have hbatch := player?_foldlM hfold id
  have hloop := player?_forEach hreset id
  rw [hbatch, soloInputs]
  exact congrArg (fun player => (forId id inputs).foldl (soloInput config dt) player) hloop

theorem player?_tick {net net' : Subsystem}
    (h : w.tick platform config dt net = some (w', net')) (id : UInt64) :
    w'.player? id = soloTick platform config dt (w.player? id) (forId id net.inQueue) := by
  obtain ⟨w1, w2, hin, hloop, rfl, -⟩ := tick_eq_some.mp h
  have hend : w2.player? id = (w1.player? id).map fun player =>
      (update platform config dt player).1 := player?_forEach hloop id
  rw [player?_inputPhase hin] at hend
  exact hend

end World

/-! ## What a move reads -/

/-- The sweep reads `map_` only up to its end. -/
def SweepInside (platform : Platform) (config : GameConfig) (box : Box) (velX velY : ℚ) : Prop :=
  ∀ i ∈ config.sweepIndices platform box velX velY, i < config.worldMap.length

/-- Both sweeps of `MovePlayer` do. -/
def MoveInside (platform : Platform) (config : GameConfig) (player : Player) : Prop :=
  SweepInside platform config player.toBox player.velX 0 ∧
    SweepInside platform config
      (moveX platform config player player.velX player.velY).2.toBox 0 player.velY

section Congr

variable {p₁ p₂ : Platform} (hcast : p₁.wildCast = p₂.wildCast) {config : GameConfig}

include hcast

theorem findCollisionIndices_congr : findCollisionIndices p₁ = findCollisionIndices p₂ := by
  have hsize : toSizeT p₁ = toSizeT p₂ := by
    funext n
    unfold toSizeT
    rw [hcast]
  unfold findCollisionIndices
  rw [hsize]

theorem sweep_congr {box : Box} {velX velY : ℚ} (hin : SweepInside p₁ config box velX velY) :
    config.sweep p₁ box velX velY = config.sweep p₂ box velX velY := by
  unfold GameConfig.sweep sweptAxis
  rw [← findCollisionIndices_congr hcast]
  refine List.foldl_ext _ _ _ fun res i hi => ?_
  have hread : readTile p₁ config.worldMap i = readTile p₂ config.worldMap i := by
    unfold readTile
    rw [List.getElem?_eq_getElem (hin i hi)]
    rfl
  unfold sweptStep
  rw [hread]

theorem movePlayer_congr {player : Player} (hin : MoveInside p₁ config player) :
    movePlayer p₁ config player = movePlayer p₂ config player := by
  obtain ⟨hx, hy⟩ := hin
  have hmoveX : moveX p₁ config player player.velX player.velY =
      moveX p₂ config player player.velX player.velY := by
    unfold moveX
    rw [sweep_congr hcast hx]
  have hmoveY : ∀ moved : Player, SweepInside p₁ config moved.toBox 0 player.velY → ∀ velX,
      moveY p₁ config moved velX player.velY = moveY p₂ config moved velX player.velY := by
    intro moved hmoved velX
    unfold moveY
    rw [sweep_congr hcast hmoved]
  unfold movePlayer
  dsimp only
  rw [← hmoveX]
  exact hmoveY _ hy _

theorem soloTick_congr {dt : ℚ} {player : Option Player} {inputs : List ServerPacket}
    (hin : ∀ p, soloInputs config dt player inputs = some p →
      MoveInside p₁ config (applyGravity dt p)) :
    soloTick p₁ config dt player inputs = soloTick p₂ config dt player inputs := by
  have hupdate : ∀ (platform : Platform) p,
      (update platform config dt p).1 = movePlayer platform config (applyGravity dt p) :=
    fun _ _ => rfl
  unfold soloTick
  simp only [hupdate]
  exact Option.map_congr fun p hp => movePlayer_congr hcast (hin p hp)

end Congr

/-! ## Two runs -/

variable {platform : Platform} {config : GameConfig} {id : UInt64} {turns : List Turn}
  {s : World × Subsystem}

/-- Two turns of one duration that bring the same packets for `id`. -/
def SameFor (id : UInt64) (t₁ t₂ : Turn) : Prop :=
  t₁.dt = t₂.dt ∧ forId id t₁.inputs = forId id t₂.inputs

/-- A turn in which the move of the player `id` reads `map_` only up to its end. -/
def InsideTurn (platform : Platform) (config : GameConfig) (id : UInt64) (s : World × Subsystem)
    (turn : Turn) (s' : World × Subsystem) : Prop :=
  gameStep platform config s turn = some s' ∧
    ∀ w p, s.1.inputPhase platform config turn.dt (s.2.inQueue ++ turn.inputs) = some w →
      w.player? id = some p → MoveInside platform config (applyGravity turn.dt p)

theorem gameRun_of_inside (h : Run (InsideTurn platform config id) ({}, {}) turns s) :
    GameRun platform config turns s := h.mono fun _ _ _ hstep => hstep.1

/-- Where the grid has a column, and a number of rows that is no multiple of 256, all turns
    are so. -/
theorem insideRun_of_grid (hgridX : config.gridX ≠ 0) (hrows : config.gridY.toNat % 256 ≠ 0)
    (h : GameRun platform config turns s) (id : UInt64) :
    Run (InsideTurn platform config id) ({}, {}) turns s := by
  have hsweep : ∀ box velX velY, SweepInside platform config box velX velY :=
    fun _ _ _ _ hi => lt_of_mem_sweepIndices hgridX hrows hi
  exact h.mono fun _ _ _ hstep => ⟨hstep, fun _ _ _ _ => ⟨hsweep _ _ _, hsweep _ _ _⟩⟩

theorem lookup_of_player? {w : World} (hnull : w.players.lookup id ≠ some none) :
    w.players.lookup id = (w.player? id).map some := by
  rw [World.player?]
  rcases hv : w.players.lookup id with _ | _ | player
  · rfl
  · exact absurd hv hnull
  · rfl

theorem player?_congr {p₁ p₂ : Platform} (hcast : p₁.wildCast = p₂.wildCast)
    {s₁ s₁' s₂ s₂' : World × Subsystem} {t₁ t₂ : Turn} (hturn : SameFor id t₁ t₂)
    (hplayer : s₁.1.player? id = s₂.1.player? id) (hempty₁ : s₁.2.inQueue = [])
    (hempty₂ : s₂.2.inQueue = []) (h₁ : InsideTurn p₁ config id s₁ t₁ s₁')
    (h₂ : gameStep p₂ config s₂ t₂ = some s₂') : s₁'.1.player? id = s₂'.1.player? id := by
  obtain ⟨hstep, hinside⟩ := h₁
  have htick₁ := World.player?_tick hstep id
  have htick₂ := World.player?_tick h₂ id
  simp only [hempty₁, hempty₂, List.nil_append] at htick₁ htick₂ hinside
  rw [htick₁, htick₂, ← hplayer, ← hturn.1, ← hturn.2]
  refine soloTick_congr hcast fun p hp => ?_
  obtain ⟨w, _, hin, -⟩ := World.tick_eq_some.mp hstep
  simp only [hempty₁, List.nil_append] at hin
  exact hinside w p hin (by rw [World.player?_inputPhase hin, hp])

/-- Two runs of ticks of the same durations whose packets for `id` agree, tick by tick,
    have the same entry for `id` at the end: no player, or a player with the same
    position, velocity and ground flag, if its moves in one of the runs read nothing past
    the end of `map_`. The packets for the other ids, what the memory past the end holds
    and the orders in which the maps are visited may differ in any way. -/
theorem players_isolated {p₁ p₂ : Platform} (hcast : p₁.wildCast = p₂.wildCast)
    {turns₁ turns₂ : List Turn} {s₁ s₂ : World × Subsystem}
    (hturns : List.Forall₂ (SameFor id) turns₁ turns₂)
    (h₁ : Run (InsideTurn p₁ config id) ({}, {}) turns₁ s₁) (h₂ : GameRun p₂ config turns₂ s₂) :
    s₁.1.players.lookup id = s₂.1.players.lookup id := by
  have hplayer : s₁.1.player? id = s₂.1.player? id := by
    induction h₁ generalizing turns₂ s₂ with
    | nil =>
      obtain rfl := List.forall₂_nil_left_iff.mp hturns
      rw [Run.nil_iff.mp h₂]
    | @snoc ls t₁ u₁ s₁ hrun₁ hstep₁ ih =>
      rw [← List.forall₂_reverse_iff, List.reverse_append, List.reverse_singleton,
        List.singleton_append] at hturns
      obtain ⟨t₂, ls₂, hturn, hrest, hreverse⟩ := List.forall₂_cons_left_iff.mp hturns
      obtain rfl : turns₂ = ls₂.reverse ++ [t₂] := by
        rw [← List.reverse_reverse turns₂, hreverse, List.reverse_cons]
      obtain ⟨u₂, hrun₂, hstep₂⟩ := Run.snoc_iff.mp h₂
      rw [← List.reverse_reverse ls₂, List.forall₂_reverse_iff] at hrest
      exact player?_congr hcast hturn (ih hrest hrun₂)
        (game_inQueue (gameRun_of_inside hrun₁)).2 (game_inQueue hrun₂).2 hstep₁ hstep₂
  rw [lookup_of_player? ((game_agrees (gameRun_of_inside h₁)).2 id),
    lookup_of_player? ((game_agrees h₂).2 id), hplayer]

/-- The processor of `Platform.x86`, visiting maps in the opposite order. -/
def Platform.x86Reversed : Platform :=
  { Platform.x86 with
    iterate := fun _ entries => entries.reverse
    iterate_perm := fun _ entries => entries.reverse_perm }

/-- Player `0` walks and jumps; in one run it is alone, in the other a second player
    comes and goes and the map is visited in another order. -/
theorem players_isolated_room : ∃ s₁ s₂, GameRun .x86 .room
      [⟨1 / 10, [.ofOpcode .createPlayer 0]⟩, ⟨1 / 10, [.ofOpcode .moveRight 0]⟩] s₁ ∧
    GameRun .x86Reversed .room
      [⟨1 / 10, [.ofOpcode .createPlayer 1, .ofOpcode .createPlayer 0]⟩,
        ⟨1 / 10, [.ofOpcode .moveRight 0, .ofOpcode .jump 1]⟩] s₂ ∧
    s₁.1.players.lookup 0 = s₂.1.players.lookup 0 := by
  have heval₁ : (([⟨1 / 10, [.ofOpcode .createPlayer 0]⟩,
      ⟨1 / 10, [.ofOpcode .moveRight 0]⟩] : List Turn).foldlM (gameStep .x86 .room)
        ({}, {})).isSome = true := by decide +kernel
  have heval₂ : (([⟨1 / 10, [.ofOpcode .createPlayer 1, .ofOpcode .createPlayer 0]⟩,
      ⟨1 / 10, [.ofOpcode .moveRight 0, .ofOpcode .jump 1]⟩] : List Turn).foldlM
        (gameStep .x86Reversed .room) ({}, {})).isSome = true := by decide +kernel
  obtain ⟨s₁, hs₁⟩ := Option.isSome_iff_exists.mp heval₁
  obtain ⟨s₂, hs₂⟩ := Option.isSome_iff_exists.mp heval₂
  have hrun₁ : GameRun .x86 .room _ s₁ := run_iff_foldlM.mpr hs₁
  have hrun₂ := run_iff_foldlM.mpr hs₂
  have hinside := insideRun_of_grid (by decide) (by decide) hrun₁ 0
  have hcast : Platform.x86.wildCast = Platform.x86Reversed.wildCast := rfl
  refine ⟨s₁, s₂, hrun₁, hrun₂, players_isolated hcast ?_ hinside hrun₂⟩
  exact .cons ⟨rfl, by simp [forId]⟩ (.cons ⟨rfl, by simp [forId]⟩ .nil)

/-- A shaft of 256 rows without a floor; a player spawns at its lower end. -/
def tallShaft : GameConfig where
  tile := 10
  gridX := 1
  gridY := 256
  map := List.replicate 256 0
  player := { width := 8, height := 8, playerStartX := 0, playerStartY := 255, playerOffset := 2 }
  length_map := List.length_replicate

/-- The processor of `Platform.x86`, with what reads as a solid tile in the memory past the end
    of the map of the shaft. -/
def Platform.x86Occupied : Platform :=
  { Platform.x86 with
    wildTile := fun _ => { x := 0, y := 2560, width := 10, height := 10, type := .solid } }

/-- As eight bits the number of rows of the shaft is zero, and no row is clamped: the first
    sweep of player `0` reads past the end of the map. If the player `1` of the second run leaves
    a solid tile there, player `0` stands on it; without it falls. -/
theorem neighbours_leak_in : ¬ ∀ (p₁ p₂ : Platform) (config : GameConfig) (id : UInt64)
    (turns₁ turns₂ : List Turn) (s₁ s₂ : World × Subsystem), p₁.wildCast = p₂.wildCast →
      List.Forall₂ (SameFor id) turns₁ turns₂ → GameRun p₁ config turns₁ s₁ →
      GameRun p₂ config turns₂ s₂ → s₁.1.players.lookup id = s₂.1.players.lookup id := by
  intro hclaim
  have heval₁ : (([⟨1 / 10, [.ofOpcode .createPlayer 0]⟩] : List Turn).foldlM
      (gameStep .x86 tallShaft) ({}, {})).any (fun s =>
        (s.1.player? 0).any fun p => p.onGround = false) = true := by decide +kernel
  have heval₂ : (([⟨1 / 10, [.ofOpcode .createPlayer 1, .ofOpcode .createPlayer 0]⟩] :
      List Turn).foldlM (gameStep .x86Occupied tallShaft) ({}, {})).any (fun s =>
        (s.1.player? 0).all fun p => p.onGround = true) = true := by decide +kernel
  simp only [Option.any_eq_true, decide_eq_true_eq] at heval₁ heval₂
  obtain ⟨s₁, hs₁, p, hp, hfalls⟩ := heval₁
  obtain ⟨s₂, hs₂, hstands⟩ := heval₂
  have hrun₁ : GameRun .x86 tallShaft _ s₁ := run_iff_foldlM.mpr hs₁
  have hrun₂ : GameRun .x86Occupied tallShaft _ s₂ := run_iff_foldlM.mpr hs₂
  have hturns : List.Forall₂ (SameFor 0) [⟨1 / 10, [.ofOpcode .createPlayer 0]⟩]
      [⟨1 / 10, [.ofOpcode .createPlayer 1, .ofOpcode .createPlayer 0]⟩] :=
    .cons ⟨rfl, by simp [forId]⟩ .nil
  have hsame := hclaim .x86 .x86Occupied tallShaft 0 _ _ s₁ s₂ rfl hturns hrun₁ hrun₂
  have hplayer : s₂.1.player? 0 = some p := by
    rw [← hp, World.player?, World.player?, hsame]
  rw [hplayer, Option.all_some, decide_eq_true_eq] at hstands
  rw [hfalls] at hstands
  cases hstands

end EndlessPeak
