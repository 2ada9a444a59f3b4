import EndlessPeak.Game.Solo

/-!
# How far a player gets in one tick

A tick resets the horizontal velocity of every player before it processes the packets,
and every `MoveLeft` or `MoveRight` sets it to the same amount. So the packets of a
client decide in which direction its player goes, and not how fast, as long as they
only steer: a `CreatePlayer` among them puts the player back where players spawn.

* `steered_soloInputs`: what steering packets leave of the position and the velocity.
* `movePlayer_x`: a player is moved by a part of its horizontal velocity.
* `speed_iff`: a batch keeps the speed limit wherever the player stands exactly if it
  has no `CreatePlayer`.
* `recreate_breaks_speed`: a client can send a `CreatePlayer`.
-/

namespace EndlessPeak

open Lib

/-! ## The speed limit -/

/-- The opcodes that set the horizontal velocity. -/
def IsMove (o : Opcodes) : Prop := o = .moveLeft ∨ o = .moveRight

instance (o : Opcodes) : Decidable (IsMove o) := inferInstanceAs (Decidable (_ ∨ _))

/-- The last `MoveLeft` or `MoveRight` of a batch. -/
def lastMove (inputs : List ServerPacket) : Option Opcodes :=
  ((inputs.filterMap ServerPacket.opcode).filter fun o => IsMove o).getLast?

/-- The horizontal velocity after a batch whose last move is the argument. -/
def moveVel (dt : ℚ) : Option Opcodes → ℚ
  | some .moveLeft => -(100 * dt)
  | some .moveRight => 100 * dt
  | _ => 0

/-- A player that got the packets `inputs` has gone from `x` to `x'` within the limit. -/
structure SpeedBound (dt : ℚ) (inputs : List ServerPacket) (x x' : ℚ) : Prop where
  limit : |x' - x| ≤ 100 * dt
  left : lastMove inputs = some .moveLeft → x' ≤ x
  right : lastMove inputs = some .moveRight → x ≤ x'
  still : lastMove inputs = none → x' = x

/-- If the player `id` is there before and after a tick from `w`, it keeps the limit. -/
def World.KeepsSpeed (platform : Platform) (config : GameConfig) (dt : ℚ) (net : Subsystem)
    (id : UInt64) (w : World) : Prop :=
  ∀ w' net' p p', w.tick platform config dt net = some (w', net') → w.player? id = some p →
    w'.player? id = some p' → SpeedBound dt (forId id net.inQueue) p.x p'.x

/-- `v` is `w` with the player `id` at any horizontal position. -/
structure World.ExceptX (id : UInt64) (w v : World) : Prop where
  game : v.game = w.game
  iterations : v.iterations = w.iterations
  others : ∀ j, j ≠ id → v.players.lookup j = w.players.lookup j
  self : ∃ p x, w.player? id = some p ∧ v.player? id = some { p with x := x }

/-! ## Steering -/

theorem lastMove_snoc (inputs : List ServerPacket) (q : ServerPacket) :
    lastMove (inputs ++ [q]) =
      if q.opcode = some .moveLeft ∨ q.opcode = some .moveRight then q.opcode
      else lastMove inputs := by
  unfold lastMove
  rw [List.filterMap_append, List.filter_append]
  rcases ho : q.opcode with _ | o
  · simp [ho]
  have hlast : [q].filterMap ServerPacket.opcode = [o] := by simp [ho]
  have hiff : some o = some Opcodes.moveLeft ∨ some o = some Opcodes.moveRight ↔ IsMove o := by
    simp [IsMove]
  rw [hlast]
  by_cases hmove : IsMove o
  · rw [if_pos (hiff.mpr hmove), List.filter_cons_of_pos (by simpa using hmove), List.filter_nil,
      List.getLast?_concat]
  · rw [if_neg (mt hiff.mp hmove), List.filter_cons_of_neg (by simpa using hmove),
      List.filter_nil, List.append_nil]

theorem lastMove_cases (inputs : List ServerPacket) :
    lastMove inputs = none ∨ lastMove inputs = some .moveLeft ∨
      lastMove inputs = some .moveRight := by
  induction inputs using List.reverseRecOn with
  | nil => exact .inl rfl
  | append_singleton inputs q ih =>
    rw [lastMove_snoc]
    split_ifs with hmove
    · exact .inr hmove
    · exact ih

/-- `player` has processed the packets `inputs` since the velocity reset, and none of
    them has created it. -/
structure Steered (dt : ℚ) (start : Player) (inputs : List ServerPacket) (player : Player) :
    Prop where
  box : player.toBox = start.toBox
  velX : player.velX = moveVel dt (lastMove inputs)

theorem steered_soloInput {config : GameConfig} {dt : ℚ} {start : Player}
    {inputs : List ServerPacket} {player : Option Player} {q : ServerPacket}
    (hc : q.opcode ≠ some .createPlayer) (h : ∀ p, player = some p → Steered dt start inputs p) :
    ∀ p, soloInput config dt player q = some p → Steered dt start (inputs ++ [q]) p := by
  intro p hp
  unfold soloInput at hp
  rcases ho : q.opcode with _ | o
  · rw [ho] at hp
    obtain ⟨hbox, hvel⟩ := h p hp
    exact ⟨hbox, by rw [lastMove_snoc, ho]; simpa using hvel⟩
  · rw [ho] at hp
    cases o with
    | createPlayer => exact absurd ho hc
    | removePlayer => exact absurd hp (by simp)
    | moveLeft | moveRight =>
      obtain ⟨p0, hp0, rfl⟩ := Option.map_eq_some_iff.mp hp
      refine ⟨(World.command_toBox _ p0).trans (h p0 hp0).box, ?_⟩
      rw [lastMove_snoc, ho]
      rfl
    | jump =>
      obtain ⟨p0, hp0, rfl⟩ := Option.map_eq_some_iff.mp hp
      refine ⟨(World.command_toBox _ p0).trans (h p0 hp0).box, ?_⟩
      rw [lastMove_snoc, ho, if_neg (by simp), ← (h p0 hp0).velX]
      show (if p0.onGround then (p0.setVel p0.velX (-(400 * dt))).setOnGround false
        else p0).velX = p0.velX
      split <;> rfl
    | spawnPlayers | movePlayer | addPlayer =>
      obtain ⟨p0, hp0, rfl⟩ := Option.map_eq_some_iff.mp hp
      refine ⟨(h p0 hp0).box, ?_⟩
      rw [lastMove_snoc, ho, if_neg (by simp)]
      exact (h p0 hp0).velX

/-- What the input phase leaves of a player that no packet creates. -/
theorem steered_soloInputs {config : GameConfig} {dt : ℚ} {start p : Player}
    {inputs : List ServerPacket} (hc : ∀ q ∈ inputs, q.opcode ≠ some .createPlayer)
    (h : soloInputs config dt (some start) inputs = some p) : Steered dt start inputs p := by
  suffices hall : ∀ p, inputs.foldl (soloInput config dt) (some (start.setVel 0 start.velY)) =
      some p → Steered dt start inputs p from hall p h
  clear h p
  induction inputs using List.reverseRecOn with
  | nil =>
    intro p hp
    cases hp
    exact ⟨rfl, rfl⟩
  | append_singleton inputs q ih =>
    rw [List.foldl_append, List.foldl_cons, List.foldl_nil]
    apply steered_soloInput (hc q (by simp))
    exact ih fun r hr => hc r (List.mem_append_left _ hr)

theorem soloInputs_of_create {config : GameConfig} {dt : ℚ} {inputs : List ServerPacket}
    {q : ServerPacket} (hq : q ∈ inputs) (hc : q.opcode = some .createPlayer)
    (p₁ p₂ : Option Player) :
    soloInputs config dt p₁ inputs = soloInputs config dt p₂ inputs := by
  obtain ⟨pre, post, rfl⟩ := List.append_of_mem hq
  have hinput : ∀ player, soloInput config dt player q = some (config.newPlayer q.id) := by
    intro player
    simp [soloInput, hc]
  unfold soloInputs
  rw [List.foldl_append, List.foldl_append, List.foldl_cons, List.foldl_cons, hinput, hinput]

/-! ## Moving -/

/-- A player is moved by a part of its horizontal velocity. -/
theorem movePlayer_x (platform : Platform) (config : GameConfig) (player : Player) :
    ∃ t, 0 ≤ t ∧ t ≤ 1 ∧
      (movePlayer platform config player).x = player.x + player.velX * t := by
  obtain ⟨h0, h1⟩ := sweptAxis_entryTime platform player.toBox config.tile config.gridX
    config.gridY.toUInt8 config.worldMap player.velX 0
  refine ⟨_, h0, h1, ?_⟩
  simp [movePlayer, moveY_toBox, moveX_toBox, Box.move, GameConfig.sweep]

/-- A part of the velocity that the last move has set keeps the limit. -/
theorem speedBound_of_fraction {dt t x : ℚ} (hdt : 0 ≤ dt) (h0 : 0 ≤ t) (h1 : t ≤ 1)
    (inputs : List ServerPacket) :
    SpeedBound dt inputs x (x + moveVel dt (lastMove inputs) * t) := by
  have hpos : 0 ≤ 100 * dt * t := by positivity
  have hle : 100 * dt * t ≤ 100 * dt := mul_le_of_le_one_right (by positivity) h1
  rcases lastMove_cases inputs with hlast | hlast | hlast
  · constructor <;> simp [hlast, moveVel, hdt]
  · constructor <;> simp only [hlast, moveVel, neg_mul, add_sub_cancel_left, abs_neg,
      abs_of_nonneg hpos, reduceCtorEq, Option.some_inj, false_imp_iff, forall_const]
    · exact hle
    · linarith
  · constructor <;> simp only [hlast, moveVel, add_sub_cancel_left, abs_of_nonneg hpos,
      reduceCtorEq, Option.some_inj, false_imp_iff, forall_const]
    · exact hle
    · linarith

/-! ## The limit, tick by tick -/

namespace World

variable {platform : Platform} {config : GameConfig} {dt : ℚ} {net : Subsystem} {w v : World}
  {id : UInt64}

/-- A batch without a `CreatePlayer` keeps the limit. -/
theorem keepsSpeed_of_steering (hdt : 0 ≤ dt)
    (hc : ∀ q ∈ forId id net.inQueue, q.opcode ≠ some .createPlayer) :
    KeepsSpeed platform config dt net id w := by
  intro w' net' p p' htick hbefore hafter
  have hsolo := player?_tick htick id
  rw [hafter, hbefore, soloTick, eq_comm, Option.map_eq_some_iff] at hsolo
  obtain ⟨q, hinputs, rfl⟩ := hsolo
  obtain ⟨hbox, hvel⟩ := steered_soloInputs hc hinputs
  obtain ⟨t, h0, h1, hx⟩ := movePlayer_x platform config (applyGravity dt q)
  have hmoved : (update platform config dt q).1.x =
      p.x + moveVel dt (lastMove (forId id net.inQueue)) * t := by
    rw [← hvel, ← congrArg Box.x hbox]
    exact hx
  rw [hmoved]
  exact speedBound_of_fraction hdt h0 h1 _

theorem live_of_creates {history : List ServerPacket}
    (h : ∀ q ∈ history, q.opcode = some .createPlayer) (id : UInt64) :
    Live history id ↔ ∃ q ∈ history, q.id = id := by
  induction history using List.reverseRecOn with
  | nil => simp [Live]
  | append_singleton history q ih =>
    have hq : q.opcode = some .createPlayer := h q (by simp)
    have hrest := ih fun r hr => h r (List.mem_append_left _ hr)
    by_cases hid : q.id = id
    · subst hid
      simp [live_snoc_self, hq]
    · rw [live_snoc_of_ne hid, hrest]
      simp [hid]

theorem exists_history (w : World) : ∃ history, Agrees history w := by
  refine ⟨(w.players.entries.filter fun item => item.2.isSome).map fun item =>
    .ofOpcode .createPlayer item.1, ?_⟩
  intro id
  rw [live_of_creates ?_, Option.ne_none_iff_exists']
  swap
  · intro q hq
    obtain ⟨item, -, rfl⟩ := List.mem_map.mp hq
    exact NetPacket.opcode_ofOpcode .createPlayer item.1
  constructor
  · rintro ⟨p, hp⟩
    refine ⟨.ofOpcode .createPlayer id, List.mem_map.mpr ⟨⟨id, some p⟩, ?_, rfl⟩, rfl⟩
    exact List.mem_filter.mpr ⟨AList.mem_lookup_iff.mp (player?_eq_some.mp hp), rfl⟩
  · rintro ⟨q, hq, rfl⟩
    obtain ⟨⟨j, player⟩, hitem, rfl⟩ := List.mem_map.mp hq
    obtain ⟨hmem, hsome⟩ := List.mem_filter.mp hitem
    obtain ⟨p, rfl⟩ := Option.isSome_iff_exists.mp hsome
    exact ⟨p, player?_eq_some.mpr (AList.mem_lookup_iff.mpr hmem)⟩

theorem ExceptX.same_entries (h : ExceptX id w v) (j : UInt64) :
    (v.player? j ≠ none ↔ w.player? j ≠ none) ∧
      (v.players.lookup j = some none ↔ w.players.lookup j = some none) := by
  by_cases hj : j = id
  · subst hj
    obtain ⟨p, x, hw, hv⟩ := h.self
    rw [hw, hv, player?_eq_some.mp hw, player?_eq_some.mp hv]
    simp
  · rw [player?, player?, h.others j hj]
    exact ⟨Iff.rfl, Iff.rfl⟩

/-- Whether a tick ends does not depend on where a player stands. -/
theorem ExceptX.tick_isSome (h : ExceptX id w v)
    (htick : ∃ r, w.tick platform config dt net = some r) :
    ∃ r, v.tick platform config dt net = some r := by
  obtain ⟨history, hagrees⟩ := exists_history w
  have hnull : ∀ j, w.players.lookup j ≠ some none := by
    obtain ⟨⟨w', net'⟩, hr⟩ := htick
    obtain ⟨w1, -, hin, -⟩ := tick_eq_some.mp hr
    obtain ⟨w0, hreset, -⟩ := inputPhase_eq_some.mp hin
    exact (forEach_eq_some hreset).1
  have hagrees' : Agrees history v := fun j => (h.same_entries j).1.trans (hagrees j)
  have hnull' : ∀ j, v.players.lookup j ≠ some none := fun j =>
    mt (h.same_entries j).2.mp (hnull j)
  rw [tick_isSome_iff platform config dt net hagrees' hnull',
    ← tick_isSome_iff platform config dt net hagrees hnull]
  exact htick

theorem exceptX_store {p : Player} (hp : w.player? id = some p) (x : ℚ) :
    ExceptX id w (w.store id { p with x := x }) where
  game := rfl
  iterations := rfl
  others j hj := by rw [lookup_store, if_neg hj]
  self := ⟨p, x, hp, by rw [player?_store, if_pos rfl]⟩

/-- For a player that is there before and after a tick: the batch keeps the limit
    wherever the player stands exactly if it has no `CreatePlayer` for it. -/
theorem speed_iff {w' : World} {net' : Subsystem} {p p' : Player} (hdt : 0 ≤ dt)
    (htick : w.tick platform config dt net = some (w', net'))
    (hbefore : w.player? id = some p) (hafter : w'.player? id = some p') :
    (∀ v, ExceptX id w v → KeepsSpeed platform config dt net id v) ↔
      ∀ q ∈ forId id net.inQueue, q.opcode ≠ some .createPlayer := by
  constructor
  · intro hall q hq hc
    -- the player is put at `p'.x` from wherever it stood, here from beyond the limit
    have hv := exceptX_store hbefore (p'.x + 100 * dt + 1)
    obtain ⟨⟨v', netv⟩, hvtick⟩ := hv.tick_isSome ⟨_, htick⟩
    have hsame : v'.player? id = some p' := by
      rw [player?_tick hvtick id, ← hafter, player?_tick htick id, soloTick, soloTick,
        soloInputs_of_create hq hc]
    have hlimit := (hall _ hv v' netv { p with x := p'.x + 100 * dt + 1 } p' hvtick
      (by rw [player?_store, if_pos rfl]) hsame).limit
    have hsub : p'.x - (p'.x + 100 * dt + 1) = -(100 * dt + 1) := by ring
    rw [hsub, abs_neg, abs_of_nonneg (by positivity)] at hlimit
    linarith
  · intro hc v _
    exact keepsSpeed_of_steering hdt hc

/-- The player that has just spawned in the room walks to the right. -/
theorem speed_iff_room : ∃ w' net' p',
    (({} : World).store 0 (GameConfig.room.newPlayer 0)).tick .x86 .room (1 / 100)
        { inQueue := [.ofOpcode .moveRight 0] } = some (w', net') ∧
      w'.player? 0 = some p' ∧
      ((∀ v, ExceptX 0 (({} : World).store 0 (GameConfig.room.newPlayer 0)) v →
          KeepsSpeed .x86 .room (1 / 100) { inQueue := [.ofOpcode .moveRight 0] } 0 v) ↔
        ∀ q ∈ forId 0 [.ofOpcode .moveRight 0], q.opcode ≠ some .createPlayer) := by
  have heval : (((({} : World).store 0 (GameConfig.room.newPlayer 0)).tick .x86 .room (1 / 100)
      { inQueue := [.ofOpcode .moveRight 0] }).bind fun r => r.1.player? 0).isSome = true := by
    decide +kernel
  obtain ⟨p', hp'⟩ := Option.isSome_iff_exists.mp heval
  obtain ⟨⟨w', net'⟩, htick, hafter⟩ := Option.bind_eq_some_iff.mp hp'
  exact ⟨w', net', p', htick, hafter, speed_iff (by norm_num) htick
    (by rw [player?_store, if_pos rfl]) hafter⟩

end World

/-- A player that has walked one unit and whose client sends a `CreatePlayer` is back
    where it spawned, without any move in the batch. -/
theorem recreate_breaks_speed :
    ¬ ∀ turns s (turn : Turn) id, GameRun .x86 .room turns s → 0 ≤ turn.dt →
      (∀ q ∈ turn.inputs, q.packet.getHeadOpcode < kMaxOpcode) →
      s.1.KeepsSpeed .x86 .room turn.dt { s.2 with inQueue := s.2.inQueue ++ turn.inputs } id := by
  intro hclaim
  have heval : (([⟨1 / 100, [.ofOpcode .createPlayer 0]⟩,
      ⟨1 / 100, [.ofOpcode .moveRight 0]⟩] : List Turn).foldlM (gameStep .x86 .room)
        ({}, {})).any (fun s => (s.1.player? 0).any (fun p => decide (p.x = 12)) &&
          (gameStep .x86 .room s ⟨1 / 100, [.ofOpcode .createPlayer 0]⟩).any fun s' =>
            (s'.1.player? 0).any fun p => decide (p.x = 11)) = true := by decide +kernel
  simp only [Option.any_eq_true, Bool.and_eq_true, decide_eq_true_eq] at heval
  obtain ⟨s, hs, ⟨p, hp, hx⟩, ⟨s', hs', p', hp', hx'⟩⟩ := heval
  have hrun : GameRun .x86 .room _ s := run_iff_foldlM.mpr hs
  have hbound := hclaim _ s ⟨1 / 100, [.ofOpcode .createPlayer 0]⟩ 0 hrun (by norm_num)
    (by simp [ServerPacket.ofOpcode, toUInt16, kMaxOpcode]) s'.1 s'.2 p p' hs' hp hp'
  have hstill := hbound.still (by
    rw [(game_inQueue hrun).2]
    simp [lastMove, forId, IsMove])
  rw [hx, hx'] at hstill
  norm_num at hstill

end EndlessPeak
